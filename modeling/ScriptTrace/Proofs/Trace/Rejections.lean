import Mathlib.Data.List.Induction
import ScriptTrace.Proofs.Session.Persistence
import ScriptTrace.Proofs.StackMachine.Turns
import ScriptTrace.Proofs.Trace.Emission
import ScriptTrace.Trace.Faulty

/-!
Sinks that reject records. A rejected record fails a call, and the host carries on with the next one
(`TraceRecorder.carryOn`). A recorder takes an invocation for begun before its settings are written
and a script for announced before it is written, and it takes an invocation for ended only after the
last record of it was written. So the records that are kept may lack the settings of an invocation
(`TraceRecorder.carryOn_of_rejected_settings`) or the script of a frame. A trace can do without the
records that are `Record.dispensable`: lines, events, and the states of a running machine with the
storage that belongs to them. If a sink rejects no others, all invocations can be read, whatever the
host does (`TraceRecorder.carryOn_readable`).
-/

set_option autoImplicit false
set_option relaxedAutoImplicit false

namespace ScriptTrace

/-! ### Sinks that reject records -/

/-- The state that a trace record shows. -/
def Record.shown? : Record → Option VmState
  | .trace state _ => some state
  | _ => none

/-- The state that the last trace record shows. -/
def lastShown (rs : List Record) : Option VmState := rs.reverse.findSome? Record.shown?

theorem lastShown_concat (rs : List Record) (record : Record) :
    lastShown (rs ++ [record]) = record.shown?.or (lastShown rs) := by
  rw [lastShown, List.reverse_append, List.findSome?_append]
  cases hshown : record.shown? <;> simp [lastShown, hshown]

/-- Whether a trace can do without a record, given those before it: a line, an event, the state of a
running machine, and storage that belongs to such a state. -/
def Record.dispensable (kept : List Record) : Record → Bool
  | .log _ _ => true
  | .notify _ _ _ => true
  | .trace state _ => state = .none
  | .storage _ _ => lastShown kept = some .none
  | _ => false

/-- A sink keeps a record or rejects it, and what it has kept stays as it is. It rejects dispensable
records only. -/
structure Sink.Lenient {τ : Type} (sink : Sink τ) (records : τ → List Record) : Prop where
  write : ∀ record t, Ends (sink.write record) t (fun _ t' ↦ records t' = records t ++ [record])
    fun _ t' ↦ records t' = records t ∧ record.dispensable (records t) = true
  nameContract : ∀ name t, records (sink.nameContract name t) = records t

/-- A sink that rejects whatever a trace can do without. -/
def MemorySink.sparing : Sink MemorySink where
  write record s :=
    if record.dispensable s.records then .error (.sink .writeZero) s
    else MemorySink.sink.write record s
  flush := MemorySink.sink.flush
  nameContract := MemorySink.sink.nameContract

theorem MemorySink.lenient_sparing : MemorySink.sparing.Lenient MemorySink.records where
  write record s := by
    unfold Ends sparing
    by_cases hdispensable : record.dispensable s.records = true
    · simp only [if_pos hdispensable]
      exact ⟨trivial, hdispensable⟩
    · simp only [if_neg hdispensable]
      rfl
  nameContract _ _ := rfl

namespace TraceRecorder

open StackMachine

/-! ### Records that can be read -/

/-- The script of a hash is among some records. -/
def Scripted (rs : List Record) (hash : Hash) : Prop := ∃ code, .script hash code ∈ rs

/-- The records of an invocation can be read without others: they begin with the settings, and a
trace record comes after the scripts of its frames. -/
structure Readable (settings : Settings) (rs : List Record) : Prop where
  begins : ∀ record ∈ rs.head?, record = .settings settings.network settings.addressVersion
  scripted_of_trace : ∀ before state frames after, rs = before ++ .trace state frames :: after →
    ∀ f ∈ frames, Scripted before f.scriptHash

theorem Scripted.append {rs : List Record} {hash : Hash} (h : Scripted rs hash)
    (us : List Record) : Scripted (rs ++ us) hash := by
  obtain ⟨code, hcode⟩ := h
  exact ⟨code, List.mem_append_left us hcode⟩

namespace Readable

variable {settings : Settings} {rs : List Record}

theorem nil (settings : Settings) : Readable settings [] where
  begins _ hhead := nomatch hhead
  scripted_of_trace before _ _ _ hsplit := by
    have hlength := congrArg List.length hsplit
    simp at hlength

/-- One more record. -/
theorem concat (h : Readable settings rs) {record : Record}
    (hbegins : rs = [] → record = .settings settings.network settings.addressVersion)
    (htrace : ∀ state frames, record = .trace state frames →
      ∀ f ∈ frames, Scripted rs f.scriptHash) : Readable settings (rs ++ [record]) where
  begins first hfirst := by
    cases rs with
    | nil =>
      obtain rfl : record = first := by simpa using hfirst
      exact hbegins rfl
    | cons r rest => exact h.begins first hfirst
  scripted_of_trace before state frames after hsplit f hf := by
    induction after using List.reverseRecOn with
    | nil =>
      obtain ⟨rfl, hlast⟩ := List.append_inj' hsplit rfl
      exact htrace state frames (List.cons.inj hlast).1 f hf
    | append_singleton after last =>
      rw [← List.cons_append, ← List.append_assoc] at hsplit
      obtain ⟨rfl, -⟩ := List.append_inj' hsplit rfl
      exact h.scripted_of_trace before state frames after rfl f hf

end Readable

/-! ### Invocations that have begun -/

variable {τ : Type} {sink : Sink τ} {records : τ → List Record} {before : List Record}
  {settings : Settings} {hashes : List Hash} {host : TraceRecorder × τ}

/-- No invocation has begun. -/
structure Rests (r : TraceRecorder) : Prop where
  started : r.started = false
  announced : r.announced = []

/-- An invocation has begun. Besides some records before, the sink has kept records that can be
read, with the scripts of all hashes that the recorder takes for announced. Some hashes are among
these. -/
structure Begun (records : τ → List Record) (before : List Record) (settings : Settings)
    (hashes : List Hash) (host : TraceRecorder × τ) : Prop where
  started : host.1.started = true
  kept : ∃ rs, records host.2 = before ++ rs ∧ rs ≠ [] ∧ Readable settings rs ∧
    ∀ hash ∈ host.1.announced, Scripted rs hash
  known : hashes ⊆ host.1.announced

/-- No invocation has begun yet, or one has. -/
def Resumes (records : τ → List Record) (before : List Record) (settings : Settings)
    (hashes : List Hash) (host : TraceRecorder × τ) : Prop :=
  host.1.Rests ∧ records host.2 = before ∨ Begun records before settings hashes host

/-- An invocation has ended. -/
structure Ended (records : τ → List Record) (before : List Record) (settings : Settings)
    (host : TraceRecorder × τ) : Prop where
  rests : host.1.Rests
  kept : ∃ rs, records host.2 = before ++ rs ∧ Readable settings rs

namespace Begun

variable {r r' : TraceRecorder} {t : τ}

theorem mono (h : Begun records before settings hashes host) {others : List Hash}
    (hothers : others ⊆ hashes) : Begun records before settings others host :=
  ⟨h.started, h.kept, fun _ hmem ↦ h.known (hothers hmem)⟩

/-- The names of contracts do not matter. -/
theorem rename (h : Begun records before settings hashes (r, t)) (names : NameCache) :
    Begun records before settings hashes ({ r with names := names }, t) :=
  ⟨h.started, h.kept, h.known⟩

theorem of_records_eq (h : Begun records before settings hashes (r, t)) {t' : τ}
    (hsame : records t' = records t) : Begun records before settings hashes (r, t') := by
  obtain ⟨rs, hrecords, hrest⟩ := h.kept
  exact ⟨h.started, ⟨rs, hsame.trans hrecords, hrest⟩, h.known⟩

/-- The recorder takes the invocation for ended. -/
theorem ended (h : Begun records before settings hashes (r, t)) :
    Ended records before settings ({ r with started := false, announced := [] }, t) := by
  obtain ⟨rs, hrecords, -, hreadable, -⟩ := h.kept
  exact ⟨⟨rfl, rfl⟩, rs, hrecords, hreadable⟩

/-- One more record is kept. -/
theorem concat (h : Begun records before settings hashes (r, t)) {record : Record} {t' : τ}
    (hmore : records t' = records t ++ [record])
    (htrace : ∀ state frames, record = .trace state frames →
      ∀ f ∈ frames, f.scriptHash ∈ hashes) : Begun records before settings hashes (r, t') := by
  obtain ⟨rs, hrecords, hne, hreadable, hscripted⟩ := h.kept
  refine ⟨h.started, ⟨rs ++ [record], ?_, ?_, ?_, ?_⟩, h.known⟩
  · rw [hmore, hrecords, List.append_assoc]
  · exact List.append_ne_nil_of_left_ne_nil hne _
  · refine hreadable.concat (fun hnil ↦ absurd hnil hne) fun state frames hshows f hf ↦ ?_
    exact hscripted _ (h.known (htrace state frames hshows f hf))
  · exact fun hash hmem ↦ (hscripted hash hmem).append _

end Begun

section Operations

variable (hsink : sink.Lenient records)
include hsink

/-- A record of an invocation that has begun is kept, or it is dispensable. -/
theorem Begun.write {r : TraceRecorder} {t : τ} (h : Begun records before settings hashes (r, t))
    (record : Record) (htrace : ∀ state frames, record = .trace state frames →
      ∀ f ∈ frames, f.scriptHash ∈ hashes) :
    Ends (onSecond (sink.write record)) (r, t)
      (fun _ next ↦ Begun records before settings hashes next ∧
        records next.2 = records t ++ [record])
      fun _ next ↦ Begun records before settings hashes next ∧
        record.dispensable (records t) = true := by
  refine .onSecond ((hsink.write record t).mono ?_ ?_)
  · exact fun _ t' hmore ↦ ⟨h.concat hmore htrace, hmore⟩
  · exact fun _ t' ⟨hsame, hdispensable⟩ ↦ ⟨h.of_records_eq hsame, hdispensable⟩

/-- A record that a trace cannot do without is kept. -/
theorem Begun.keep (h : Begun records before settings hashes host) (record : Record)
    (hshows : record.shown? = none) (hneeded : ∀ kept, record.dispensable kept = false)
    {Q : TracerError → TraceRecorder × τ → Prop} :
    Ends (onSecond (sink.write record)) host (fun _ ↦ Begun records before settings hashes) Q := by
  obtain ⟨r, t⟩ := host
  refine .onSecond ((hsink.write record t).mono ?_ ?_)
  · refine fun _ t' hmore ↦ h.concat hmore fun state frames htrace ↦ ?_
    rw [htrace] at hshows
    cases hshows
  · intro _ t' hrejected
    obtain ⟨-, hdispensable⟩ := hrejected
    rw [hneeded] at hdispensable
    cases hdispensable

/-- A block is kept, or the machine is running. -/
theorem Begun.emitTrace {view : View}
    (h : Begun records before settings (view.frames.map (·.scriptHash)) host) :
    Ends (emitTrace sink view) host
      (fun _ ↦ Begun records before settings (view.frames.map (·.scriptHash)))
      fun _ next ↦ Begun records before settings (view.frames.map (·.scriptHash)) next ∧
        view.state = .none := by
  obtain ⟨r, t⟩ := host
  have hframes : ∀ state frames, Record.trace view.state (view.frames.map Context.toRecord) =
      .trace state frames → ∀ f ∈ frames, f.scriptHash ∈ view.frames.map (·.scriptHash) := by
    intro state frames hshows f hf
    obtain ⟨-, rfl⟩ := Record.trace.inj hshows
    obtain ⟨c, hc, rfl⟩ := List.mem_map.mp hf
    exact List.mem_map_of_mem hc
  -- The storage records that follow are dispensable only if the state before them is.
  let shown (next : TraceRecorder × τ) : Prop :=
    Begun records before settings (view.frames.map (·.scriptHash)) next ∧
      lastShown (records next.2) = some view.state
  have hstorage (hash : Hash) (entries : List StorageEntry) (next : TraceRecorder × τ)
      (hshown : shown next) : Ends (onSecond (sink.storages hash entries)) next (fun _ ↦ shown)
        fun _ next ↦ Begun records before settings (view.frames.map (·.scriptHash)) next ∧
          view.state = .none := by
    obtain ⟨hbegun, hlast⟩ := hshown
    refine (hbegun.write hsink (.storage hash entries) fun _ _ hshows ↦ nomatch hshows).mono ?_ ?_
    · intro _ next' hnext
      obtain ⟨hbegun', hmore⟩ := hnext
      refine ⟨hbegun', ?_⟩
      rw [hmore, lastShown_concat]
      exact hlast
    · intro _ next' hrejected
      obtain ⟨hbegun', hdispensable⟩ := hrejected
      have hnone : lastShown (records next.2) = some .none := of_decide_eq_true hdispensable
      exact ⟨hbegun', Option.some.inj (hlast.symm.trans hnone)⟩
  refine .get_bind (Ends.bind (P := fun _ ↦ shown) ((h.write hsink _ hframes).mono ?_ ?_) ?_)
  · intro _ next hnext
    obtain ⟨hbegun, hmore⟩ := hnext
    refine ⟨hbegun, ?_⟩
    rw [hmore, lastShown_concat]
    rfl
  · intro _ next hrejected
    obtain ⟨hbegun, hdispensable⟩ := hrejected
    exact ⟨hbegun, of_decide_eq_true hdispensable⟩
  · intro _ next hshown
    split
    · refine (Ends.forM (P := shown) (fun hash next hshown ↦ ?_) _ hshown).mono
        (fun _ _ hend ↦ hend.1) fun _ _ hfailed ↦ hfailed
      split
      · exact .pure hshown
      · exact hstorage _ _ next hshown
    · exact .pure hshown.1

/-- A script is announced without fail. -/
theorem Begun.announce (h : Begun records before settings hashes host) (c : Context)
    {Q : TracerError → TraceRecorder × τ → Prop} :
    Ends (announce sink c) host
      (fun _ ↦ Begun records before settings (c.scriptHash :: hashes)) Q := by
  obtain ⟨r, t⟩ := host
  refine .get_bind ?_
  dsimp only
  split
  · rename_i hknown
    have hmem : c.scriptHash ∈ r.announced := by simpa using hknown
    exact .pure ⟨h.started, h.kept, List.cons_subset.mpr ⟨hmem, h.known⟩⟩
  · refine .modify_bind (.onSecond ((hsink.write _ t).mono ?_ ?_))
    · intro _ t' hmore
      obtain ⟨rs, hrecords, hne, hreadable, hscripted⟩ := h.kept
      refine ⟨h.started, ⟨rs ++ [.script c.scriptHash c.code], ?_, by simp, ?_, ?_⟩, ?_⟩
      · rw [hmore, hrecords, List.append_assoc]
      · exact hreadable.concat (fun hnil ↦ absurd hnil hne) fun _ _ hshows ↦ nomatch hshows
      · intro hash hmem
        rcases List.mem_cons.mp hmem with rfl | hold
        · exact ⟨c.code, List.mem_append_right _ (List.mem_singleton_self _)⟩
        · exact (hscripted hash hold).append _
      · exact List.cons_subset_cons _ h.known
    · intro _ t' hrejected
      obtain ⟨-, hdispensable⟩ := hrejected
      cases hdispensable

theorem Begun.announceAll (h : Begun records before settings hashes host) (frames : List Context)
    {Q : TracerError → TraceRecorder × τ → Prop} :
    Ends (frames.forM (TraceRecorder.announce sink)) host
      (fun _ ↦ Begun records before settings (frames.map (·.scriptHash) ++ hashes)) Q := by
  induction frames generalizing hashes host with
  | nil => exact .pure h
  | cons c rest ih =>
    refine (h.announce hsink c).bind fun _ next hnext ↦ (ih hnext).mono ?_ fun _ _ hfailed ↦ hfailed
    refine fun _ next' hnext' ↦ hnext'.mono ?_
    rw [List.map_cons, List.cons_append]
    exact List.perm_middle.symm.subset

/-- An invocation begins without fail, up to the block that shows a running machine. -/
theorem ends_start {view : View} (hrests : host.1.Rests) (hrecords : records host.2 = before) :
    Ends (start sink view) host
      (fun _ ↦ Begun records before view.settings (view.frames.map (·.scriptHash)))
      fun _ next ↦ Begun records before view.settings (view.frames.map (·.scriptHash)) next ∧
        view.state = .none := by
  obtain ⟨⟨session, names, config, started, announced⟩, t⟩ := host
  obtain ⟨rfl, rfl⟩ : started = false ∧ announced = [] := ⟨hrests.started, hrests.announced⟩
  have hsettings : Ends (onSecond (sink.settings view.settings))
      ((⟨session, names, config, true, []⟩ : TraceRecorder), t)
      (fun _ ↦ Begun records before view.settings [])
      fun _ next ↦ Begun records before view.settings (view.frames.map (·.scriptHash)) next ∧
        view.state = .none := by
    refine .onSecond ((hsink.write _ t).mono ?_ ?_)
    · intro _ t' hmore
      refine ⟨rfl, ⟨_, hrecords ▸ hmore, List.cons_ne_nil _ _, ?_, ?_⟩, List.nil_subset _⟩
      · exact (Readable.nil view.settings).concat (fun _ ↦ rfl) fun _ _ hshows ↦ nomatch hshows
      · exact fun _ hmem ↦ absurd hmem List.not_mem_nil
    · intro _ t' hrejected
      obtain ⟨-, hdispensable⟩ := hrejected
      cases hdispensable
  refine .modify_bind (hsettings.bind fun _ _ hbegun ↦ ?_)
  refine (hbegun.announceAll hsink view.frames.reverse).bind fun _ _ hannounced ↦ ?_
  refine Begun.emitTrace hsink (hannounced.mono ?_)
  rw [List.append_nil, List.map_reverse]
  exact List.subset_reverse.mpr (List.Subset.refl _)

theorem Resumes.ensureStarted {view : View}
    (h : Resumes records before view.settings (view.frames.map (·.scriptHash)) host) :
    Ends (ensureStarted sink view) host
      (fun _ ↦ Begun records before view.settings (view.frames.map (·.scriptHash)))
      fun _ next ↦ Begun records before view.settings (view.frames.map (·.scriptHash)) next ∧
        view.state = .none := by
  refine .get_bind ?_
  rcases h with ⟨hrests, hrecords⟩ | hbegun
  · simp only [hrests.started]
    exact ends_start hsink hrests hrecords
  · simp only [hbegun.started]
    exact .pure hbegun

theorem Begun.named (h : Begun records before settings hashes host) (view : View) (hash : Hash)
    (record : Record) (hshows : record.shown? = none) :
    Ends (resolveName view hash >>= fun name ↦
        onSecond (modify (sink.nameContract name) >>= fun _ ↦ sink.write record)) host
      (fun _ ↦ Begun records before settings hashes)
      fun _ ↦ Begun records before settings hashes := by
  have hresolved : Ends (resolveName (τ := τ) view hash) host
      (fun _ ↦ Begun records before settings hashes)
      fun _ ↦ Begun records before settings hashes := by
    obtain ⟨r, t⟩ := host
    exact .get_bind (.modify_bind (.pure (h.rename _)))
  refine hresolved.bind fun name next hnext ↦ ?_
  obtain ⟨r, t⟩ := next
  have hnamed : Begun records before settings hashes (r, sink.nameContract name t) :=
    hnext.of_records_eq (hsink.nameContract name t)
  have hwritten := hnamed.write hsink record fun state frames htrace ↦ by
    rw [htrace] at hshows
    cases hshows
  exact hwritten.mono (fun _ _ hkept ↦ hkept.1) fun _ _ hrejected ↦ hrejected.1

/-- Lines and events may be rejected. -/
theorem Begun.logged (h : Begun records before settings hashes host) (view : View)
    (event : LogEvent) : Ends (logged sink view event) host
      (fun _ ↦ Begun records before settings hashes)
      fun _ ↦ Begun records before settings hashes := by
  refine .get_bind ?_
  dsimp only
  split
  · exact h.named hsink view _ _ rfl
  · exact .pure h

theorem Begun.notified (h : Begun records before settings hashes host) (view : View)
    (event : NotifyEvent) : Ends (notified sink view event) host
      (fun _ ↦ Begun records before settings hashes)
      fun _ ↦ Begun records before settings hashes := by
  refine .get_bind ?_
  dsimp only
  split
  · exact h.named hsink view _ _ rfl
  · exact .pure h

/-- After an instruction the invocation goes on, or it has ended without fail. -/
theorem Begun.after {view : View}
    (h : Begun records before settings (view.frames.map (·.scriptHash)) host) :
    Ends (after sink view) host
      (fun _ next ↦ if view.state = .halt then Ended records before settings next
        else Begun records before settings (view.frames.map (·.scriptHash)) next)
      fun _ next ↦ Begun records before settings (view.frames.map (·.scriptHash)) next ∧
        view.state = .none := by
  refine (h.emitTrace hsink).bind fun _ next hshown ↦ ?_
  by_cases hhalt : view.state = .halt
  · simp only [if_pos hhalt]
    exact (hshown.keep hsink (.results _ _ _) rfl fun _ ↦ rfl).bind fun _ _ hlast ↦ hlast.ended
  · simp only [if_neg hhalt]
    exact .pure hshown

/-- Assumes: a view of a machine that has stopped. A fault ends the invocation without fail. -/
theorem Resumes.faulted {view : View}
    (h : Resumes records before view.settings (view.frames.map (·.scriptHash)) host)
    (hstopped : view.state ≠ .none) (exception : String)
    {Q : TracerError → TraceRecorder × τ → Prop} :
    Ends (faulted sink view exception) host (fun _ ↦ Ended records before view.settings) Q := by
  refine ((h.ensureStarted hsink).mono_error ?_).bind fun _ next hbegun ↦ ?_
  · exact fun _ _ hfailed ↦ absurd hfailed.2 hstopped
  refine (hbegun.keep hsink (.fault exception) rfl fun _ ↦ rfl).bind fun _ next hfault ↦ ?_
  refine ((hfault.emitTrace hsink).mono_error ?_).bind fun _ next hlast ↦ hlast.ended
  exact fun _ _ hfailed ↦ absurd hfailed.2 hstopped

/-- What a completed operation reports may be rejected unless it pushes a frame. -/
theorem Begun.events {m m' : StackMachine} {events : List Event}
    (h : Begun records before settings (m.frames.map (·.scriptHash)) host)
    (heffect : Effect m events m') (view : View) :
    Ends (events.forM ((observer sink).notice view)) host
      (fun _ ↦ Begun records before settings (m'.frames.map (·.scriptHash)))
      fun _ next ↦ Begun records before settings (m'.frames.map (·.scriptHash)) next ∧
        m'.state = m.state := by
  have hsame {m₁ : StackMachine} (hscripts : SameScripts m m₁) :
      Begun records before settings (m₁.frames.map (·.scriptHash)) host := by
    rwa [hscripts.hashes_eq]
  cases heffect with
  | silent hscripts => exact .pure (hsame hscripts)
  | logged hscripts message =>
    refine .single (((hsame hscripts).logged hsink view _).mono_error ?_)
    exact fun _ _ hbegun ↦ ⟨hbegun, hscripts.state_eq⟩
  | notified hscripts eventName state =>
    refine .single (((hsame hscripts).notified hsink view _).mono_error ?_)
    exact fun _ _ hbegun ↦ ⟨hbegun, hscripts.state_eq⟩
  | @called m₁ hscripts _ contract _ arguments =>
    refine .single (.get_bind ?_)
    simp only [h.started]
    exact (hsame hscripts).announce hsink _
  | @returned m₁ hscripts f caller rest hframes =>
    refine .single (.pure ((hsame hscripts).mono ?_))
    rw [hframes]
    exact List.subset_cons_self _ _
  | finished => exact .single (.pure (h.mono (List.nil_subset _)))

end Operations

/-! ### Machines under trace -/

/-- How far the trace of an invocation has come. An invocation that has begun goes on while the
machine runs. -/
inductive Stage (records : τ → List Record) (before : List Record) (settings : Settings)
    (m : StackMachine) (host : TraceRecorder × τ) : Prop
  | idle (hrests : host.1.Rests) (hrecords : records host.2 = before)
  | running (hrunning : m.state = .none) (hframes : m.frames ≠ [])
    (hbegun : Begun records before settings (m.frames.map (·.scriptHash)) host)
  | ended (hstopped : m.state ≠ .none) (hended : Ended records before settings host)

/-- A machine with its settings, and the trace of its invocation. -/
structure Traced (records : τ → List Record) (before : List Record) (settings : Settings)
    (m : StackMachine) (host : TraceRecorder × τ) : Prop where
  settings_eq : m.settings = settings
  stage : Stage records before settings m host

theorem Traced.resumes {m : StackMachine} (h : Traced records before settings m host)
    (hrunning : m.state = .none) :
    Resumes records before settings (m.frames.map (·.scriptHash)) host := by
  cases h.stage with
  | idle hrests hrecords => exact .inl ⟨hrests, hrecords⟩
  | running _ _ hbegun => exact .inr hbegun
  | ended hstopped _ => exact absurd hrunning hstopped

theorem frames_ne_nil_of_next {m : StackMachine} {next : Except ScriptFault Instruction}
    (hnext : m.next? = some next) : m.frames ≠ [] := by
  intro hnil
  rw [next?, hnil] at hnext
  cases hnext

section Machines

variable (hsink : sink.Lenient records)
include hsink

/-- The invocation of a machine that stops with an exception ends. -/
theorem Resumes.raise {m : StackMachine}
    (h : Resumes records before m.settings (m.frames.map (·.scriptHash)) host)
    (fault : ScriptFault) :
    Ends ([Event.fault fault.message].forM ((observer sink).notice (m.raise fault).1.view)) host
      (fun _ ↦ Traced records before m.settings (m.raise fault).1)
      fun _ ↦ Traced records before m.settings (m.raise fault).1 := by
  rw [← hashes_view] at h
  have hstopped : (m.raise fault).1.view.state ≠ .none := VmState.noConfusion
  have hfaulted : Ends (TraceRecorder.faulted sink (m.raise fault).1.view fault.message) host
      (fun _ ↦ Ended records before m.settings)
      fun _ ↦ Traced records before m.settings (m.raise fault).1 :=
    Resumes.faulted hsink h hstopped _
  refine .single (hfaulted.mono ?_ fun _ _ htraced ↦ htraced)
  exact fun _ _ hended ↦ ⟨rfl, .ended VmState.noConfusion hended⟩

/-- Before an instruction the invocation begins, unless it has begun. -/
theorem Resumes.preExecute {m : StackMachine} {i : Instruction}
    (h : Resumes records before m.settings (m.frames.map (·.scriptHash)) host)
    (hnext : m.next? = some (.ok i)) :
    Ends ([Event.preExecute i].forM ((observer sink).notice m.view)) host
      (fun _ ↦ Begun records before m.settings (m.frames.map (·.scriptHash)))
      fun _ ↦ Traced records before m.settings m := by
  have hframes := frames_ne_nil_of_next hnext
  rw [← hashes_view] at h ⊢
  refine .single ((h.ensureStarted hsink).mono_error ?_)
  intro _ next hfailed
  obtain ⟨hbegun, hrunning⟩ := hfailed
  rw [hashes_view] at hbegun
  exact ⟨rfl, .running hrunning hframes hbegun⟩

/-- After an instruction the invocation goes on with the machine, or ends with it. -/
theorem Begun.completed {overrides : Overrides} {m m' : StackMachine} {i : Instruction}
    {events : List Event} (h : Begun records before m.settings (m.frames.map (·.scriptHash)) host)
    (hcompletes : m.Completes overrides i events m') :
    Ends ((events ++ [Event.postExecute i]).forM ((observer sink).notice m'.view)) host
      (fun _ ↦ Traced records before m.settings m')
      fun _ ↦ Traced records before m.settings m' := by
  have hsettings : m'.settings = m.settings :=
    settings_eq_of_setting_eq hcompletes.effect.sameSession.setting_eq
  have hgoes {next : TraceRecorder × τ} (hrunning : m'.state = .none)
      (hbegun : Begun records before m.settings (m'.frames.map (·.scriptHash)) next) :
      Traced records before m.settings m' next :=
    ⟨hsettings, .running hrunning (hcompletes.frames_ne_nil hrunning) hbegun⟩
  have hrunning : (m.charge i).state = .none := hcompletes.running
  rw [← hashes_charge i] at h
  have hevents : Ends (events.forM ((observer sink).notice m'.view)) host
      (fun _ ↦ Begun records before m.settings (m'.frames.map (·.scriptHash)))
      fun _ ↦ Traced records before m.settings m' :=
    (h.events hsink hcompletes.effect m'.view).mono_error fun _ _ hfailed ↦
      hgoes (hfailed.2.trans hrunning) hfailed.1
  rw [forM_append]
  refine hevents.bind fun _ next hbegun ↦ ?_
  rw [← hashes_view] at hbegun
  refine .single ((hbegun.after hsink).mono ?_ ?_)
  · intro _ last hlast
    change if m'.state = .halt then _ else _ at hlast
    rcases hcompletes.effect.state_eq_or with hstate | ⟨hhalt, -⟩
    · rw [hstate, hrunning, if_neg VmState.noConfusion, hashes_view] at hlast
      exact hgoes (hstate.trans hrunning) hlast
    · rw [if_pos hhalt] at hlast
      refine ⟨hsettings, .ended ?_ hlast⟩
      rw [hhalt]
      exact VmState.noConfusion
  · intro _ last hfailed
    rw [hashes_view] at hfailed
    exact hgoes hfailed.2 hfailed.1

/-- Wherever a record is rejected in a turn, the next call can go on with the invocation. -/
theorem Traced.bears_turn {overrides : Overrides} {m : StackMachine} {t : Turn StackMachine}
    (h : Traced records before settings m host) (hturn : turn overrides m = some t) :
    (observer sink).Bears (Traced records before settings) m t host := by
  obtain rfl := h.settings_eq
  have hresumes := h.resumes (running_of_turn hturn)
  cases outcome_of_turn hturn with
  | empty hrunning hframes =>
    refine .pure (.pure ⟨rfl, ?_⟩)
    cases h.stage with
    | idle hrests hrecords => exact .idle hrests hrecords
    | running _ hne _ => exact absurd hframes hne
    | ended hstopped _ => exact absurd hrunning hstopped
  | @undecodable fault hundecodable => exact .pure (hresumes.raise hsink fault)
  | @completed i events m' hcompletes =>
    have hbefore := hresumes.preExecute hsink hcompletes.next
    refine hbefore.mono (fun _ _ hbegun ↦ ?_) fun _ _ htraced ↦ htraced
    exact hbegun.completed hsink hcompletes
  | @faulted i fault m' hfaults =>
    have hbefore := hresumes.preExecute hsink hfaults.next
    have hscripts := sameScripts_of_operate hfaults.operate
    have hsettings : m'.settings = m.settings :=
      settings_eq_of_setting_eq hscripts.sameSession.setting_eq
    refine hbefore.mono (fun _ host' hbegun ↦ ?_) fun _ _ htraced ↦ htraced
    rw [← hashes_charge i, ← hscripts.hashes_eq, ← hsettings] at hbegun
    rw [← hsettings]
    exact Resumes.raise hsink (.inr hbegun) fault

/-- Assumes: a machine that runs if an invocation has begun. A script is loaded into the invocation,
or before it. -/
theorem Traced.bears_load {m : StackMachine} (h : Traced records before settings m host)
    (hidle : m.state ≠ .none → host.1.Rests ∧ records host.2 = before) (code : Bytes) :
    (observer sink).Bears (Traced records before settings) m (m.load code) host := by
  obtain rfl := h.settings_eq
  have hsettings := settings_eq_of_setting_eq (setting_load code m)
  have hcases : host.1.Rests ∧ records host.2 = before ∨ m.state = .none ∧
      Begun records before m.settings (m.frames.map (·.scriptHash)) host := by
    cases h.stage with
    | idle hrests hrecords => exact .inl ⟨hrests, hrecords⟩
    | running hrunning _ hbegun => exact .inr ⟨hrunning, hbegun⟩
    | ended hstopped _ => exact .inl (hidle hstopped)
  refine .pure (.single (.get_bind ?_))
  rcases hcases with ⟨hrests, hrecords⟩ | ⟨hrunning, hbegun⟩
  · simp only [hrests.started]
    exact .pure ⟨hsettings, .idle hrests hrecords⟩
  · simp only [hbegun.started]
    refine (hbegun.announce hsink _).mono (fun _ next hnext ↦ ⟨hsettings, ?_⟩) fun _ _ h ↦ h
    rw [load, reset_of_running hrunning]
    exact .running hrunning (List.cons_ne_nil _ _) hnext

end Machines

/-! ### Hosts that carry on -/

/-- Make calls one after the other, whatever errors they meet. The answer is the records that the
sink has kept, by invocation. An invocation goes on from one call to the next until the machine has
stopped, and the last one may be going on still. The records of the first one come after `start`
others. -/
def carryOn (records : τ → List Record) :
    Nat → List Call → Engine.Act StackMachine TraceRecorder τ (List (List Record))
  | start, [] => do
    let (_, t) ← get
    return [(records t).drop start]
  | start, call :: rest => do
    let _ ← attempt (Engine.make call)
    let (e, t) ← get
    if e.session.machine.state = .none then carryOn records start rest
    else
      let invocations ← carryOn records (records t).length rest
      return (records t).drop start :: invocations

theorem Traced.kept {m : StackMachine} (h : Traced records before settings m host) :
    ∃ rs, records host.2 = before ++ rs ∧ Readable settings rs := by
  cases h.stage with
  | idle hrests hrecords => exact ⟨[], by rw [hrecords, List.append_nil], .nil settings⟩
  | running _ _ hbegun =>
    obtain ⟨rs, hrecords, -, hreadable, -⟩ := hbegun.kept
    exact ⟨rs, hrecords, hreadable⟩
  | ended _ hended => exact hended.kept

/-- Whoever follows a machine that has stopped is in no invocation. -/
theorem Traced.rests {m : StackMachine} (h : Traced records before settings m host)
    (hstopped : m.state ≠ .none) : host.1.Rests := by
  cases h.stage with
  | idle hrests _ => exact hrests
  | running hrunning _ _ => exact absurd hrunning hstopped
  | ended _ hended => exact hended.rests

section Hosts

variable (hsink : sink.Lenient records)
include hsink

theorem succeeds_carryOn {overrides : Overrides} {e : TraceEngine StackMachine τ} {t : τ}
    (he : e.Watches (observer sink) overrides)
    (htraced : Traced records before settings e.session.machine (e.recorder, t))
    (hidle : e.session.machine.state ≠ .none → e.recorder.Rests ∧ records t = before)
    (calls : List Call) :
    Succeeds (carryOn records before.length calls) (e, t) fun invocations next ↦
      records next.2 = before ++ invocations.flatten ∧
      ∀ rs ∈ invocations, Readable settings rs := by
  induction calls generalizing before e t with
  | nil =>
    obtain ⟨rs, hrecords, hreadable⟩ := htraced.kept
    change records t = before ++ rs at hrecords
    refine .get_bind (.pure ?_)
    rw [hrecords, List.drop_left, List.flatten_singleton]
    exact ⟨rfl, fun us hus ↦ List.mem_singleton.mp hus ▸ hreadable⟩
  | cons call rest ih =>
    have hcall := he.make (htraced.bears_load hsink hidle)
      (fun _ _ _ hnext hturn ↦ hnext.bears_turn hsink hturn) htraced call
    refine hcall.succeeds_attempt.bind ?_
    intro _ next hnext
    obtain ⟨e', t'⟩ := next
    obtain ⟨he', htraced'⟩ := hnext
    refine .get_bind ?_
    by_cases hrunning : e'.session.machine.state = .none
    · simp only [if_pos hrunning]
      exact ih he' htraced' fun hstopped ↦ absurd hrunning hstopped
    · simp only [if_neg hrunning]
      -- The machine has stopped, so the next invocation comes after all records so far.
      have hrests := htraced'.rests hrunning
      obtain ⟨rs, hrecords, hreadable⟩ := htraced'.kept
      change records t' = before ++ rs at hrecords
      have hnext : Traced records (records t') settings e'.session.machine (e'.recorder, t') :=
        ⟨htraced'.settings_eq, .idle hrests rfl⟩
      refine (ih he' hnext fun _ ↦ ⟨hrests, rfl⟩).bind ?_
      intro invocations next hnext
      obtain ⟨hmore, hall⟩ := hnext
      refine .pure ⟨?_, ?_⟩
      · rw [hmore, hrecords, List.drop_left, List.flatten_cons, List.append_assoc]
      · rw [hrecords, List.drop_left]
        exact List.forall_mem_cons.mpr ⟨hreadable, hall⟩

/-- Assumes: a sink that rejects dispensable records only, and a session without observers. A host
carries on with the engine over such a session after each rejected record. All records belong to
invocations, and all invocations can be read. -/
theorem carryOn_readable (config : TraceConfig) (names : NameCache)
    (checker : Option WitnessChecker) {session : Session StackMachine τ}
    (hobservers : session.observers = []) (calls : List Call) (t : τ) :
    let engine := TraceEngine.start sink config names checker session
    ∃ invocations next,
      carryOn records (records t).length calls (engine, t) = .ok invocations next ∧
      records next.2 = records t ++ invocations.flatten ∧
      ∀ rs ∈ invocations, Readable session.machine.settings rs := by
  intro engine
  have hmachine : engine.session.machine = session.machine := Engine.machine_start _ _ _ _
  have htraced : Traced records (records t) session.machine.settings engine.session.machine
      (engine.recorder, t) := ⟨by rw [hmachine], .idle ⟨rfl, rfl⟩ rfl⟩
  exact succeeds_carryOn hsink (Engine.watches_start _ _ checker hobservers) htraced
    (fun _ ↦ ⟨⟨rfl, rfl⟩, rfl⟩) calls

end Hosts

/-- Two instructions fail twice, before the first one and after it, as no state of a running machine
is kept. The host carries on until the machine has halted. -/
theorem carryOn_readable_of_sparing :
    let session : Session StackMachine MemorySink :=
      .ofMachine (StackMachine.create ⟨1⟩ .empty .default [])
    let engine := TraceEngine.start MemorySink.sparing .default .empty none session
    let calls := [Call.load [Opcode.pushTrue], .execute 9, .execute 9, .execute 9]
    MemorySink.sparing.Lenient MemorySink.records ∧ session.observers = [] ∧
      ∃ invocations next, carryOn MemorySink.records 0 calls (engine, .empty) =
          .ok invocations next ∧
        next.2.records = invocations.flatten ∧
        (∀ rs ∈ invocations, Readable .default rs) ∧
        invocations.map (·.map Record.kind) = [[.settings, .script, .trace, .results], []] := by
  intro session engine calls
  have hobservers : session.observers = [] := rfl
  obtain ⟨invocations, next, hrun, hrecords, hreadable⟩ :=
    carryOn_readable MemorySink.lenient_sparing .default .empty none hobservers calls .empty
  have hkinds : ∃ invocations' next', carryOn MemorySink.records 0 calls (engine, .empty) =
      .ok invocations' next' ∧
        invocations'.map (·.map Record.kind) = [[.settings, .script, .trace, .results], []] :=
    ⟨_, _, rfl, rfl⟩
  obtain ⟨invocations', next', hrun', hkinds⟩ := hkinds
  obtain ⟨rfl, rfl⟩ := EStateM.Result.ok.inj (hrun.symm.trans hrun')
  exact ⟨MemorySink.lenient_sparing, hobservers, invocations, next, hrun, hrecords, hreadable,
    hkinds⟩

/-- The settings are rejected, and the execution fails. The next one goes on without them, up to the
results. -/
theorem carryOn_of_rejected_settings :
    let session : Session StackMachine FaultySink :=
      .ofMachine (StackMachine.create ⟨1⟩ .empty .default [])
    let engine := TraceEngine.start FaultySink.sink .default .empty none session
    let calls := [Call.load [0x11, Opcode.ret], .execute 9, .execute 9]
    ∃ rs next, carryOn FaultySink.records 0 calls
        (engine, ⟨[], 0, some (0, .writeZero), .unlimited⟩) = .ok [rs, []] next ∧
      rs.map Record.kind = [.trace, .trace, .results] ∧ ¬ Readable .default rs := by
  intro session engine calls
  refine ⟨_, _, rfl, rfl, fun hreadable ↦ ?_⟩
  exact nomatch hreadable.begins _ rfl

end TraceRecorder

end ScriptTrace
