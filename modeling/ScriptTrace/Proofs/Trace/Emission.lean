import Mathlib.Data.List.Basic
import ScriptTrace.Proofs.Act
import ScriptTrace.Trace.Engine

/-!
What a recorder emits at each event. `TraceRecorder.block`, `TraceRecorder.scripts` and
`TraceRecorder.opening` are the groups of records a trace is made of, and each lemma below says, of
a sink that keeps every record, which groups an event brings and what the recorder knows after it.
-/

set_option autoImplicit false
set_option relaxedAutoImplicit false

namespace ScriptTrace

/-- A sink accepts every record, and the list of those it accepted can be read off its state. -/
structure Sink.Keeps {τ : Type} (sink : Sink τ) (records : τ → List Record) : Prop where
  write : ∀ record t, ∃ t', sink.write record t = .ok () t' ∧ records t' = records t ++ [record]
  nameContract : ∀ name t, records (sink.nameContract name t) = records t

theorem MemorySink.keeps : MemorySink.sink.Keeps MemorySink.records where
  write _ _ := ⟨_, rfl, rfl⟩
  nameContract _ _ := rfl

namespace TraceRecorder

/-! ### Groups of records -/

/-- The storage of the contracts among some hashes, each hash taken once, where it occurs first. -/
def storages (snapshot : Snapshot) (hashes : List Hash) : List Record :=
  hashes.eraseDups.filterMap fun hash ↦
    (snapshot.contract? hash).map fun c ↦ .storage c.hash (snapshot.storageOf c.id)

/-- A trace record and the storage records that belong to it. -/
def block (config : TraceConfig) (view : View) : List Record :=
  .trace view.state (view.frames.map Context.toRecord) ::
    if config.captureStorage then storages view.snapshot (view.frames.map (·.scriptHash)) else []

/-- The scripts of frames, each hash with the code of the first frame that has it. -/
def scripts (frames : List Context) : List Record :=
  (frames.eraseDupsBy fun a b ↦ a.scriptHash == b.scriptHash).map fun c ↦
    .script c.scriptHash c.code

/-- What every invocation begins with. The call stack is announced from the outermost frame up. -/
def opening (config : TraceConfig) (view : View) : List Record :=
  .settings view.settings.network view.settings.addressVersion ::
    scripts view.frames.reverse ++ block config view

/-- A block is a Trace record and nothing but storage. -/
theorem exists_block_eq (config : TraceConfig) (view : View) : ∃ rest,
    block config view = .trace view.state (view.frames.map Context.toRecord) :: rest ∧
      ∀ r ∈ rest, r.kind = .storage := by
  refine ⟨_, rfl, fun r hr ↦ ?_⟩
  split at hr
  · obtain ⟨hash, -, hsome⟩ := List.mem_filterMap.mp hr
    obtain ⟨c, -, rfl⟩ := Option.map_eq_some_iff.mp hsome
    exact rfl
  · cases hr

theorem kind_of_mem_scripts {frames : List Context} {r : Record} (hr : r ∈ scripts frames) :
    r.kind = .script := by
  obtain ⟨c, -, rfl⟩ := List.mem_map.mp hr
  exact rfl

theorem foldl_distinct (frames : List Context) (seen : List Hash) :
    frames.foldl (fun seen f ↦ if seen.contains f.scriptHash then seen
        else seen ++ [f.scriptHash]) seen =
      seen ++ ((frames.map (·.scriptHash)).filter (· ∉ seen)).eraseDups := by
  induction frames generalizing seen with
  | nil => simp
  | cons f rest ih =>
    rw [List.foldl_cons, List.map_cons]
    by_cases hseen : f.scriptHash ∈ seen
    · rw [if_pos (by simpa using hseen), ih, List.filter_cons_of_neg (by simpa using hseen)]
    · rw [if_neg (by simpa using hseen), ih, List.filter_cons_of_pos (by simpa using hseen),
        List.eraseDups_cons, List.filter_filter, List.append_assoc, List.singleton_append]
      have hfilter (h : Hash) : (decide (h ∉ seen ++ [f.scriptHash])) =
          (!h == f.scriptHash && decide (h ∉ seen)) := by
        rw [Bool.eq_iff_iff]
        simp [and_comm]
      simp only [hfilter]

theorem distinctHashes_eq (frames : List Context) :
    distinctHashes frames = (frames.map (·.scriptHash)).eraseDups := by
  have h := foldl_distinct frames []
  rwa [List.nil_append, List.filter_eq_self.mpr fun h _ ↦ by simp] at h

/-! ### Operations that emit -/

variable {τ : Type} {sink : Sink τ} {records : τ → List Record}

/-- An operation takes a recorder from `r` to `r'`, and the sink keeps `rs` in addition. -/
def Emits (records : τ → List Record) (x : Recording τ Unit) (r r' : TraceRecorder)
    (rs : List Record) : Prop :=
  ∀ t, Succeeds x (r, t) fun _ next ↦ next.1 = r' ∧ records next.2 = records t ++ rs

namespace Emits

variable {x : Recording τ Unit} {r r₁ r₂ : TraceRecorder} {rs us : List Record}

theorem pure (r : TraceRecorder) : Emits records (pure ()) r r [] :=
  fun _ ↦ .pure ⟨rfl, (List.append_nil _).symm⟩

theorem bind (hx : Emits records x r r₁ rs) {f : Unit → Recording τ Unit}
    (hf : Emits records (f ()) r₁ r₂ us) : Emits records (x >>= f) r r₂ (rs ++ us) := by
  intro t
  apply (hx t).bind
  intro _ next hnext
  obtain ⟨_, t₁⟩ := next
  obtain ⟨rfl, hrecords⟩ := hnext
  apply (hf t₁).mono
  intro _ next hnext
  obtain ⟨_, t₂⟩ := next
  obtain ⟨rfl, hmore⟩ := hnext
  exact ⟨rfl, by rw [hmore, hrecords, List.append_assoc]⟩

/-- Assumes: a state of the sink. An operation emits one list of records only. -/
theorem unique (t : τ) (h₁ : Emits records x r r₁ rs) (h₂ : Emits records x r r₂ us) :
    r₁ = r₂ ∧ rs = us := by
  obtain ⟨_, next₁, hrun₁, rfl, hrecords₁⟩ := h₁ t
  obtain ⟨_, next₂, hrun₂, rfl, hrecords₂⟩ := h₂ t
  obtain ⟨-, rfl⟩ := EStateM.Result.ok.inj (hrun₁.symm.trans hrun₂)
  exact ⟨rfl, List.append_cancel_left (hrecords₁.symm.trans hrecords₂)⟩

theorem get_bind {f : TraceRecorder × τ → Recording τ Unit}
    (hf : ∀ t, Emits records (f (r, t)) r r₁ rs) : Emits records (get >>= f) r r₁ rs :=
  fun t ↦ .get_bind (hf t t)

theorem update (f : TraceRecorder → TraceRecorder) (r : TraceRecorder) :
    Emits records (modify fun (r, t) ↦ (f r, t)) r (f r) [] :=
  fun _ ↦ .modify ⟨rfl, (List.append_nil _).symm⟩

theorem write (hsink : sink.Keeps records) (record : Record) (r : TraceRecorder) :
    Emits records (onSecond (sink.write record)) r r [record] := by
  intro t
  obtain ⟨t', hwrite, hrecords⟩ := hsink.write record t
  exact .onSecond ⟨(), t', hwrite, rfl, hrecords⟩

/-- Writing under the name of a contract. -/
theorem named (hsink : sink.Keeps records) (name : String) (record : Record)
    (r : TraceRecorder) :
    Emits records (onSecond (modify (sink.nameContract name) >>= fun _ ↦ sink.write record)) r r
      [record] := by
  intro t
  obtain ⟨t', hwrite, hrecords⟩ := hsink.write record (sink.nameContract name t)
  rw [hsink.nameContract] at hrecords
  refine .onSecond
    ((Succeeds.modify (P := fun _ t₁ ↦ t₁ = sink.nameContract name t) rfl).bind ?_)
  intro _ _ hnext
  subst hnext
  exact ⟨(), t', hwrite, rfl, hrecords⟩

/-- Operations on a list that only write. -/
theorem forM {α : Type} {f : α → Recording τ Unit} {g : α → List Record} {r : TraceRecorder}
    (h : ∀ a, Emits records (f a) r r (g a)) (xs : List α) :
    Emits records (xs.forM f) r r (xs.flatMap g) := by
  induction xs with
  | nil => exact .pure r
  | cons a rest ih => exact (h a).bind ih

end Emits

/-- The hashes announced after scripts entered the call stack in this order. -/
def announcing (known : List Hash) (frames : List Context) : List Hash :=
  frames.foldl (fun known c ↦ if c.scriptHash ∈ known then known else c.scriptHash :: known) known

section Operations

variable (hsink : sink.Keeps records)
include hsink

theorem emits_storages (snapshot : Snapshot) (hashes : List Hash) (r : TraceRecorder) :
    Emits records (hashes.eraseDups.forM fun hash ↦
        match snapshot.contract? hash with
        | none => pure ()
        | some contract =>
          onSecond (sink.storages contract.hash (snapshot.storageOf contract.id))) r r
      (storages snapshot hashes) := by
  rw [storages, List.filterMap_eq_flatMap_toList]
  refine Emits.forM (fun hash ↦ ?_) _
  cases snapshot.contract? hash with
  | none => exact .pure r
  | some contract => exact .write hsink _ r

theorem emits_emitTrace (view : View) (r : TraceRecorder) :
    Emits records (emitTrace sink view) r r (block r.config view) := by
  have hstorages := emits_storages hsink view.snapshot (view.frames.map (·.scriptHash)) r
  rw [← distinctHashes_eq] at hstorages
  have hrest : Emits records
      (if r.config.captureStorage then
        (distinctHashes view.frames).forM fun hash ↦
          match view.snapshot.contract? hash with
          | none => pure ()
          | some contract =>
            onSecond (sink.storages contract.hash (view.snapshot.storageOf contract.id))
      else pure ()) r r
      (if r.config.captureStorage then storages view.snapshot (view.frames.map (·.scriptHash))
        else []) := by
    split
    · exact hstorages
    · exact .pure r
  exact .get_bind fun _ ↦ (Emits.write hsink _ r).bind hrest

theorem emits_announce (c : Context) (r : TraceRecorder) :
    Emits records (announce sink c) r { r with announced := announcing r.announced [c] }
      (if c.scriptHash ∈ r.announced then [] else [.script c.scriptHash c.code]) := by
  refine .get_bind fun _ ↦ ?_
  dsimp only
  by_cases hknown : c.scriptHash ∈ r.announced
  · have hannounced : announcing r.announced [c] = r.announced := if_pos hknown
    rw [if_pos hknown, hannounced, if_pos (by simpa using hknown)]
    exact .pure r
  · have hannounced : announcing r.announced [c] = c.scriptHash :: r.announced := if_neg hknown
    rw [if_neg hknown, hannounced, if_neg (by simpa using hknown)]
    have hadd : Emits records _ r _ [] :=
      .update (fun r ↦ { r with announced := c.scriptHash :: r.announced }) r
    exact hadd.bind (.write hsink _ _)

/-- Scripts are announced unless their hash is known. -/
theorem emits_announceAll (frames : List Context) (r : TraceRecorder) :
    Emits records (frames.forM (announce sink)) r
      { r with announced := announcing r.announced frames }
      (scripts (frames.filter (·.scriptHash ∉ r.announced))) := by
  induction frames generalizing r with
  | nil => exact .pure r
  | cons c rest ih =>
    have hrest := ih { r with announced := announcing r.announced [c] }
    have hboth := (emits_announce hsink c r).bind (f := fun _ ↦ rest.forM (announce sink)) hrest
    have hrecords : (if c.scriptHash ∈ r.announced then [] else [.script c.scriptHash c.code]) ++
        scripts (rest.filter (·.scriptHash ∉ announcing r.announced [c])) =
          scripts ((c :: rest).filter (·.scriptHash ∉ r.announced)) := by
      by_cases hknown : c.scriptHash ∈ r.announced
      · have hannounced : announcing r.announced [c] = r.announced := if_pos hknown
        rw [if_pos hknown, hannounced, List.nil_append,
          List.filter_cons_of_neg (by simpa using hknown)]
      · have hannounced : announcing r.announced [c] = c.scriptHash :: r.announced :=
          if_neg hknown
        rw [if_neg hknown, hannounced, List.filter_cons_of_pos (by simpa using hknown), scripts,
          scripts, List.eraseDupsBy_cons, List.map_cons, List.filter_filter]
        have hfilter (b : Context) : decide (b.scriptHash ∉ c.scriptHash :: r.announced) =
            (decide ((b.scriptHash == c.scriptHash) = false) &&
              decide (b.scriptHash ∉ r.announced)) := by
          rw [Bool.eq_iff_iff]
          simp
        simp only [hfilter]
        rfl
    rw [hrecords] at hboth
    exact hboth

theorem emits_start (view : View) {r : TraceRecorder} (hannounced : r.announced = []) :
    Emits records (start sink view) r
      { r with started := true, announced := announcing [] view.frames.reverse }
      (opening r.config view) := by
  obtain ⟨session, names, config, started, _⟩ := r
  obtain rfl := hannounced.symm
  have hscripts := emits_announceAll hsink view.frames.reverse ⟨session, names, config, true, []⟩
  simp only [List.not_mem_nil, not_false_eq_true, decide_true, List.filter_true] at hscripts
  have hbegin : Emits records _ ⟨session, names, config, started, []⟩ _ [] :=
    .update (fun r ↦ { r with started := true }) _
  exact hbegin.bind ((Emits.write hsink _ _).bind (hscripts.bind (emits_emitTrace hsink view _)))

omit hsink in
theorem emits_finish (r : TraceRecorder) :
    Emits records (finish : Recording τ Unit) r { r with started := false, announced := [] } [] :=
  Emits.update (fun r ↦ { r with started := false, announced := [] }) r

/-- An invocation begins with its opening, once. -/
theorem emits_ensureStarted (view : View) {r : TraceRecorder}
    (hfresh : r.started = false → r.announced = []) :
    Emits records (ensureStarted sink view) r
      { r with
        started := true
        announced := if r.started then r.announced else announcing [] view.frames.reverse }
      (if r.started then [] else opening r.config view) := by
  refine .get_bind fun _ ↦ ?_
  obtain ⟨session, names, config, started, announced⟩ := r
  cases started with
  | true => exact .pure _
  | false => exact emits_start hsink view (hfresh rfl)

/-- The name of a contract, and what the recorder knows of names after it was looked up. -/
def named (r : TraceRecorder) (view : View) (hash : Hash) : String × NameCache :=
  Id.run (r.names.resolve (fun h ↦ pure (view.snapshot.contract? h)) hash)

/-- A record handed over with the name of a contract. -/
theorem emits_named (view : View) (hash : Hash) (record : Record) (r : TraceRecorder) :
    Emits records (resolveName view hash >>= fun name ↦
        onSecond (modify (sink.nameContract name) >>= fun _ ↦ sink.write record)) r
      { r with names := (r.named view hash).2 } [record] := by
  intro t
  have hresolve : Succeeds (resolveName (τ := τ) view hash) (r, t) fun _ next ↦
      next = ({ r with names := (r.named view hash).2 }, t) :=
    .get_bind ((Succeeds.modify (P := fun _ next ↦
      next = ({ r with names := (r.named view hash).2 }, t)) rfl).bind fun _ _ hnext ↦ .pure hnext)
  apply hresolve.bind
  intro name _ hnext
  subst hnext
  exact Emits.named hsink name record _ t

/-! ### Events -/

theorem emits_contextLoaded_of_started (view : View) (c : Context) {r : TraceRecorder}
    (hstarted : r.started = true) :
    Emits records ((observer sink).notice view (.contextLoaded c)) r
      { r with announced := announcing r.announced [c] }
      (if c.scriptHash ∈ r.announced then [] else [.script c.scriptHash c.code]) := by
  refine .get_bind fun _ ↦ ?_
  dsimp only
  rw [if_pos hstarted]
  exact emits_announce hsink c r

omit hsink in
theorem emits_contextLoaded_of_not_started (view : View) (c : Context) {r : TraceRecorder}
    (hstarted : r.started = false) :
    Emits records ((observer sink).notice view (.contextLoaded c)) r r [] := by
  refine .get_bind fun _ ↦ ?_
  simp only [hstarted]
  exact .pure r

theorem emits_log (view : View) (event : LogEvent) {r : TraceRecorder}
    (hsender : event.sender = r.session) :
    Emits records ((observer sink).notice view (.log event)) r
      { r with names := (r.named view event.scriptHash).2 }
      [.log event.scriptHash event.message] := by
  refine .get_bind fun _ ↦ ?_
  simp only [if_pos hsender]
  exact emits_named hsink view event.scriptHash _ r

theorem emits_notify (view : View) (event : NotifyEvent) {r : TraceRecorder}
    (hsender : event.sender = r.session) :
    Emits records ((observer sink).notice view (.notify event)) r
      { r with names := (r.named view event.scriptHash).2 }
      [.notify event.scriptHash event.eventName event.state] := by
  refine .get_bind fun _ ↦ ?_
  simp only [if_pos hsender]
  exact emits_named hsink view event.scriptHash _ r

/-- An invocation begins with its first instruction. -/
theorem emits_preExecute (view : View) (i : Instruction) {r : TraceRecorder}
    (hfresh : r.started = false → r.announced = []) :
    Emits records ((observer sink).notice view (.preExecute i)) r
      { r with
        started := true
        announced := if r.started then r.announced else announcing [] view.frames.reverse }
      (if r.started then [] else opening r.config view) :=
  emits_ensureStarted hsink view hfresh

/-- After an instruction comes the state of the machine, and after the last one the results. -/
theorem emits_postExecute (view : View) (i : Instruction) (r : TraceRecorder) :
    Emits records ((observer sink).notice view (.postExecute i)) r
      (if view.state = .halt then { r with started := false, announced := [] } else r)
      (block r.config view ++ if view.state = .halt then
        [.results view.state view.gasConsumed view.resultStack] else []) := by
  apply (emits_emitTrace hsink view r).bind
  split
  · exact (Emits.write hsink _ r).bind (emits_finish r)
  · exact .pure r

/-- A fault is followed by the state of the machine. -/
theorem emits_fault (view : View) (exception : String) {r : TraceRecorder}
    (hfresh : r.started = false → r.announced = []) :
    Emits records ((observer sink).notice view (.fault exception)) r
      { r with started := false, announced := [] }
      ((if r.started then [] else opening r.config view) ++
        .fault exception :: block r.config view) := by
  have hbegun := emits_ensureStarted hsink view hfresh
  have hstate (r : TraceRecorder) :=
    (emits_emitTrace hsink view r).bind (f := fun _ ↦ finish) (emits_finish r)
  simp only [List.append_nil] at hstate
  exact hbegun.bind ((Emits.write hsink _ _).bind (hstate _))

end Operations

end TraceRecorder

end ScriptTrace
