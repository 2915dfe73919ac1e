import ScriptTrace.Proofs.Coverage.Refusals
import ScriptTrace.Proofs.Storage.Failures

/-!
What can go wrong in a coverage session that observes its machine alone. The machine reports the
return of a frame with its caller on top, and the recorder looks the caller up. It knows every
script on the call stack (`Knows`), because it remembers a script before it writes anything, so the
lookup finds a script also where an earlier call failed on the way. What is left are the failures of
the storage: a call fails if and only if an operation of the storage failed in it, and the error
names a path (`attemptEach_ioFailure`).
-/

set_option autoImplicit false
set_option relaxedAutoImplicit false

namespace ScriptTrace

open Storage

/-- An error names a path and what the storage said, and an operation of the storage failed on the
way from one state to another. -/
def TracerError.Blames {τ : Type} (fs : Storage τ) (t : τ) (err : TracerError) (t' : τ) : Prop :=
  (∃ path source, err = .ioFailure path source) ∧ fs.Harmed t t'

namespace CoverageWriter

open TracerError

variable {τ : Type} {fs : Storage τ} {t₀ t : τ} (ht : fs.Unharmed t₀ t)
include ht

/-! ### Files -/

theorem writePieces_harms (log : Handle) (pieces : List String) :
    Ends (pieces.forM fun piece ↦ fs.write log (Bytes.ofString piece)) t
      (fun _ ↦ fs.Unharmed t₀) fun _ ↦ fs.Harmed t₀ :=
  Ends.forM (fun piece _ ht ↦ (write_harms log (Bytes.ofString piece) _).mono
    (fun _ _ h ↦ ht.trans h) fun _ _ h ↦ ht.trans_harmed h) pieces ht

theorem writeNew_blames (path : String) (file : Handle) (content : Bytes) :
    Ends (writeNew fs path file content) t (fun _ ↦ fs.Unharmed t₀) (Blames fs t₀) := by
  have hwritten : Ends (fs.write file content >>= fun _ ↦ fs.flush file) t
      (fun _ ↦ fs.Unharmed t₀) fun _ ↦ fs.Harmed t₀ := by
    refine ((write_harms file content t).mono (fun _ _ h ↦ ht.trans h)
      fun _ _ h ↦ ht.trans_harmed h).bind fun _ t₁ ht₁ ↦ ?_
    exact (flush_harms file t₁).mono (fun _ _ h ↦ ht₁.trans h) fun _ _ h ↦ ht₁.trans_harmed h
  refine hwritten.attempt_bind ?_ ?_
  · exact fun _ t₁ ht₁ ↦ .modify_bind (.pure (ht₁.trans (release_unharmed file t₁)))
  · intro e t₁ ht₁
    have hreleased := ht₁.trans_unharmed (release_unharmed file t₁)
    refine .modify_bind ((removeFile_harms path _).attempt_bind ?_ ?_)
    · exact fun _ _ h ↦ .throw ⟨⟨path, e, rfl⟩, hreleased.trans_unharmed h⟩
    · exact fun _ _ h ↦ .throw ⟨⟨path, e, rfl⟩, hreleased.trans h⟩

theorem writeArtifact_blames (directory : String) (script : ExecutedScript) :
    Ends (writeArtifact fs directory script) t (fun _ ↦ fs.Unharmed t₀) (Blames fs t₀) := by
  refine (createNew_harms (joinPath directory script.fileName) t).attempt_bind ?_ ?_
  · exact fun file t₁ h ↦ writeNew_blames (ht.trans h) _ file script.artifact
  · intro e t₁ h
    by_cases hkind : e.kind = .alreadyExists
    · rw [if_pos hkind] at h
      simp only [if_pos hkind]
      exact .pure (ht.trans h)
    · rw [if_neg hkind] at h
      simp only [if_neg hkind]
      exact .throw ⟨⟨_, e, rfl⟩, ht.trans_harmed h⟩

section Recording

variable {w : CoverageWriter} (hopen : w.log.isSome)
include hopen

theorem writeLine_blames (line : CoverageLine) :
    Ends (writeLine fs line) (w, t) (fun _ next ↦ next.1.log.isSome ∧ fs.Unharmed t₀ next.2)
      fun err next ↦ next.1.log.isSome ∧ err.Blames fs t₀ next.2 := by
  refine .get_bind ?_
  obtain ⟨log, hlog⟩ := Option.isSome_iff_exists.mp hopen
  simp only [hlog]
  exact .onSecond (.failingWith ((writePieces_harms ht log line.pieces).mono
    (fun _ _ h ↦ ⟨hopen, h⟩) fun e _ h ↦ ⟨hopen, ⟨w.logPath, e, rfl⟩, h⟩))

theorem recordContext_blames (script : Option ExecutedScript) :
    Ends (recordContext fs script) (w, t)
      (fun _ next ↦ next.1.log.isSome ∧ fs.Unharmed t₀ next.2)
      fun err next ↦ next.1.log.isSome ∧ err.Blames fs t₀ next.2 := by
  cases script with
  | none => exact writeLine_blames ht hopen _
  | some script =>
    refine (writeLine_blames ht hopen _).bind ?_
    rintro _ ⟨w', t'⟩ ⟨hopen', ht'⟩
    refine .get_bind ?_
    dsimp only
    split
    · exact .pure ⟨hopen', ht'⟩
    · refine (writeArtifact_blames ht' w'.directory script).onSecond_bind ?_ ?_
      · exact fun _ _ h ↦ .modify ⟨hopen', h⟩
      · exact fun _ _ h ↦ ⟨hopen', h⟩

end Recording

end CoverageWriter

namespace CoverageRecorder

open StackMachine

/-- The log of a recorder is open, and it knows each of some scripts. -/
structure Knows (hashes : List Hash) (r : CoverageRecorder) : Prop where
  log : r.writer.log.isSome
  executed : ∀ hash ∈ hashes, (r.executed.get? hash).isSome

theorem Knows.mono {hashes hashes' : List Hash} {r : CoverageRecorder} (h : Knows hashes r)
    (hsubset : hashes' ⊆ hashes) : Knows hashes' r :=
  ⟨h.log, fun hash hmem ↦ h.executed hash (hsubset hmem)⟩

variable {τ : Type} {fs : Storage τ} {t₀ : τ} {hashes : List Hash}

/-- A recorder knows some scripts, and no operation of the storage has failed since some state. -/
def Goes (fs : Storage τ) (t₀ : τ) (hashes : List Hash) (host : CoverageRecorder × τ) : Prop :=
  Knows hashes host.1 ∧ fs.Unharmed t₀ host.2

/-- A recorder has failed but knows some scripts, and the error is the storage's. -/
def Stops (fs : Storage τ) (t₀ : τ) (hashes : List Hash) (err : TracerError)
    (host : CoverageRecorder × τ) : Prop :=
  Knows hashes host.1 ∧ err.Blames fs t₀ host.2

/-! ### Events -/

section Events

variable {r : CoverageRecorder} {t : τ} (h : Goes fs t₀ hashes (r, t))
include h

/-- What the writer of a recorder does. -/
theorem onWriter_stops {x : CoverageWriter.Recording τ Unit}
    (hx : Ends x (r.writer, t) (fun _ next ↦ next.1.log.isSome ∧ fs.Unharmed t₀ next.2)
      fun err next ↦ next.1.log.isSome ∧ err.Blames fs t₀ next.2) :
    Ends (onWriter x) (r, t) (fun _ ↦ Goes fs t₀ hashes) (Stops fs t₀ hashes) := by
  have hknows {w : CoverageWriter} (hlog : w.log.isSome) : Knows hashes { r with writer := w } :=
    ⟨hlog, h.1.executed⟩
  unfold Ends onWriter at *
  cases hrun : x (r.writer, t) with
  | ok a next =>
    simp only [hrun] at hx ⊢
    exact ⟨hknows hx.1, hx.2⟩
  | error err next =>
    simp only [hrun] at hx ⊢
    exact ⟨hknows hx.1, hx.2⟩

theorem writeLine_stops (line : CoverageLine) :
    Ends (onWriter (CoverageWriter.writeLine fs line)) (r, t) (fun _ ↦ Goes fs t₀ hashes)
      (Stops fs t₀ hashes) :=
  onWriter_stops h (CoverageWriter.writeLine_blames h.2 h.1.log line)

theorem recordContext_stops (script : Option ExecutedScript) :
    Ends (onWriter (CoverageWriter.recordContext fs script)) (r, t) (fun _ ↦ Goes fs t₀ hashes)
      (Stops fs t₀ hashes) :=
  onWriter_stops h (CoverageWriter.recordContext_blames h.2 h.1.log script)

/-- A frame was pushed. Its script is known even if nothing can be written. -/
theorem loaded_stops (view : View) (context : Context) :
    Ends (loaded fs view context) (r, t) (fun _ ↦ Goes fs t₀ (context.scriptHash :: hashes))
      (Stops fs t₀ (context.scriptHash :: hashes)) := by
  have hlearned (script : ExecutedScript) : Goes fs t₀ (context.scriptHash :: hashes)
      ({ r with executed := r.executed.set context.scriptHash script }, t) := by
    refine ⟨⟨h.1.log, fun hash hmem ↦ ?_⟩, h.2⟩
    rw [Table.get?_set]
    split
    · rfl
    · rename_i hne
      exact h.1.executed hash (List.mem_of_ne_of_mem (Ne.symm hne) hmem)
  exact .get_bind (.modify_bind (recordContext_stops (hlearned _) _))

/-- A frame was popped, and its caller is known. -/
theorem unloaded_stops {view : View} (hcurrent : ∀ hash ∈ view.currentHash, hash ∈ hashes) :
    Ends (unloaded fs view) (r, t) (fun _ ↦ Goes fs t₀ hashes) (Stops fs t₀ hashes) := by
  unfold unloaded
  cases hhash : view.currentHash with
  | none => exact recordContext_stops h none
  | some hash =>
    refine .get_bind ?_
    obtain ⟨script, hscript⟩ :=
      Option.isSome_iff_exists.mp (h.1.executed hash (hcurrent hash hhash))
    simp only [hscript]
    exact recordContext_stops h (some script)

/-- An instruction is about to run. -/
theorem before_stops {view : View} (hhash : view.currentHash.isSome)
    (hposition : view.currentPointer.isSome) (i : Instruction) :
    Ends (before fs view i) (r, t) (fun _ ↦ Goes fs t₀ hashes) (Stops fs t₀ hashes) := by
  obtain ⟨hash, hhash⟩ := Option.isSome_iff_exists.mp hhash
  obtain ⟨position, hposition⟩ := Option.isSome_iff_exists.mp hposition
  unfold before
  simp only [hhash, hposition]
  have hcounted : Goes fs t₀ hashes (r.counting hash position, t) :=
    ⟨⟨h.1.log, h.1.executed⟩, h.2⟩
  refine .modify_bind ((writeLine_stops hcounted _).bind fun _ next hnext ↦ ?_)
  exact .modify ⟨⟨hnext.1.log, hnext.1.executed⟩, hnext.2⟩

/-- An instruction has run. -/
theorem after_stops {view : View} (hview : view.currentHash.isSome → view.currentPointer.isSome) :
    Ends (after fs view) (r, t) (fun _ ↦ Goes fs t₀ hashes) (Stops fs t₀ hashes) := by
  refine .get_bind (.modify_bind ?_)
  have hcleared : Goes fs t₀ hashes ({ r with pending := none }, t) :=
    ⟨⟨h.1.log, h.1.executed⟩, h.2⟩
  cases r.pending with
  | none => exact .pure hcleared
  | some branch =>
    dsimp only
    split
    · exact .pure hcleared
    · rename_i hsame
      have hcurrent := Classical.not_not.mp (not_or.mp hsame).2
      obtain ⟨outcome, houtcome⟩ := Option.isSome_iff_exists.mp (hview (by rw [hcurrent]; rfl))
      simp only [houtcome]
      exact writeLine_stops hcleared _

omit h in
theorem fault_stops {host : CoverageRecorder × τ} (h : Goes fs t₀ hashes host) (view : View)
    (exception : String) :
    Ends ((observer fs).notice view (.fault exception)) host (fun _ ↦ Goes fs t₀ hashes)
      (Stops fs t₀ hashes) :=
  .modify ⟨⟨h.1.log, h.1.executed⟩, h.2⟩

end Events

/-! ### Turns -/

section Turns

variable {m m' : StackMachine} {host : CoverageRecorder × τ}

/-- The machine has popped a frame, and the recorder knows what is left of the call stack. -/
theorem unloaded_single_stops {f : Frame} {hashes : List Hash}
    (h : Goes fs t₀ hashes host) (hsubset : hashesOf m' ⊆ hashes) :
    Ends ([Event.contextUnloaded f.context].forM ((observer fs).notice m'.view)) host
      (fun _ ↦ Goes fs t₀ (hashesOf m')) (Stops fs t₀ (hashesOf m')) := by
  refine .single (unloaded_stops ⟨h.1.mono hsubset, h.2⟩ fun hash hmem ↦ ?_)
  rw [currentHash_view] at hmem
  exact List.mem_of_mem_head? hmem

/-- The recorder is told of what a completed operation reports. -/
theorem effect_stops {events : List Event} (heffect : Effect m events m')
    (h : Goes fs t₀ (hashesOf m) host) :
    Ends (events.forM ((observer fs).notice m'.view)) host (fun _ ↦ Goes fs t₀ (hashesOf m'))
      (Stops fs t₀ (hashesOf m')) := by
  cases heffect with
  | silent hsame =>
    rw [hashesOf_eq hsame]
    exact .pure h
  | logged hsame message =>
    rw [hashesOf_eq hsame]
    exact .single (.pure h)
  | notified hsame eventName state =>
    rw [hashesOf_eq hsame]
    exact .single (.pure h)
  | called hsame hdeployed arguments =>
    rw [← hashesOf_eq hsame] at h
    exact .single (loaded_stops h _ _)
  | returned hsame hframes =>
    rw [← hashesOf_eq hsame, hashesOf, hframes] at h
    exact unloaded_single_stops h (List.subset_cons_self _ _)
  | finished hsame hframes =>
    exact unloaded_single_stops h (List.nil_subset _)

/-- The recorder is told of the instruction at the position of the current frame. -/
theorem preExecute_stops {i : Instruction} (hnext : m.next? = some (.ok i))
    (h : Goes fs t₀ (hashesOf m) host) :
    Ends ([Event.preExecute i].forM ((observer fs).notice m.view)) host
      (fun _ ↦ Goes fs t₀ (hashesOf m)) (Stops fs t₀ (hashesOf m)) := by
  obtain ⟨f, rest, hframes⟩ := exists_frames_of_next hnext
  have hhash : m.view.currentHash.isSome := by rw [view, hframes]; rfl
  have hposition : m.view.currentPointer.isSome := by rw [view, hframes]; rfl
  exact .single (before_stops h hhash hposition i)

variable {s : Session StackMachine (CoverageRecorder × τ)} (haudience : s.audience = observer fs)
include haudience

theorem fares_turn {overrides : Overrides} {t : Turn StackMachine}
    (h : Goes fs t₀ (hashesOf s.machine) host) (hturn : turn overrides s.machine = some t) :
    s.Fares (fun m ↦ Goes fs t₀ (hashesOf m)) (fun err m ↦ Stops fs t₀ (hashesOf m) err)
      t host := by
  unfold Session.Fares
  rw [s.report_eq_forM haudience, s.report_eq_forM haudience]
  cases outcome_of_turn hturn with
  | empty hrunning hframes => exact .pure (.pure h)
  | undecodable hundecodable => exact .pure (.single (fault_stops h _ _))
  | @completed i events m' hcompletes =>
    have hview : m'.view.currentHash.isSome → m'.view.currentPointer.isSome := by simp [view]
    refine (preExecute_stops hcompletes.next h).mono (fun _ host₁ h₁ ↦ ?_) fun _ _ hstop ↦ hstop
    rw [← hashesOf_charge i] at h₁
    change Ends ((events ++ [Event.postExecute i]).forM _) _ _ _
    rw [forM_append]
    exact (effect_stops hcompletes.effect h₁).bind fun _ _ h₂ ↦ .single (after_stops h₂ hview)
  | @faulted i fault m' hfaults =>
    have hsame := sameScripts_of_operate hfaults.operate
    refine (preExecute_stops hfaults.next h).mono (fun _ host₁ h₁ ↦ ?_) fun _ _ hstop ↦ hstop
    rw [← hashesOf_charge i, ← hashesOf_eq hsame] at h₁
    exact .single (fault_stops h₁ _ _)

theorem fares_load (h : Goes fs t₀ (hashesOf s.machine) host) (code : Bytes) :
    s.Fares (fun m ↦ Goes fs t₀ (hashesOf m)) (fun err m ↦ Stops fs t₀ (hashesOf m) err)
      (s.machine.load code) host := by
  unfold Session.Fares
  rw [s.report_eq_forM haudience, s.report_eq_forM haudience]
  exact .pure (.single (loaded_stops ⟨h.1.mono (hashesOf_reset_subset s.machine), h.2⟩ _ _))

theorem ends_make_stops (h : Goes fs t₀ (hashesOf s.machine) host) (c : Call) :
    Ends (Session.make c) (s, host) (fun _ ↦ s.Stands fun m ↦ Goes fs t₀ (hashesOf m))
      fun err ↦ s.Stands fun m ↦ Stops fs t₀ (hashesOf m) err := by
  cases c with
  | load code =>
    refine .get_bind ((fares_load haudience h code).move.mono ?_ fun _ _ hstands ↦ hstands)
    exact fun _ _ hmoved ↦ ⟨_, hmoved⟩
  | execute budget =>
    refine (Session.execute_of_fares (fun m host t h hturn ↦ ?_) h budget).bind
      fun _ _ hstands ↦ .pure hstands
    exact fares_turn (s := { s with machine := m }) haudience h hturn

end Turns

/-! ### Calls -/

/-- What the outcome of a call says of the storage. -/
def Tells (fs : Storage τ) (t : τ) : Except TracerError Unit → τ → Prop
  | .ok (), t' => fs.Unharmed t t'
  | .error err, t' => err.Blames fs t t'

/-- What the outcomes of calls say of the storage: each error names a path, and either no call and
no operation of the storage failed, or some did. -/
structure Blamed (fs : Storage τ) (t : τ) (outcomes : List (Except TracerError Unit × StackMachine))
    (t' : τ) : Prop where
  ioFailure : ∀ outcome ∈ outcomes, ∀ err, outcome.1 = .error err →
    ∃ path source, err = .ioFailure path source
  harm : (∀ outcome ∈ outcomes, outcome.1 = .ok ()) ∧ fs.Unharmed t t' ∨
    (∃ outcome ∈ outcomes, outcome.1 ≠ .ok ()) ∧ fs.Harmed t t'

namespace Blamed

variable {t t₁ t' : τ} {outcomes : List (Except TracerError Unit × StackMachine)}

theorem nil (t : τ) : Blamed fs t [] t where
  ioFailure _ hmem := absurd hmem List.not_mem_nil
  harm := .inl ⟨fun _ hmem ↦ absurd hmem List.not_mem_nil, .refl t⟩

/-- A call before others. -/
theorem cons {outcome : Except TracerError Unit} (houtcome : Tells fs t outcome t₁)
    (h : Blamed fs t₁ outcomes t') (m : StackMachine) :
    Blamed fs t ((outcome, m) :: outcomes) t' := by
  cases outcome with
  | ok _ =>
    replace houtcome : fs.Unharmed t t₁ := houtcome
    refine ⟨List.forall_mem_cons.mpr ⟨nofun, h.ioFailure⟩, ?_⟩
    rcases h.harm with ⟨hok, hunharmed⟩ | ⟨⟨other, hmem, hfailed⟩, hharmed⟩
    · exact .inl ⟨List.forall_mem_cons.mpr ⟨rfl, hok⟩, houtcome.trans hunharmed⟩
    · exact .inr ⟨⟨other, .tail _ hmem, hfailed⟩, houtcome.trans_harmed hharmed⟩
  | error err =>
    obtain ⟨hpath, hharmed⟩ : err.Blames fs t t₁ := houtcome
    refine ⟨List.forall_mem_cons.mpr ⟨?_, h.ioFailure⟩, .inr ⟨⟨_, .head _, nofun⟩, ?_⟩⟩
    · intro other hother
      exact Except.error.inj hother ▸ hpath
    · rcases h.harm with ⟨-, hunharmed⟩ | ⟨-, hharmed'⟩
      · exact hharmed.trans_unharmed hunharmed
      · exact hharmed.trans hharmed'

/-- The number of failures tells whether a call failed. -/
theorem forall_ok_iff (h : Blamed fs t outcomes t') {failures : τ → Nat}
    (hfailures : fs.Tallies failures) :
    (∀ outcome ∈ outcomes, outcome.1 = .ok ()) ↔ failures t' = failures t := by
  rcases h.harm with ⟨hok, hunharmed⟩ | ⟨⟨outcome, hmem, hfailed⟩, hharmed⟩
  · exact iff_of_true hok (hunharmed failures hfailures)
  · exact iff_of_false (fun hok ↦ hfailed (hok outcome hmem))
      (Nat.ne_of_gt (hharmed failures hfailures))

end Blamed

section Engine

variable {overrides : Overrides} {e : CoverageEngine StackMachine τ} {t : τ}

/-- Calls on an engine that is the only observer, whatever comes of each of them. -/
theorem succeeds_attemptEach_blamed (he : e.Watches (observer fs) overrides)
    (h : Knows (hashesOf e.session.machine) e.recorder) (calls : List Call) :
    Succeeds (Engine.attemptEach calls) (e, t) fun outcomes next ↦
      outcomes.length = calls.length ∧ Blamed fs t outcomes next.2 := by
  induction calls generalizing e t with
  | nil => exact .pure ⟨rfl, .nil t⟩
  | cons c rest ih =>
    let post (outcome : Except TracerError Unit) : StackMachine → CoverageRecorder × τ → Prop :=
      fun m next ↦ Knows (hashesOf m) next.1 ∧ Tells fs t outcome next.2
    have hcall : Ends (Engine.make c) (e, t) (fun _ ↦ e.Stands (post (.ok ())))
        fun err ↦ e.Stands (post (.error err)) :=
      Engine.make_stands he.not_disposed (ends_make_stops he.audience ⟨h, .refl t⟩ c)
    refine (Ends.succeeds_outcome (P := fun outcome ↦ e.Stands (post outcome)) hcall).bind ?_
    rintro outcome ⟨_, t₁⟩ hnext
    have hwatches := hnext.watches he
    obtain ⟨m, r, rfl, hknows, houtcome⟩ := hnext
    refine .get_bind ((ih hwatches hknows).bind ?_)
    rintro outcomes next ⟨hlength, hblamed⟩
    exact .pure ⟨congrArg (· + 1) hlength, .cons houtcome hblamed _⟩

end Engine

/-- Assumes: a session without other observers and without frames. An engine over it makes calls
with any storage, and the host goes on after each failure. The only error of a call is a failure on
a path, and if the failures of the storage are counted, no call fails if and only if none was
counted. -/
theorem attemptEach_ioFailure (fs : Storage τ) (config : CoverageConfig) (sessionName : String)
    (checker : Option WitnessChecker) {session : Session StackMachine τ}
    (hobservers : session.observers = []) (hframes : session.machine.frames = []) {t₀ t₁ : τ}
    {engine : CoverageEngine StackMachine τ}
    (hstart : CoverageEngine.start fs config sessionName checker session t₀ = .ok engine t₁)
    (calls : List Call) :
    ∃ outcomes engine' t₂,
      Engine.attemptEach calls (engine, t₁) = .ok outcomes (engine', t₂) ∧
      outcomes.length = calls.length ∧
      (∀ outcome ∈ outcomes, ∀ err, outcome.1 = .error err →
        ∃ path source, err = .ioFailure path source) ∧
      ∀ failures, fs.Tallies failures →
        ((∀ outcome ∈ outcomes, outcome.1 = .ok ()) ↔ failures t₂ = failures t₁) := by
  obtain ⟨writer, t, hwriter, hrest⟩ := bind_eq_ok hstart
  obtain ⟨rfl, rfl⟩ := EStateM.Result.ok.inj hrest
  have hlog : writer.log.isSome := by
    obtain ⟨_, _, -, hopen⟩ := bind_eq_ok hwriter
    obtain ⟨log, _, -, hlast⟩ := bind_eq_ok hopen
    obtain ⟨rfl, -⟩ := EStateM.Result.ok.inj hlast
    rfl
  have hknows : Knows
      (hashesOf (Engine.start (observer fs) (.ofWriter writer) checker session).session.machine)
      (.ofWriter writer) := by
    rw [Engine.machine_start, hashesOf, hframes]
    exact ⟨hlog, fun _ hmem ↦ absurd hmem List.not_mem_nil⟩
  have hwatches := Engine.watches_start (observer fs) (.ofWriter writer) checker hobservers
  obtain ⟨outcomes, ⟨engine', t₂⟩, hrun, hlength, hblamed⟩ :=
    succeeds_attemptEach_blamed (t := t) hwatches hknows calls
  exact ⟨outcomes, engine', t₂, hrun, hlength, hblamed.ioFailure,
    fun _ hfailures ↦ hblamed.forall_ok_iff hfailures⟩

/-- A file takes the hash line and nothing more, so two executions fail and are counted. -/
theorem attemptEach_ioFailure_of_memory :
    let session : Session StackMachine (Nat × MemoryStore) :=
      .ofMachine (.create ⟨1⟩ .empty .default [])
    let store : Nat × MemoryStore :=
      (0, .ofFiles [] [⟨.write, ".neo-coverage", ⟨.other, "no space"⟩, 43, none⟩])
    let calls := [Call.load [Opcode.ret], .execute 9, .execute 9]
    session.observers = [] ∧ session.machine.frames = [] ∧
      ∃ engine store₁,
        CoverageEngine.start MemoryStore.storage.tallying .default "run" none session store =
          .ok engine store₁ ∧
        ∃ outcomes engine' store₂,
          Engine.attemptEach calls (engine, store₁) = .ok outcomes (engine', store₂) ∧
          outcomes.length = 3 ∧
          (∀ outcome ∈ outcomes, ∀ err, outcome.1 = .error err →
            ∃ path source, err = .ioFailure path source) ∧
          ((∀ outcome ∈ outcomes, outcome.1 = .ok ()) ↔ store₂.1 = store₁.1) := by
  intro session store calls
  obtain ⟨engine, store₁, hstart⟩ : ∃ engine store₁,
      CoverageEngine.start MemoryStore.storage.tallying .default "run" none session store =
        .ok engine store₁ := ⟨_, _, rfl⟩
  obtain ⟨outcomes, engine', store₂, hrun, hlength, herrors, hcounted⟩ :=
    attemptEach_ioFailure MemoryStore.storage.tallying .default "run" none rfl rfl hstart calls
  exact ⟨rfl, rfl, engine, store₁, hstart, outcomes, engine', store₂, hrun, hlength, herrors,
    hcounted _ (tallies_tallying MemoryStore.storage)⟩

end CoverageRecorder

end ScriptTrace
