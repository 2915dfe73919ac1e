import ScriptTrace.Coverage.Recorder
import ScriptTrace.Proofs.Act
import ScriptTrace.Proofs.Session.Moves

/-!
What a coverage recorder does whatever fails. A recorder counts instructions, remembers scripts and
branches, and writes through its writer. A condition that survives writing and remembering
(`CoverageRecorder.Survives`) survives every event but the one that an instruction is about to run
(`Survives.notice`), and that one too once the instruction is counted (`Survives.before`).
-/

set_option autoImplicit false
set_option relaxedAutoImplicit false

namespace ScriptTrace

/-- What is dispatched is the current instruction. -/
theorem exists_of_dispatch? {view : View} {event : Event} {d : Hash × Nat}
    (h : dispatch? (view, event) = some d) :
    ∃ i, event = .preExecute i ∧ view.currentHash = some d.1 ∧ view.currentPointer = some d.2 := by
  cases event with
  | preExecute i =>
    obtain ⟨hash, hhash, hpointer⟩ := Option.bind_eq_some_iff.mp h
    obtain ⟨position, hposition, hd⟩ := Option.bind_eq_some_iff.mp hpointer
    obtain rfl : (hash, position) = d := Option.some.inj hd
    exact ⟨i, rfl, hhash, hposition⟩
  | _ => cases h

namespace CoverageRecorder

variable {τ : Type} {fs : Storage τ} {inv : CoverageRecorder × τ → Prop}

theorem ends_onWriter {α : Type} {x : CoverageWriter.Recording τ α} {r : CoverageRecorder} {t : τ}
    {P : α → CoverageRecorder × τ → Prop} {Q : TracerError → CoverageRecorder × τ → Prop}
    (hx : Ends x (r.writer, t) (fun a next ↦ P a ({ r with writer := next.1 }, next.2))
      fun e next ↦ Q e ({ r with writer := next.1 }, next.2)) :
    Ends (onWriter x) (r, t) P Q := by
  unfold Ends onWriter at *
  cases hrun : x (r.writer, t) with
  | ok a next => simpa only [hrun] using hx
  | error e next => simpa only [hrun] using hx

/-- The recorder with an instruction counted once more. -/
def counting (r : CoverageRecorder) (hash : Hash) (position : Nat) : CoverageRecorder :=
  { r with hits := r.hits.set (hash, position) (r.hitCount hash position + 1) }

/-- A condition on a recorder and its files that survives what the recorder writes and remembers. -/
structure Survives (fs : Storage τ) (inv : CoverageRecorder × τ → Prop) : Prop where
  remember : ∀ r t executed pending, inv (r, t) →
    inv ({ r with executed := executed, pending := pending }, t)
  line : ∀ line host, inv host →
    Ends (onWriter (CoverageWriter.writeLine fs line)) host (fun _ ↦ inv) fun _ ↦ inv
  context : ∀ script host, inv host →
    Ends (onWriter (CoverageWriter.recordContext fs script)) host (fun _ ↦ inv) fun _ ↦ inv

namespace Survives

variable (h : Survives fs inv) {r : CoverageRecorder} {t : τ}
include h

/-- An instruction is about to run, and was counted. -/
theorem before {view : View} {hash : Hash} {position : Nat} (hhash : view.currentHash = some hash)
    (hposition : view.currentPointer = some position) (i : Instruction)
    (hinv : inv (r.counting hash position, t)) :
    Ends (before fs view i) (r, t) (fun _ ↦ inv) fun _ ↦ inv := by
  unfold CoverageRecorder.before
  simp only [hhash, hposition]
  refine .modify_bind ((h.line _ _ hinv).bind ?_)
  rintro _ ⟨r', t'⟩ hinv'
  exact h.remember r' t' r'.executed _ hinv'

/-- Anything else happens. -/
theorem notice {view : View} {event : Event} (hevent : dispatch? (view, event) = none)
    (hinv : inv (r, t)) :
    Ends ((observer fs).notice view event) (r, t) (fun _ ↦ inv) fun _ ↦ inv := by
  cases event with
  | contextLoaded context =>
    refine .get_bind (.modify_bind (h.context _ _ ?_))
    exact h.remember r t _ r.pending hinv
  | contextUnloaded context =>
    change Ends (unloaded fs view) _ _ _
    unfold unloaded
    split
    · exact h.context _ _ hinv
    · refine .get_bind ?_
      dsimp only
      split
      · exact .throw hinv
      · exact h.context _ _ hinv
  | preExecute i =>
    change Ends (CoverageRecorder.before fs view i) _ _ _
    unfold CoverageRecorder.before
    split
    · rename_i hash position hhash hposition
      simp [dispatch?, hhash, hposition] at hevent
    · exact .throw hinv
  | postExecute i =>
    refine .get_bind (.modify_bind ?_)
    have hcleared : inv ({ r with pending := none }, t) := h.remember r t r.executed none hinv
    cases r.pending with
    | none => exact .pure hcleared
    | some branch =>
      dsimp only
      split
      · exact .pure hcleared
      · split
        · exact .throw hcleared
        · exact h.line _ _ hcleared
  | fault exception => exact h.remember r t r.executed none hinv
  | log event => exact .pure hinv
  | notify event => exact .pure hinv

end Survives

end CoverageRecorder

end ScriptTrace
