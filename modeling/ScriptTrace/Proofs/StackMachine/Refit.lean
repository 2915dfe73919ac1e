import ScriptTrace.Proofs.Mirror
import ScriptTrace.StackMachine

/-!
Machines that differ in the identity of their session, in the gas so far or in their signers. What
works on the call stack alone does the same to both.
-/

set_option autoImplicit false
set_option relaxedAutoImplicit false

namespace ScriptTrace

/-- A change of what is not on the call stack: the identity of the session, the gas so far and the
signers. -/
abbrev Refit := SessionId × Nat × List Hash → SessionId × Nat × List Hash

namespace StackMachine

/-- A machine with such a change. -/
def refit (g : Refit) (m : StackMachine) : StackMachine :=
  let (session, gas, signers) := g (m.session, m.gas, m.signers)
  { m with session := session, gas := gas, signers := signers }

variable {κ : Type} {g : Refit} {text : ScriptFault → κ}

theorem mirrors_push (item : Item) (m : StackMachine) :
    Mirrors (refit g) id text (push item) (push item) m := by
  obtain ⟨session, snapshot, settings, signers, frames, state, gas, results, exception⟩ := m
  cases frames with
  | nil => exact ⟨_, rfl, rfl⟩
  | cons f rest => rfl

theorem mirrors_pop (m : StackMachine) : Mirrors (refit g) id text pop pop m := by
  obtain ⟨session, snapshot, settings, signers, frames, state, gas, results, exception⟩ := m
  cases frames with
  | nil => exact ⟨_, rfl, rfl⟩
  | cons f rest =>
    obtain ⟨code, scriptHash, position, stack, arguments, hasCatch⟩ := f
    cases stack with
    | nil => exact ⟨_, rfl, rfl⟩
    | cons item below => rfl

theorem mirrors_popMany (count : Nat) (m : StackMachine) :
    Mirrors (refit g) id text (popMany count) (popMany count) m := by
  induction count generalizing m with
  | zero => rfl
  | succ count ih =>
    refine (mirrors_pop m).bind fun item m₁ _ ↦ ?_
    exact (ih m₁).bind fun rest m₂ _ ↦ .pure _ _

theorem mirrors_modifyFrame (change : Frame → Frame) (m : StackMachine) :
    Mirrors (refit g) id text (modifyFrame change) (modifyFrame change) m := by
  obtain ⟨session, snapshot, settings, signers, frames, state, gas, results, exception⟩ := m
  cases frames with
  | nil => exact ⟨_, rfl, rfl⟩
  | cons f rest => rfl

theorem mirrors_jumpIf (target : Option Nat) (m : StackMachine) :
    Mirrors (refit g) id text (jumpIf target) (jumpIf target) m := by
  refine (mirrors_pop m).bind fun condition m₁ _ ↦ ?_
  dsimp only [id]
  split
  · cases target with
    | none => exact .throw rfl _
    | some t => exact mirrors_modifyFrame _ m₁
  · exact .pure _ _

theorem mirrors_leave (m : StackMachine) :
    Mirrors (refit g) id text leave leave m := by
  obtain ⟨session, snapshot, settings, signers, frames, state, gas, results, exception⟩ := m
  match frames with
  | [] => exact ⟨_, rfl, rfl⟩
  | [f] => rfl
  | f :: caller :: rest => rfl

theorem mirrors_call (target arguments : Item) (m : StackMachine) :
    Mirrors (refit g) id text (call target arguments) (call target arguments) m := by
  unfold call
  split
  · exact .throw rfl _
  · refine .get_bind ?_
    have hsnapshot : (m.refit g).snapshot = m.snapshot := rfl
    rw [hsnapshot]
    split
    · exact .throw rfl _
    · rfl

end StackMachine

end ScriptTrace
