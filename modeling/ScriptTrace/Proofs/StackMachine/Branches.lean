import ScriptTrace.Proofs.StackMachine.Positions
import ScriptTrace.Proofs.StackMachine.Strides

/-!
Conditional branches. `Frame.jump` is where the branch at the position of a frame goes, a number
that may lie outside the script; an instruction has it as its target if it is a conditional branch
and the number lies within (`Frame.eq_of_decode_branch`). A branch that completes goes there if it
takes a true item from the stack, and to the instruction behind it if it takes a false one
(`Completes.jumped`).
-/

set_option autoImplicit false
set_option relaxedAutoImplicit false

namespace ScriptTrace

namespace Frame

/-- Where a conditional branch at the position of a frame goes when it is taken: its operand is
signed and counts from its opcode. -/
def jump (f : Frame) : ℤ := f.position + (f.code.getD (f.position + 1) 0).toInt8.toInt

/-- A conditional branch stands at the position of a frame. -/
def AtBranch (f : Frame) : Prop := f.code[f.position]? = some Opcode.jumpIf

instance (f : Frame) : Decidable f.AtBranch := by
  unfold AtBranch
  infer_instance

/-- The target of the branch at the position of a frame lies within its script or at its end. -/
def JumpsWithin (f : Frame) : Prop := 0 ≤ f.jump ∧ f.jump ≤ f.code.length

instance (f : Frame) : Decidable f.JumpsWithin := by
  unfold JumpsWithin
  infer_instance

/-- Where a branch goes that takes the item on top of the stack. -/
def outcome (f : Frame) : ℕ :=
  if f.stack.head?.any Item.isTrue then f.jump.toNat else f.position + 2

theorem jumpTarget_eq (f : Frame) :
    Instruction.jumpTarget f.position f.code.length (f.code.getD (f.position + 1) 0) =
      if f.JumpsWithin then some f.jump.toNat else none := by
  have hjump : (f.position : ℤ) + (f.code.getD (f.position + 1) 0).toInt8.toInt = f.jump := rfl
  rw [Instruction.jumpTarget, hjump]
  split
  · rename_i target htarget
    have hwithin : f.JumpsWithin ↔ target ≤ f.code.length := by
      rw [JumpsWithin, htarget, Int.ofNat_eq_natCast]
      omega
    simp only [hwithin, htarget, Int.ofNat_eq_natCast, Int.toNat_natCast]
  · rename_i target htarget
    rw [if_neg fun hwithin : f.JumpsWithin ↦ ?_]
    exact absurd (htarget ▸ hwithin.1) (Int.negSucc_not_nonneg target).mp

theorem drop_eq {f : Frame} {opcode : UInt8} (h : f.code[f.position]? = some opcode) :
    f.code.drop f.position = opcode :: f.code.drop (f.position + 1) := by
  obtain ⟨hlt, heq⟩ := List.getElem?_eq_some_iff.mp h
  rw [List.drop_eq_getElem_cons hlt, heq]

/-- A branch that decodes takes two bytes, and branches to its target if it lies within the
script. -/
theorem eq_of_decode_branch {f : Frame} {i : Instruction} (hbranch : f.AtBranch)
    (hdecode : Instruction.decode f.code f.position = .ok i) :
    i.size = 2 ∧ i.operation = .jumpIf i.branchTarget ∧
      i.branchTarget = if f.JumpsWithin then some f.jump.toNat else none := by
  unfold Instruction.decode at hdecode
  rw [drop_eq hbranch] at hdecode
  have hlength : Instruction.operandLength Opcode.jumpIf (f.code.drop (f.position + 1)) = .ok 1 :=
    rfl
  simp only [hlength, bind, Except.bind] at hdecode
  split at hdecode
  · cases hdecode
  · rename_i hlong
    rw [← Except.ok.inj hdecode]
    refine ⟨rfl, rfl, ?_⟩
    rw [← jumpTarget_eq]
    cases hrest : f.code.drop (f.position + 1) with
    | nil => simp [hrest] at hlong
    | cons offset rest =>
      have hoffset : f.code.getD (f.position + 1) 0 = offset := by
        have hget := congrArg List.head? hrest
        rw [List.head?_drop, List.head?_cons] at hget
        rw [List.getD_eq_getElem?_getD, hget, Option.getD_some]
      rw [hoffset]
      rfl

/-- Nothing but a conditional branch has a target. -/
theorem branchTarget_eq_none {f : Frame} {i : Instruction} (hbranch : ¬ f.AtBranch)
    (hdecode : Instruction.decode f.code f.position = .ok i) : i.branchTarget = none := by
  cases hdrop : f.code.drop f.position with
  | nil =>
    rw [Instruction.decode_of_length_le (List.drop_eq_nil_iff.mp hdrop)] at hdecode
    rw [← Except.ok.inj hdecode]
    rfl
  | cons opcode rest =>
    obtain ⟨_, -, -, htarget⟩ := Instruction.eq_of_decode hdrop hdecode
    rw [htarget, if_neg]
    rintro rfl
    refine hbranch ?_
    rw [AtBranch, ← List.head?_drop, hdrop, List.head?_cons]

end Frame

namespace StackMachine

/-- The frame of a conditional branch after it has taken an item from the stack. -/
theorem eq_of_jumpIf {target : Option Nat} {m m' : StackMachine} {f : Frame} {rest : List Frame}
    (hframes : m.frames = f :: rest) (h : jumpIf target m = .ok () m') :
    ∃ item below, f.stack = item :: below ∧
      (item.isTrue = true ∧ (∃ t ∈ target,
          m' = { m with frames := { f with stack := below, position := t } :: rest }) ∨
        item.isTrue = false ∧ m' = { m with frames := { f with stack := below } :: rest }) := by
  obtain ⟨item, m₁, hpop, hrest⟩ := bind_eq_ok h
  unfold pop at hpop
  simp only [hframes] at hpop
  cases hstack : f.stack with
  | nil => simp [hstack] at hpop
  | cons top below =>
    simp only [hstack] at hpop
    obtain ⟨rfl, rfl⟩ := EStateM.Result.ok.inj hpop
    refine ⟨top, below, rfl, ?_⟩
    cases htrue : top.isTrue with
    | false =>
      simp only [htrue, Bool.false_eq_true, if_false] at hrest
      exact .inr ⟨rfl, (EStateM.Result.ok.inj hrest).2.symm⟩
    | true =>
      simp only [htrue, if_true] at hrest
      cases target with
      | none => cases hrest
      | some t => exact .inl ⟨rfl, t, rfl, (EStateM.Result.ok.inj hrest).2.symm⟩

/-- A branch that completes leaves its frame where its outcome says, and reports nothing else. -/
theorem Completes.jumped {overrides : Overrides} {m m' : StackMachine} {i : Instruction}
    {events : List Event} (h : m.Completes overrides i events m') {f : Frame} {rest : List Frame}
    (hframes : m.frames = f :: rest) (hbranch : f.AtBranch) :
    events = [] ∧ m'.state = .none ∧ ∃ stack,
      m'.frames = { f with stack := stack, position := f.outcome } :: rest := by
  have hdecode : Instruction.decode f.code f.position = .ok i := by
    have hnext := h.next
    rw [next?, hframes] at hnext
    exact Option.some.inj hnext
  obtain ⟨hsize, hoperation, htarget⟩ := Frame.eq_of_decode_branch hbranch hdecode
  have hoperate := h.operate
  rw [hoperation] at hoperate
  obtain ⟨_, m₁, hjump, hrest⟩ := bind_eq_ok hoperate
  obtain ⟨rfl, rfl⟩ := EStateM.Result.ok.inj hrest
  have hcharged : (m.charge i).frames = { f with position := f.position + 2 } :: rest := by
    rw [charge, hframes, hsize]
  obtain ⟨item, below, hstack, ⟨htrue, t, ht, rfl⟩ | ⟨hfalse, rfl⟩⟩ := eq_of_jumpIf hcharged hjump
  · have hstack' : f.stack = item :: below := hstack
    have hgoes : t = f.jump.toNat := by
      rw [htarget] at ht
      split at ht
      · exact (Option.some.inj ht).symm
      · cases ht
    refine ⟨rfl, h.running, below, ?_⟩
    rw [Frame.outcome, hstack', List.head?_cons, Option.any_some, if_pos htrue, hgoes]
  · have hstack' : f.stack = item :: below := hstack
    refine ⟨rfl, h.running, below, ?_⟩
    rw [Frame.outcome, hstack', List.head?_cons, Option.any_some,
      if_neg (by rw [hfalse]; exact Bool.false_ne_true)]

end StackMachine

/-- The frame whose conditional branch has completed in a stride: it stood on top, was charged, and
did not fault. -/
def Stride.jumped? (s : Stride) : Option Frame :=
  s.before.frames.head?.filter fun f ↦
    s.before.gas < s.after.gas ∧ s.after.state ≠ .fault ∧ f.AtBranch

end ScriptTrace
