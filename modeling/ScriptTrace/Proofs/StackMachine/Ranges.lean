import ScriptTrace.Proofs.StackMachine.Positions

/-!
Nothing is looked up out of range. Scripts are any bytes, and what stands behind an opcode decides
how long an instruction is; an instruction that decodes still has its bytes within its script, and
in its operand those that are looked up (`Instruction.Whole`). A system call takes as many items
from the stack as it looks up (`StackMachine.performAt?_eq`). So a machine whose frames are within
their scripts looks up nothing out of range (`StackMachine.Settled.inRange`), and loads and turns
leave it such a machine, whatever replaced system calls answer.
-/

set_option autoImplicit false
set_option relaxedAutoImplicit false

namespace ScriptTrace

/-! ### Operands -/

namespace Instruction

/-- An instruction stands wholly within a script, and its operand has the bytes that are looked up
in it. -/
structure Whole (code : Bytes) (position : Nat) (i : Instruction) : Prop where
  ends_le : position + i.size ≤ code.length
  bytes_eq : i.opcode :: i.operand = (code.drop position).take i.size
  pushData : i.opcode = Opcode.pushData →
    ∃ length data, i.operand = length :: data ∧ data.length = length.toNat
  jumpIf : i.opcode = Opcode.jumpIf →
    ∃ offset, i.operand = [offset] ∧ i.branchTarget = jumpTarget position code.length offset
  syscall : i.opcode = Opcode.syscall → ∃ a b c d, i.operand = [a, b, c, d]

/-- Pushed bytes stand behind their length. -/
theorem operandLength_pushData {rest : Bytes} {length : Nat}
    (h : operandLength Opcode.pushData rest = .ok length) :
    ∃ count tail, rest = count :: tail ∧ length = 1 + count.toNat := by
  cases rest with
  | nil => cases h
  | cons count tail => exact ⟨count, tail, rfl, (Except.ok.inj h).symm⟩

/-- An instruction within a script stands wholly within it. -/
theorem whole_of_decode {code : Bytes} {position : Nat} {i : Instruction}
    (hlt : position < code.length) (hdecode : decode code position = .ok i) :
    i.Whole code position := by
  have hends := size_le_of_decode hlt hdecode
  cases hdrop : code.drop position with
  | nil => exact absurd hlt (Nat.not_lt_of_le (List.drop_eq_nil_iff.mp hdrop))
  | cons opcode rest =>
    obtain ⟨length, hoperand, hlength, rfl⟩ := exists_of_decode hdrop hdecode
    refine ⟨hends, ?_, ?_, ?_, ?_⟩
    · rw [hdrop, Nat.add_comm, List.take_succ_cons]
    · rintro rfl
      obtain ⟨count, tail, rfl, rfl⟩ := operandLength_pushData hoperand
      refine ⟨count, tail.take count.toNat, ?_, ?_⟩
      · rw [Nat.add_comm, List.take_succ_cons]
      · rw [List.length_cons] at hlength
        rw [List.length_take, Nat.min_eq_left (by omega)]
    · rintro rfl
      obtain rfl : 1 = length := Except.ok.inj hoperand
      cases rest with
      | nil => cases hlength
      | cons offset tail => exact ⟨offset, rfl, rfl⟩
    · rintro rfl
      obtain rfl : 4 = length := Except.ok.inj hoperand
      match rest, hlength with
      | a :: b :: c :: d :: tail, _ => exact ⟨a, b, c, d, rfl⟩

end Instruction

namespace StackMachine

/-! ### Arguments -/

/-- A system call that looks up its arguments by their places, if they are all there. -/
def performAt? (s : Syscall) (arguments : List Item) : Option (Step (List Event)) :=
  match s with
  | .log => do return log (← arguments[0]?)
  | .notify => do return notify (← arguments[0]?) (← arguments[1]?)
  | .checkWitness => do
    let argument ← arguments[0]?
    return do
      checkWitness argument
      return []
  | .call => do return call (← arguments[0]?) (← arguments[3]?)
  | .checkSignature => do
    let argument ← arguments[0]?
    return do
      checkSignature argument
      return []

/-- As many arguments as a system call takes are as many as it looks up. -/
theorem performAt?_eq {s : Syscall} {arguments : List Item}
    (hlength : arguments.length = s.parameters) :
    performAt? s arguments = some (perform s arguments) := by
  cases s with
  | log =>
    obtain ⟨message, rfl⟩ := List.length_eq_one_iff.mp hlength
    rfl
  | notify =>
    match arguments, hlength with
    | [name, state], _ => rfl
  | checkWitness =>
    obtain ⟨argument, rfl⟩ := List.length_eq_one_iff.mp hlength
    rfl
  | call =>
    match arguments, hlength with
    | [target, method, flags, passed], _ => rfl
  | checkSignature =>
    obtain ⟨argument, rfl⟩ := List.length_eq_one_iff.mp hlength
    rfl

/-! ### Machines -/

/-- A machine looks up nothing out of range. Every frame is at a position within its script or at
its end, and has an instruction that stands wholly within the script, or the implicit return, or
none. When a system call is next, the items it takes from the stack are those it looks up, and
every frame is within its script then as well, as a replaced system call can see. A machine that has
completed has no frames. -/
structure InRange (m : StackMachine) : Prop where
  position_le : ∀ f ∈ m.frames, f.position ≤ f.code.length
  decoded : ∀ f ∈ m.frames, ∀ i, Instruction.decode f.code f.position = .ok i →
    i.Whole f.code f.position ∨
      f.position = f.code.length ∧ i = Instruction.implicitReturn
  called : ∀ i hash arguments m', m.next? = some (.ok i) → i.operation = .syscall hash →
    popMany (((Syscall.ofHash? hash).map Syscall.parameters).getD 0) (m.charge i) =
      .ok arguments m' →
    (∀ f ∈ m'.frames, f.position ≤ f.code.length) ∧
      ∀ s, Syscall.ofHash? hash = some s → performAt? s arguments = some (perform s arguments)
  halted : m.state = .halt → m.frames = []

/-- Every frame of a machine is within its script, and there is none when the machine has
completed. -/
structure Settled (m : StackMachine) : Prop where
  within : Within (fun _ ↦ True) m
  halted : m.state = .halt → m.frames = []

namespace Settled

variable {m : StackMachine}

theorem create (session : SessionId) (snapshot : Snapshot) (settings : Settings)
    (signers : List Hash) : Settled (create session snapshot settings signers) :=
  ⟨⟨nofun, fun _ _ _ ↦ trivial⟩, nofun⟩

theorem load (h : m.Settled) (code : Bytes) : (m.load code).next.Settled := by
  refine ⟨h.within.load trivial, fun hhalt ↦ ?_⟩
  have hstate : m.reset.state = .halt := hhalt
  unfold reset at hstate
  split at hstate
  · cases hstate
  · rename_i hgoes
    exact absurd (.inl hstate) hgoes

/-- Only the return of the outermost frame completes a machine, and a machine without frames. -/
theorem turn (h : m.Settled) {overrides : Overrides} {t : Turn StackMachine}
    (hturn : turn overrides m = some t) : t.next.Settled := by
  refine ⟨h.within.turn hturn, fun hhalt ↦ ?_⟩
  cases outcome_of_turn hturn with
  | empty _ hframes => exact hframes
  | undecodable => cases hhalt
  | @completed i _ _ hcompletes =>
    rcases hcompletes.effect.state_eq_or with hsame | ⟨-, hframes⟩
    · have hrunning : (m.charge i).state = .none := hcompletes.running
      exact absurd (hrunning.symm.trans (hsame.symm.trans hhalt)) nofun
    · exact hframes
  | faulted => cases hhalt

theorem inRange (h : m.Settled) : m.InRange where
  position_le f hf := (h.within.frames f hf).1
  decoded f hf i hdecode := by
    by_cases hlt : f.position < f.code.length
    · exact .inl (Instruction.whole_of_decode hlt hdecode)
    · have hend := Nat.le_antisymm (h.within.frames f hf).1 (Nat.le_of_not_lt hlt)
      rw [Instruction.decode_of_length_le (Nat.le_of_not_lt hlt)] at hdecode
      exact .inr ⟨hend, (Except.ok.inj hdecode).symm⟩
  called i hash arguments m' hnext hoperation hpopped := by
    constructor
    · -- A call is no implicit return, so its frame was not yet at the end of its script.
      obtain ⟨f, hf, hdecode⟩ := Option.map_eq_some_iff.mp hnext
      obtain ⟨rest, hframes⟩ := List.head?_eq_some_iff.mp hf
      have hlt : f.position < f.code.length := by
        refine Nat.lt_of_not_le fun hend ↦ ?_
        rw [Instruction.decode_of_length_le hend] at hdecode
        rw [← Except.ok.inj hdecode] at hoperation
        cases hoperation
      have hcharged := holds_charge (within_holds_iff.mpr h.within) hframes hlt hdecode
      have hholds := (Condition.keeps_popMany hcharged _).of_ok hpopped
      exact fun g hg ↦ (hholds.1.frames g hg).1
    · intro s hs
      have hlength := length_of_popMany hpopped
      rw [hs, Option.map_some, Option.getD_some] at hlength
      exact performAt?_eq hlength
  halted := h.halted

end Settled

end StackMachine

end ScriptTrace
