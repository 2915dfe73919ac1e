import ScriptTrace.Proofs.Session.Moves
import ScriptTrace.Proofs.StackMachine.Conditions

/-!
Where frames are. The position of every frame lies within its script or at its end, whatever the
scripts are: an instruction that decodes ends within the script, a branch goes into it, and the
return that stands past the end takes its frame away. `Within` also says which scripts there are,
those on the call stack and those deployed, so that a bound on their lengths is a bound on the
positions.
-/

set_option autoImplicit false
set_option relaxedAutoImplicit false

namespace ScriptTrace

/-! ### Decoding -/

namespace Instruction

/-- An instruction that stands within a script has its whole operand there. -/
theorem exists_of_decode {code rest : Bytes} {position : Nat} {opcode : UInt8} {i : Instruction}
    (hdrop : code.drop position = opcode :: rest) (hdecode : decode code position = .ok i) :
    ∃ length, operandLength opcode rest = .ok length ∧ length ≤ rest.length ∧
      i = {
        opcode := opcode
        operand := rest.take length
        size := 1 + length
        branchTarget :=
          if opcode = Opcode.jumpIf then
            jumpTarget position code.length ((rest.take length).headD 0)
          else none } := by
  unfold decode at hdecode
  simp only [hdrop] at hdecode
  cases hoperand : operandLength opcode rest with
  | error fault => simp [hoperand, bind, Except.bind] at hdecode
  | ok length =>
    simp only [hoperand, bind, Except.bind] at hdecode
    by_cases hshort : (rest.take length).length < length
    · rw [if_pos hshort] at hdecode
      cases hdecode
    · rw [if_neg hshort] at hdecode
      rw [List.length_take] at hshort
      exact ⟨length, rfl, by omega, (Except.ok.inj hdecode).symm⟩

theorem eq_of_decode {code rest : Bytes} {position : Nat} {opcode : UInt8} {i : Instruction}
    (hdrop : code.drop position = opcode :: rest) (hdecode : decode code position = .ok i) :
    ∃ length, length ≤ rest.length ∧ i.size = 1 + length ∧ i.branchTarget =
      if opcode = Opcode.jumpIf then
        jumpTarget position code.length ((rest.take length).headD 0)
      else none := by
  obtain ⟨length, -, hlength, rfl⟩ := exists_of_decode hdrop hdecode
  exact ⟨length, hlength, rfl, rfl⟩

/-- An instruction within a script ends within it. -/
theorem size_le_of_decode {code : Bytes} {position : Nat} {i : Instruction}
    (hlt : position < code.length) (hdecode : decode code position = .ok i) :
    position + i.size ≤ code.length := by
  cases hdrop : code.drop position with
  | nil => exact absurd hlt (Nat.not_lt_of_le (List.drop_eq_nil_iff.mp hdrop))
  | cons opcode rest =>
    obtain ⟨length, hlength, hsize, -⟩ := eq_of_decode hdrop hdecode
    have hrest := congrArg List.length hdrop
    rw [List.length_drop, List.length_cons] at hrest
    omega

theorem jumpTarget_le {position length target : Nat} {offset : UInt8}
    (h : jumpTarget position length offset = some target) : target ≤ length := by
  unfold jumpTarget at h
  split at h
  · rename_i n _
    by_cases hn : n ≤ length
    · rw [if_pos hn] at h
      exact Option.some.inj h ▸ hn
    · rw [if_neg hn] at h
      cases h
  · cases h

/-- A branch goes into its script or to its end. -/
theorem branchTarget_le_of_decode {code : Bytes} {position target : Nat} {i : Instruction}
    (hdecode : decode code position = .ok i) (htarget : i.branchTarget = some target) :
    target ≤ code.length := by
  cases hdrop : code.drop position with
  | nil =>
    unfold decode at hdecode
    simp only [hdrop] at hdecode
    rw [← Except.ok.inj hdecode] at htarget
    cases htarget
  | cons opcode rest =>
    obtain ⟨length, -, -, hbranch⟩ := eq_of_decode hdrop hdecode
    rw [hbranch] at htarget
    by_cases hjump : opcode = Opcode.jumpIf
    · rw [if_pos hjump] at htarget
      exact jumpTarget_le htarget
    · rw [if_neg hjump] at htarget
      cases htarget

/-- At the end of a script stands a return. -/
theorem decode_of_length_le {code : Bytes} {position : Nat} (hle : code.length ≤ position) :
    decode code position = .ok implicitReturn := by
  rw [decode, List.drop_eq_nil_of_le hle]

/-- An instruction that branches goes to its target. -/
theorem eq_branchTarget_of_operation {i : Instruction} {target : Option Nat}
    (h : i.operation = .jumpIf target) : target = i.branchTarget := by
  refine i.operation_cases (P := fun o ↦ o = .jumpIf target → target = i.branchTarget)
    (fun _ _ ↦ nofun) (fun heq ↦ ?_) nofun nofun nofun (fun _ ↦ nofun) nofun h
  exact (Operation.jumpIf.inj heq).symm

end Instruction

/-! ### Operations -/

/-- A frame is at a position within its script or at its end, and the script is one of some. -/
def Frame.Within (codes : Bytes → Prop) (f : Frame) : Prop :=
  f.position ≤ f.code.length ∧ codes f.code

namespace StackMachine

/-- Every frame is within its script, and the scripts on the call stack and those deployed are among
some. -/
structure Within (codes : Bytes → Prop) (m : StackMachine) : Prop where
  frames : ∀ f ∈ m.frames, f.Within codes
  deployed : ∀ hash contract, m.snapshot.contract? hash = some contract → codes contract.code

/-- Every frame is within its script, which is one of some. -/
def within (codes : Bytes → Prop) : Condition where
  item _ := True
  frame := Frame.Within codes
  code := codes
  boolean _ := trivial
  element _ _ _ _ := trivial
  stack _ _ _ _ := trivial
  restack _ _ hf _ := hf
  flag _ hf := hf
  enter _ _ _ hcode _ := ⟨Nat.zero_le _, hcode⟩

section Within

variable {codes : Bytes → Prop} {m : StackMachine}

theorem Within.top {f : Frame} {rest : List Frame} (h : Within codes m)
    (hframes : m.frames = f :: rest) : f.Within codes :=
  h.frames f (hframes ▸ List.mem_cons_self)

theorem within_holds_iff : (within codes).Holds m ↔ Within codes m :=
  ⟨fun h ↦ ⟨h.frames, h.deployed⟩, fun h ↦ ⟨h.frames, fun _ _ ↦ trivial, h.deployed⟩⟩

/-- Behind an instruction that stands within a script is a position within it or at its end. -/
theorem holds_charge (h : (within codes).Holds m) {f : Frame} {rest : List Frame}
    (hframes : m.frames = f :: rest) (hlt : f.position < f.code.length) {i : Instruction}
    (hdecode : Instruction.decode f.code f.position = .ok i) :
    (within codes).Holds (m.charge i) := by
  refine ⟨?_, h.results, h.deployed⟩
  rw [charge, hframes]
  exact List.forall_mem_cons.mpr
    ⟨⟨Instruction.size_le_of_decode hlt hdecode, (h.top hframes).2⟩,
      fun g hg ↦ h.frames g (hframes ▸ List.mem_cons_of_mem _ hg)⟩

/-- The instruction at the position of a frame leaves every frame within its script. -/
theorem within_operate (h : (within codes).Holds m) (overrides : Overrides) {i : Instruction}
    (hnext : m.next? = some (.ok i)) :
    Ends (operate overrides i.operation) (m.charge i) (fun _ ↦ (within codes).Holds)
      fun _ ↦ (within codes).Holds := by
  obtain ⟨f, hf, hdecode⟩ := Option.map_eq_some_iff.mp hnext
  obtain ⟨rest, hframes⟩ := List.head?_eq_some_iff.mp hf
  have hcharged : (m.charge i).frames = { f with position := f.position + i.size } :: rest := by
    rw [charge, hframes]
  by_cases hlt : f.position < f.code.length
  · have hwithin := holds_charge h hframes hlt hdecode
    have hanswer : overrides.Answer (within codes).item := fun _ _ _ _ _ _ _ ↦ trivial
    refine (Condition.keeps_operate hwithin hanswer (fun _ _ ↦ trivial) ?_).mono
      (fun _ _ hend ↦ hend.1) fun _ _ hend ↦ hend
    intro target htarget t ht g hg hscript
    rw [Instruction.eq_branchTarget_of_operation htarget] at ht
    rw [hcharged, List.head?_cons, Option.map_some] at hscript
    have hcode : f.code = g.code := (Prod.mk.inj (Option.some.inj hscript)).2
    exact ⟨hcode ▸ Instruction.branchTarget_le_of_decode hdecode ht, hg.2⟩
  · -- Past the end there is nothing but the return, which takes the frame away.
    have hrest : (within codes).Holds { m.charge i with frames := rest } :=
      ⟨fun g hg ↦ h.frames g (hframes ▸ List.mem_cons_of_mem _ hg), h.results, h.deployed⟩
    rw [Instruction.decode_of_length_le (Nat.le_of_not_lt hlt)] at hdecode
    rw [← Except.ok.inj hdecode] at hcharged hrest ⊢
    exact (Condition.keeps_leave_of_rest hcharged (fun _ _ ↦ trivial) hrest).mono
      (fun _ _ hend ↦ hend.1) fun _ _ hend ↦ hend

/-! ### Turns and loads -/

theorem Within.turn {overrides : Overrides} (h : Within codes m) {t : Turn StackMachine}
    (hturn : turn overrides m = some t) : Within codes t.next := by
  have hholds := within_holds_iff.mpr h
  cases outcome_of_turn hturn with
  | empty => exact ⟨h.frames, h.deployed⟩
  | undecodable => exact ⟨h.frames, h.deployed⟩
  | completed hcompletes =>
    have hnext := (within_operate hholds overrides hcompletes.next).of_ok hcompletes.operate
    exact within_holds_iff.mp hnext
  | faulted hfaults =>
    have hstopped := (within_operate hholds overrides hfaults.next).of_error hfaults.operate
    exact within_holds_iff.mp (hstopped.raise _)

theorem Within.moves {overrides : Overrides} (h : Within codes m) {ts : List (Turn StackMachine)}
    {m' : StackMachine} (hmoves : Moves overrides m ts m') : Within codes m' :=
  hmoves.keeps (Within codes) (fun _ _ hwithin hturn ↦ hwithin.turn hturn) h

theorem Within.load (h : Within codes m) {code : Bytes} (hcode : codes code) :
    Within codes (m.load code).next :=
  within_holds_iff.mp ((within_holds_iff.mpr h).reset.enter hcode _ (fun _ _ ↦ trivial))

end Within

/-- A machine that has frames and goes on keeps one of them. -/
theorem frames_ne_nil_of_moves {overrides : Overrides} {m m' : StackMachine}
    {ts : List (Turn StackMachine)} (hmoves : Moves overrides m ts m') (hframes : m.frames ≠ [])
    (hrunning : m'.state = .none) : m'.frames ≠ [] := by
  refine hmoves.keeps (fun m ↦ m.state = .none → m.frames ≠ []) (fun m t _ hturn hgoes ↦ ?_)
    (fun _ ↦ hframes) hrunning
  cases outcome_of_turn hturn with
  | empty => cases hgoes
  | undecodable => cases hgoes
  | completed hcompletes => exact hcompletes.frames_ne_nil hgoes
  | faulted => cases hgoes

end StackMachine

end ScriptTrace
