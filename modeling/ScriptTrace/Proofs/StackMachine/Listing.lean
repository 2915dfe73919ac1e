import ScriptTrace.Proofs.Bytes.Fixed
import ScriptTrace.Proofs.StackMachine.Positions
import ScriptTrace.StackMachine.Assembler

/-!
Listings of scripts. An assembled script is decoded from its start, each instruction where the one
before it ends (`Instruction.sweep`), into the instructions its statements stand for: the assembler
writes the operands that the decoder expects behind an opcode. One instruction of the wrong length
would move all that follow it; the induction is on the instructions, with any bytes in front.
-/

set_option autoImplicit false
set_option relaxedAutoImplicit false

namespace ScriptTrace

/-- An instruction as it is written in a script. -/
structure Encoding where
  opcode : UInt8
  operand : Bytes
deriving DecidableEq

namespace Encoding

/-- The bytes of an instruction. -/
def bytes (e : Encoding) : Bytes := e.opcode :: e.operand

/-- An opcode without an operand. -/
def bare (opcode : UInt8) : Encoding := ⟨opcode, []⟩

/-- Push bytes, which stand behind their length. -/
def push (data : Bytes) : Encoding := ⟨Opcode.pushData, UInt8.ofNat data.length :: data⟩

/-- Call a system call by the hash of its name. -/
def system (name : String) : Encoding :=
  ⟨Opcode.syscall, Bytes.ofUInt32 (Syscall.hashOfName name)⟩

/-- The operand has the length that is read behind the opcode, whatever follows it. -/
def Sound (e : Encoding) : Prop :=
  ∀ rest, Instruction.operandLength e.opcode (e.operand ++ rest) = .ok e.operand.length

theorem Sound.bare {opcode : UInt8} (hbare : opcode ∉
    [Opcode.pushData, Opcode.jumpIf, Opcode.enterTry, Opcode.syscall]) : (bare opcode).Sound := by
  simp only [List.mem_cons, List.not_mem_nil, or_false, not_or] at hbare
  obtain ⟨hpush, hjump, htry, hsyscall⟩ := hbare
  intro rest
  show Instruction.operandLength opcode rest = .ok 0
  unfold Instruction.operandLength
  rw [if_neg hpush, if_neg hjump, if_neg htry, if_neg hsyscall]

theorem Sound.push {data : Bytes} (hlength : data.length ≤ 255) : (push data).Sound := by
  intro rest
  have hbyte : (UInt8.ofNat data.length).toNat = data.length := UInt8.toNat_ofNat_of_lt' (by
    rw [UInt8.size]
    omega)
  show Except.ok (1 + (UInt8.ofNat data.length).toNat) = Except.ok (data.length + 1)
  rw [hbyte, Nat.add_comm]

theorem Sound.system (name : String) : (system name).Sound := by
  intro rest
  show Except.ok 4 = Except.ok (Bytes.ofUInt32 (Syscall.hashOfName name)).length
  rw [Bytes.length_ofUInt32]

end Encoding

namespace Instruction

/-- An instruction without its place in a script. -/
def encoding (i : Instruction) : Encoding := ⟨i.opcode, i.operand⟩

theorem size_pos_of_decode {code : Bytes} {position : Nat} {i : Instruction}
    (hdecode : decode code position = .ok i) : 0 < i.size := by
  cases hdrop : code.drop position with
  | nil =>
    rw [decode_of_length_le (List.drop_eq_nil_iff.mp hdrop)] at hdecode
    rw [← Except.ok.inj hdecode]
    exact Nat.one_pos
  | cons opcode rest =>
    obtain ⟨length, -, hsize, -⟩ := eq_of_decode hdrop hdecode
    omega

/-- The instructions of a script from a position on, and where they end: each is decoded at the end
of the one before it, until the script is used up. -/
def sweep (code : Bytes) (position : Nat) : Except ScriptFault (List Instruction × Nat) :=
  if _hlt : position < code.length then
    match _hdecode : decode code position with
    | .error fault => .error fault
    | .ok i =>
      match sweep code (position + i.size) with
      | .error fault => .error fault
      | .ok (rest, last) => .ok (i :: rest, last)
  else .ok ([], position)
termination_by code.length - position
decreasing_by
  have hpos := size_pos_of_decode _hdecode
  omega

theorem sweep_of_length_le {code : Bytes} {position : Nat} (hle : code.length ≤ position) :
    sweep code position = .ok ([], position) := by
  rw [sweep, dif_neg (Nat.not_lt_of_le hle)]

theorem sweep_of_decode {code : Bytes} {position : Nat} {i : Instruction}
    (hlt : position < code.length) (hdecode : decode code position = .ok i)
    {rest : List Instruction} {last : Nat}
    (hrest : sweep code (position + i.size) = .ok (rest, last)) :
    sweep code position = .ok (i :: rest, last) := by
  rw [sweep, dif_pos hlt]
  split
  · rename_i fault hfault
    rw [hdecode] at hfault
    cases hfault
  · rename_i j hj
    obtain rfl := Except.ok.inj (hdecode.symm.trans hj)
    rw [hrest]

/-- Assumes: the operand has the length that is read behind the opcode. An instruction is decoded
where it is written. -/
theorem decode_append {e : Encoding} (he : e.Sound) (front rest : Bytes) :
    ∃ i, decode (front ++ (e.bytes ++ rest)) front.length = .ok i ∧ i.encoding = e ∧
      i.size = e.bytes.length := by
  have hlong : ¬ ((e.operand ++ rest).take e.operand.length).length < e.operand.length := by
    simp
  unfold decode
  rw [List.drop_left, Encoding.bytes, List.cons_append]
  simp only [he rest, bind, Except.bind]
  rw [if_neg hlong]
  refine ⟨_, rfl, ?_, ?_⟩
  · rw [encoding, List.take_left]
  · rw [List.length_cons, Nat.add_comm]

/-- Assumes: each operand has the length that is read behind its opcode. Instructions are swept as
they are written, behind any bytes. -/
theorem sweep_append {es : List Encoding} (hes : ∀ e ∈ es, e.Sound) (front : Bytes) :
    ∃ listing, listing.map encoding = es ∧
      sweep (front ++ es.flatMap Encoding.bytes) front.length =
        .ok (listing, (front ++ es.flatMap Encoding.bytes).length) := by
  induction es generalizing front with
  | nil =>
    refine ⟨[], rfl, ?_⟩
    rw [List.flatMap_nil, List.append_nil]
    exact sweep_of_length_le (Nat.le_refl _)
  | cons e es ih =>
    obtain ⟨he, hrest⟩ := List.forall_mem_cons.mp hes
    obtain ⟨i, hdecode, hencoding, hsize⟩ :=
      decode_append he front (es.flatMap Encoding.bytes)
    obtain ⟨listing, hlisting, hsweep⟩ := ih hrest (front ++ e.bytes)
    rw [List.append_assoc, List.length_append, ← hsize] at hsweep
    have hlt : front.length < (front ++ (e.bytes ++ es.flatMap Encoding.bytes)).length := by
      simp [Encoding.bytes]
    refine ⟨i :: listing, ?_, ?_⟩
    · rw [List.map_cons, hencoding, hlisting]
    · rw [List.flatMap_cons]
      exact sweep_of_decode hlt hdecode hsweep

end Instruction

namespace Statement

/-- The instructions a statement stands for. -/
def encodings : Statement → List Encoding
  | emit opcode => [.bare opcode]
  | pushData data => [.push data]
  | jumpIf offset => [⟨Opcode.jumpIf, [offset.toUInt8]⟩]
  | enterTry => [⟨Opcode.enterTry, [0, 0]⟩]
  | syscall name => [.system name]
  | log message => [.push (Bytes.ofString message), .system Syscall.log.name]
  | notify eventName =>
    [.bare Opcode.newArray, .push (Bytes.ofString eventName), .system Syscall.notify.name]
  | call contract =>
    [.bare Opcode.newArray, .bare Opcode.pushFifteen, .push (Bytes.ofString "main"),
      .push contract.bytes, .system Syscall.call.name]

/-- A bare opcode takes no operand, and the length of pushed data is a byte. -/
def Encodable : Statement → Prop
  | emit opcode => opcode ∉ [Opcode.pushData, Opcode.jumpIf, Opcode.enterTry, Opcode.syscall]
  | pushData data => data.length ≤ 255
  | log message => (Bytes.ofString message).length ≤ 255
  | notify eventName => (Bytes.ofString eventName).length ≤ 255
  | jumpIf _ | enterTry | syscall _ | call _ => True

instance : (s : Statement) → Decidable s.Encodable
  | emit opcode => inferInstanceAs <| Decidable <|
      opcode ∉ [Opcode.pushData, Opcode.jumpIf, Opcode.enterTry, Opcode.syscall]
  | pushData data => inferInstanceAs (Decidable (data.length ≤ 255))
  | log message => inferInstanceAs (Decidable ((Bytes.ofString message).length ≤ 255))
  | notify eventName => inferInstanceAs (Decidable ((Bytes.ofString eventName).length ≤ 255))
  | jumpIf _ | enterTry | syscall _ | call _ => inferInstanceAs (Decidable True)

theorem bytes_eq (s : Statement) : s.bytes = s.encodings.flatMap Encoding.bytes := by
  cases s <;> simp [bytes, encodings, pushBytes, callSystem, Encoding.bytes, Encoding.bare,
    Encoding.push, Encoding.system]

theorem assemble_eq (statements : List Statement) :
    assemble statements = (statements.flatMap encodings).flatMap Encoding.bytes := by
  rw [assemble, List.flatMap_assoc, funext bytes_eq]

/-- Assumes: the assembler has room for the statement. Each of its instructions has the operand that
is read behind its opcode. -/
theorem sound_of_mem_encodings {s : Statement} (hs : s.Encodable) :
    ∀ e ∈ s.encodings, e.Sound := by
  have hjump (offset : UInt8) : (Encoding.mk Opcode.jumpIf [offset]).Sound := fun _ ↦ rfl
  have htry : (Encoding.mk Opcode.enterTry [0, 0]).Sound := fun _ ↦ rfl
  have hnewArray : (Encoding.bare Opcode.newArray).Sound := .bare (by decide)
  cases s with
  | emit opcode => simpa [encodings] using Encoding.Sound.bare hs
  | pushData data => simpa [encodings] using Encoding.Sound.push hs
  | jumpIf offset => simpa [encodings] using hjump _
  | enterTry => simpa [encodings] using htry
  | syscall name => simpa [encodings] using Encoding.Sound.system name
  | log message => simpa [encodings] using ⟨Encoding.Sound.push hs, Encoding.Sound.system _⟩
  | notify eventName =>
    simpa [encodings] using ⟨hnewArray, Encoding.Sound.push hs, Encoding.Sound.system _⟩
  | call contract =>
    have hcontract : (Encoding.push contract.bytes).Sound := Encoding.Sound.push (by
      rw [contract.length_bytes]
      decide)
    simpa [encodings] using ⟨hnewArray, .bare (by decide), .push (by decide), hcontract,
      Encoding.Sound.system _⟩

/-- Assumes: the assembler has room for each statement.

An assembled script is decoded from its start, each instruction at the end of the one before it,
without a fault: into the instructions its statements stand for, in order, with their opcodes and
operands. They end where the script ends, and there stands the implicit return. -/
theorem sweep_assemble {statements : List Statement} (hstatements : ∀ s ∈ statements, s.Encodable) :
    (∃ listing, Instruction.sweep (assemble statements) 0 =
        .ok (listing, (assemble statements).length) ∧
      listing.map Instruction.encoding = statements.flatMap encodings) ∧
    Instruction.decode (assemble statements) (assemble statements).length =
      .ok Instruction.implicitReturn := by
  constructor
  · have hsound : ∀ e ∈ statements.flatMap encodings, e.Sound := by
      intro e he
      obtain ⟨s, hs, hes⟩ := List.mem_flatMap.mp he
      exact sound_of_mem_encodings (hstatements s hs) e hes
    obtain ⟨listing, hlisting, hsweep⟩ := Instruction.sweep_append hsound []
    rw [List.nil_append, ← assemble_eq] at hsweep
    exact ⟨listing, hsweep, hlisting⟩
  · exact Instruction.decode_of_length_le (Nat.le_refl _)

/-- A script that pushes bytes which are opcodes too, branches back and calls a system call. -/
theorem sweep_assemble_pushed_opcodes :
    ∃ listing, Instruction.sweep
        (assemble [.pushData [Opcode.pushData, Opcode.ret], .jumpIf (-4), .enterTry, .log "hi",
          .emit Opcode.abort]) 0 = .ok (listing, 19) ∧
      listing.map Instruction.encoding =
        [⟨Opcode.pushData, [2, Opcode.pushData, Opcode.ret]⟩, ⟨Opcode.jumpIf, [0xFC]⟩,
          ⟨Opcode.enterTry, [0, 0]⟩, ⟨Opcode.pushData, [2, 0x68, 0x69]⟩,
          .system Syscall.log.name, ⟨Opcode.abort, []⟩] := by
  have hencodable : ∀ s ∈ [Statement.pushData [Opcode.pushData, Opcode.ret], .jumpIf (-4),
      .enterTry, .log "hi", .emit Opcode.abort], s.Encodable := by decide
  exact (sweep_assemble hencodable).1

end Statement

end ScriptTrace
