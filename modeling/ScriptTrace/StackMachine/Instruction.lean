import ScriptTrace.Session
import ScriptTrace.Syscall

/-!
The instructions of the stack machine. An instruction is an opcode and an operand whose length the
opcode decides; past the end of a script stands an implicit return of size one. What an instruction
does is its `Operation`. A conditional branch counts its signed offset from its own opcode, and its
target is known only if it lies within the script or at its end.
-/

set_option autoImplicit false

namespace ScriptTrace

namespace Opcode

def pushTrue : UInt8 := 0x08
def pushFalse : UInt8 := 0x09
def pushData : UInt8 := 0x0C
/-- The first of the seventeen opcodes that push the numbers from 0 to 16. -/
def pushZero : UInt8 := 0x10
def pushFifteen : UInt8 := 0x1F
def pushSixteen : UInt8 := 0x20
def jumpIf : UInt8 := 0x24
def abort : UInt8 := 0x38
def enterTry : UInt8 := 0x3B
def ret : UInt8 := 0x40
def syscall : UInt8 := 0x41
def newArray : UInt8 := 0xC2

end Opcode

/-- Why the stack machine faults. -/
inductive ScriptFault where
  | truncatedPush
  | truncatedInstruction (position : Nat)
  | stackUnderflow
  | noCurrentFrame
  | noFrameToReturnFrom
  | jumpOutOfRange
  | aborted
  | unknownSyscall (hash : UInt32)
  | logText
  | eventName
  | notificationState (got : Item)
  | contractHash
  | unknownContract (hash : Hash)
  | witness (error : WitnessError)
  /-- A replaced system call answered with a fault. -/
  | override (message : String)

namespace ScriptFault

/-- A 32-bit number in eight hexadecimal digits. -/
def hexWord (n : UInt32) : String := "0x" ++ Bytes.hex (Bytes.ofUInt32 n).reverse

def message : ScriptFault → String
  | truncatedPush => "truncated PUSHDATA1"
  | truncatedInstruction position => s!"truncated instruction at {position}"
  | stackUnderflow => "evaluation stack underflow"
  | noCurrentFrame => "no current frame"
  | noFrameToReturnFrom => "no frame to return from"
  | jumpOutOfRange => "jump target out of range"
  | aborted => "ABORT is executed."
  | unknownSyscall hash => "syscall " ++ hexWord hash ++ " not found"
  | logText => "log message must be UTF-8"
  | eventName => "event name must be UTF-8"
  | notificationState got =>
    "notification state must be an array, got Some(" ++ got.describe ++ ")"
  | contractHash => "invalid contract hash"
  | unknownContract hash => "called contract " ++ hash.display ++ " does not exist"
  | witness error => error.message
  | override message => message

end ScriptFault

/-- What an instruction does. -/
inductive Operation where
  | push (item : Item)
  | jumpIf (target : Option Nat)
  | abort
  | enterTry
  | ret
  | syscall (hash : UInt32)
  | skip

namespace Instruction

/-- The return that stands past the end of every script. -/
def implicitReturn : Instruction := ⟨Opcode.ret, [], 1, none⟩

/-- The length of the operand that starts with the bytes in `rest`. -/
def operandLength (opcode : UInt8) (rest : Bytes) : Except ScriptFault Nat :=
  if opcode = Opcode.pushData then
    match rest with
    | [] => .error .truncatedPush
    | length :: _ => .ok (1 + length.toNat)
  else if opcode = Opcode.jumpIf then .ok 1
  else if opcode = Opcode.enterTry then .ok 2
  else if opcode = Opcode.syscall then .ok 4
  else .ok 0

/-- The target of a conditional branch at `position`, if it lies in a script of this length. -/
def jumpTarget (position length : Nat) (offset : UInt8) : Option Nat :=
  match (position : Int) + offset.toInt8.toInt with
  | .ofNat target => if target ≤ length then some target else none
  | .negSucc _ => none

/-- The instruction at a position of a script. -/
def decode (code : Bytes) (position : Nat) : Except ScriptFault Instruction :=
  match code.drop position with
  | [] => .ok implicitReturn
  | opcode :: rest => do
    let length ← operandLength opcode rest
    let operand := rest.take length
    if operand.length < length then .error (.truncatedInstruction position)
    else
      .ok {
        opcode := opcode
        operand := operand
        size := 1 + length
        branchTarget :=
          if opcode = Opcode.jumpIf then jumpTarget position code.length (operand.headD 0)
          else none }

/-- What an instruction does. -/
def operation (i : Instruction) : Operation :=
  if i.opcode = Opcode.pushTrue then .push (.boolean true)
  else if i.opcode = Opcode.pushFalse then .push (.boolean false)
  else if i.opcode = Opcode.pushData then .push (.byteString (i.operand.drop 1))
  else if Opcode.pushZero ≤ i.opcode ∧ i.opcode ≤ Opcode.pushSixteen then
    .push (.integer (i.opcode - Opcode.pushZero).toNat)
  else if i.opcode = Opcode.jumpIf then .jumpIf i.branchTarget
  else if i.opcode = Opcode.abort then .abort
  else if i.opcode = Opcode.enterTry then .enterTry
  else if i.opcode = Opcode.newArray then .push (.array [])
  else if i.opcode = Opcode.ret then .ret
  else if i.opcode = Opcode.syscall then .syscall (Bytes.toUInt32 i.operand)
  else .skip

end Instruction

end ScriptTrace
