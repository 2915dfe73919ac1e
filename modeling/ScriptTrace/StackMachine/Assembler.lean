import ScriptTrace.StackMachine.Instruction

/-!
Writing scripts for the stack machine. A script is assembled from statements, each of which stands
for one or a few instructions.
-/

set_option autoImplicit false

namespace ScriptTrace

/-- A statement of a script. -/
inductive Statement where
  /-- A bare opcode. -/
  | emit (opcode : UInt8)
  | pushData (data : Bytes)
  | jumpIf (offset : Int8)
  | enterTry
  /-- A system call by name. -/
  | syscall (name : String)
  /-- Log a text. -/
  | log (message : String)
  /-- Raise an event without items. -/
  | notify (eventName : String)
  /-- Call `main` of a deployed contract without arguments. -/
  | call (contract : Hash)

namespace Statement

/-- Push bytes, of which the length has eight bits. -/
def pushBytes (data : Bytes) : Bytes :=
  Opcode.pushData :: UInt8.ofNat data.length :: data

/-- Call a system call by name. -/
def callSystem (name : String) : Bytes :=
  Opcode.syscall :: Bytes.ofUInt32 (Syscall.hashOfName name)

/-- The bytes of a statement. -/
def bytes : Statement → Bytes
  | emit opcode => [opcode]
  | pushData data => pushBytes data
  | jumpIf offset => [Opcode.jumpIf, offset.toUInt8]
  | enterTry => [Opcode.enterTry, 0, 0]
  | syscall name => callSystem name
  | log message => pushBytes (Bytes.ofString message) ++ callSystem Syscall.log.name
  | notify eventName =>
    Opcode.newArray :: pushBytes (Bytes.ofString eventName) ++ callSystem Syscall.notify.name
  | call contract =>
    [Opcode.newArray, Opcode.pushFifteen] ++ pushBytes (Bytes.ofString "main") ++
      pushBytes contract.bytes ++ callSystem Syscall.call.name

end Statement

/-- The script with these statements. -/
def assemble (statements : List Statement) : Bytes := statements.flatMap Statement.bytes

end ScriptTrace
