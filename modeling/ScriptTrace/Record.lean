import ScriptTrace.Hash
import ScriptTrace.Item

/-!
The records of an execution trace. Each record belongs to one of eight kinds, and the kind fixes the
discriminator and the number of fields written in front of it.
-/

set_option autoImplicit false

namespace ScriptTrace

/-- The execution state of a virtual machine. -/
inductive VmState where
  /-- Running, or not yet started. -/
  | none
  /-- Completed successfully. -/
  | halt
  /-- Stopped by an uncaught exception. -/
  | fault
  /-- Paused by a debugger. -/
  | break
deriving DecidableEq, Inhabited, Repr

namespace VmState

/-- The code of a state in a record. -/
def code : VmState → UInt8
  | none => 0
  | halt => 1
  | fault => 2
  | «break» => 4

/-- The state with this code. -/
def ofCode? (code : UInt8) : Option VmState :=
  if code = 0 then some none
  else if code = 1 then some halt
  else if code = 2 then some fault
  else if code = 4 then some «break»
  else Option.none

def name : VmState → String
  | none => "NONE"
  | halt => "HALT"
  | fault => "FAULT"
  | «break» => "BREAK"

theorem ofCode?_code (s : VmState) : ofCode? s.code = some s := by
  cases s <;> rfl

end VmState

/-- One call frame of the virtual machine, as recorded. -/
structure FrameRecord where
  /-- The hash of the script executing in the frame. -/
  scriptHash : Hash
  /-- The offset of the current instruction. -/
  instructionPointer : UInt32
  /-- Whether a try block is active. -/
  hasCatch : Bool
  evaluationStack : List Item
  localVariables : List Item
  staticFields : List Item
  arguments : List Item
deriving DecidableEq

/-- One entry of a contract's storage. -/
structure StorageEntry where
  key : Bytes
  value : Bytes
deriving DecidableEq

/-- The eight kinds of record. -/
inductive RecordKind where
  | trace
  | notify
  | log
  | results
  | fault
  | script
  | storage
  | settings
deriving DecidableEq, Repr

namespace RecordKind

/-- The discriminator written for a kind. -/
def discriminator : RecordKind → Int32
  | trace => 0
  | notify => 1
  | log => 2
  | results => 3
  | fault => 4
  | script => 5
  | storage => 6
  | settings => 7

/-- The kind with this discriminator. -/
def ofDiscriminator? (code : Int32) : Option RecordKind :=
  [trace, notify, log, results, fault, script, storage, settings].find? (·.discriminator = code)

/-- The number of fields of a record of this kind. -/
def fieldCount : RecordKind → UInt32
  | trace => 2
  | notify => 3
  | log => 2
  | results => 3
  | fault => 1
  | script => 2
  | storage => 2
  | settings => 2

def name : RecordKind → String
  | trace => "trace"
  | notify => "notify"
  | log => "log"
  | results => "results"
  | fault => "fault"
  | script => "script"
  | storage => "storage"
  | settings => "protocol-settings"

theorem ofDiscriminator?_discriminator (k : RecordKind) :
    ofDiscriminator? k.discriminator = some k := by
  cases k <;> rfl

end RecordKind

/-- One self-contained unit of an execution trace. -/
inductive Record where
  /-- The state of the machine and its whole call stack, top frame first. -/
  | trace (state : VmState) (frames : List FrameRecord)
  /-- An event raised by a contract. -/
  | notify (scriptHash : Hash) (eventName : String) (state : List Item)
  /-- A line logged by a contract. -/
  | log (scriptHash : Hash) (message : String)
  /-- The outcome of an execution that completed. -/
  | results (state : VmState) (gasConsumed : Int64) (resultStack : List Item)
  /-- The uncaught exception that stopped the machine. -/
  | fault (exception : String)
  /-- The code of a script that entered the call stack. -/
  | script (scriptHash : Hash) (code : Bytes)
  /-- The storage of a contract on the call stack. -/
  | storage (scriptHash : Hash) (entries : List StorageEntry)
  /-- The network parameters of the session. -/
  | settings (network : UInt32) (addressVersion : UInt8)
deriving DecidableEq

def Record.kind : Record → RecordKind
  | trace .. => .trace
  | notify .. => .notify
  | log .. => .log
  | results .. => .results
  | fault .. => .fault
  | script .. => .script
  | storage .. => .storage
  | settings .. => .settings

end ScriptTrace
