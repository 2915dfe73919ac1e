import ScriptTrace.Act
import ScriptTrace.Error
import ScriptTrace.Record
import ScriptTrace.Settings
import ScriptTrace.Snapshot

/-!
A session of a virtual machine that can be observed. A machine is anything with a view, a way to
load a script and a way to take its next turn; the events of a turn are reported to the observers in
the order of their subscription, and the first observer that fails stops the session until it is
driven again. A turn reports one event before the machine moves and the others after it has moved,
so an observer decides at most whether a turn begins, never how it goes.
-/

set_option autoImplicit false

namespace ScriptTrace

/-- The number of a session, unique in a process. -/
structure SessionId where
  number : Nat
deriving DecidableEq, Repr

def SessionId.display (id : SessionId) : String := s!"session-{id.number}"

/-- One call frame as observers see it. -/
structure Context where
  code : Bytes
  /-- The hash of the contract, or of the script if it is not deployed. -/
  scriptHash : Hash
  instructionPointer : Nat
  evaluationStack : List Item
  localVariables : List Item
  staticFields : List Item
  arguments : List Item
  /-- Whether a try block is active. -/
  hasCatch : Bool

/-- The frame of a trace record, whose instruction pointer has 32 bits. -/
def Context.toRecord (c : Context) : FrameRecord where
  scriptHash := c.scriptHash
  instructionPointer := UInt32.ofNat c.instructionPointer
  hasCatch := c.hasCatch
  evaluationStack := c.evaluationStack
  localVariables := c.localVariables
  staticFields := c.staticFields
  arguments := c.arguments

/-- An instruction as observers see it. -/
structure Instruction where
  opcode : UInt8
  operand : Bytes
  /-- The encoded size with the opcode. -/
  size : Nat
  /-- Where a conditional branch goes if it is taken. -/
  branchTarget : Option Nat
deriving DecidableEq, Repr

/-- A line logged by a script. -/
structure LogEvent where
  sender : SessionId
  scriptHash : Hash
  message : String

/-- A notification raised by a script. -/
structure NotifyEvent where
  sender : SessionId
  scriptHash : Hash
  eventName : String
  state : List Item

/-- What happens in a session. -/
inductive Event where
  /-- A frame was pushed and is current. -/
  | contextLoaded (context : Context)
  /-- A frame was popped; its caller is current, if it has one. -/
  | contextUnloaded (context : Context)
  /-- An instruction is about to run. -/
  | preExecute (instruction : Instruction)
  /-- An instruction has run. -/
  | postExecute (instruction : Instruction)
  | fault (exception : String)
  | log (event : LogEvent)
  | notify (event : NotifyEvent)

/-- What observers and system calls see of a machine. -/
structure View where
  session : SessionId
  state : VmState
  gasConsumed : Int64
  resultStack : List Item
  /-- The exception that stopped the machine. -/
  exception : Option String
  /-- The call stack, top frame first. -/
  frames : List Context
  depth : Nat
  currentHash : Option Hash
  currentPointer : Option Nat
  snapshot : Snapshot
  settings : Settings
  /-- The machine's own judgement on witnesses. -/
  checkWitness : Hash → Bool

/-- A replacement of a system call: given the arguments, the first one first, it answers the item to
push, if any, or the text of a fault. -/
abbrev SyscallHandler := View → List Item → Except String (Option Item)

/-- The replaced system calls, by identity. -/
abbrev Overrides := Table UInt32 SyscallHandler

/-- A receiver of events with a state of its own. -/
structure Observer (σ : Type) where
  notice : View → Event → EStateM TracerError σ Unit

/-- The observer that only sees the second component of the state. -/
def Observer.onSecond {σ τ : Type} (o : Observer τ) : Observer (σ × τ) where
  notice view event := ScriptTrace.onSecond (o.notice view event)

/-- A move of a machine with the events it is reported by. -/
structure Turn (M : Type) where
  /-- Reported while the machine has not moved yet. -/
  before : Option Event
  /-- The machine after the move. -/
  next : M
  /-- Reported after the move, in this order. -/
  after : List Event

/-- A machine that can be observed. -/
class Machine (M : Type) where
  view : M → View
  /-- Push a script as a new frame. -/
  load : Bytes → M → Turn M
  /-- The next move, unless the machine has stopped. -/
  turn : Overrides → M → Option (Turn M)

/-- A machine with its observers and replaced system calls. -/
structure Session (M σ : Type) where
  machine : M
  /-- In the order of subscription. -/
  observers : List (Nat × Observer σ)
  nextSubscription : Nat
  overrides : Overrides

namespace Session

variable {M σ τ α : Type}

/-- A machine that nobody observes. -/
def ofMachine (m : M) : Session M σ := ⟨m, [], 1, Table.empty⟩

/-- Add an observer, answering the number of its subscription. -/
def subscribe (o : Observer σ) (s : Session M σ) : Nat × Session M σ :=
  (s.nextSubscription,
    { s with
      observers := s.observers ++ [(s.nextSubscription, o)]
      nextSubscription := s.nextSubscription + 1 })

/-- Remove an observer, answering whether it was there. -/
def unsubscribe (subscription : Nat) (s : Session M σ) : Bool × Session M σ :=
  (s.observers.any fun o => o.1 == subscription,
    { s with observers := s.observers.filter fun o => o.1 != subscription })

/-- Replace a system call. -/
def override (hash : UInt32) (handler : SyscallHandler) (s : Session M σ) : Session M σ :=
  { s with overrides := s.overrides.set hash handler }

/-- Undo a replacement, answering whether there was one. -/
def removeOverride (hash : UInt32) (s : Session M σ) : Bool × Session M σ :=
  (s.overrides.contains hash, { s with overrides := s.overrides.erase hash })

/-- The same session for observers with more state. -/
def widen (s : Session M τ) : Session M (σ × τ) :=
  { s with observers := s.observers.map fun o => (o.1, o.2.onSecond) }

/-- Report events to the observers, each event to all of them in turn. -/
def report (s : Session M σ) (view : View) (events : List Event) : EStateM TracerError σ Unit :=
  events.forM fun event => s.observers.forM fun o => o.2.notice view event

/-- Report events and go on with the same session. -/
def announce (view : View) (events : List Event) :
    EStateM TracerError (Session M σ × σ) Unit := do
  let (s, _) ← get
  onSecond (s.report view events)

variable [Machine M]

/-- Make a move: report what comes before it, move, report what comes after it. -/
def move (t : Turn M) : EStateM TracerError (Session M σ × σ) Unit := do
  let (s, _) ← get
  announce (Machine.view s.machine) t.before.toList
  modify fun (s, host) => ({ s with machine := t.next }, host)
  announce (Machine.view t.next) t.after

/-- Load a script. -/
def load (code : Bytes) : EStateM TracerError (Session M σ × σ) Unit := do
  let (s, _) ← get
  move (Machine.load code s.machine)

/-- One move, answering whether there was one. -/
def step : EStateM TracerError (Session M σ × σ) Bool := do
  let (s, _) ← get
  match Machine.turn s.overrides s.machine with
  | none => return false
  | some t => do
    move t
    return true

/-- Run until the machine stops, answering its state, or nothing when `budget` moves did not
suffice. -/
def execute (budget : Nat) : EStateM TracerError (Session M σ × σ) (Option VmState) := do
  match budget with
  | 0 => return none
  | budget + 1 =>
    if ← step then execute budget
    else
      let (s, _) ← get
      return some (Machine.view s.machine).state

end Session

end ScriptTrace
