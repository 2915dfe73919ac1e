import ScriptTrace.StackMachine.Instruction

/-!
A small stack machine. Each turn takes the instruction at the current position, charges one unit of
gas, moves the position behind it and performs it; what a faulting instruction took from the stack
stays taken. Returning from the outermost frame leaves its stack as the result and halts. System
calls log, notify, check witnesses and signatures, and call deployed contracts; a replaced system
call is handed its arguments and the view of the machine instead.
-/

set_option autoImplicit false

namespace ScriptTrace

/-- A call frame. -/
structure Frame where
  code : Bytes
  scriptHash : Hash
  position : Nat
  /-- The evaluation stack, top first. -/
  stack : List Item
  arguments : List Item
  hasCatch : Bool

/-- A frame as observers see it; its stack is listed from the bottom. -/
def Frame.context (f : Frame) : Context where
  code := f.code
  scriptHash := f.scriptHash
  instructionPointer := f.position
  evaluationStack := f.stack.reverse
  localVariables := []
  staticFields := []
  arguments := f.arguments
  hasCatch := f.hasCatch

/-- A stack machine. -/
structure StackMachine where
  session : SessionId
  snapshot : Snapshot
  settings : Settings
  signers : List Hash
  /-- The call stack, top frame first. -/
  frames : List Frame
  state : VmState
  /-- The number of instructions charged so far. -/
  gas : Nat
  results : List Item
  exception : Option String

namespace StackMachine

/-- A machine that has not run yet. -/
def create (session : SessionId) (snapshot : Snapshot) (settings : Settings)
    (signers : List Hash) : StackMachine :=
  ⟨session, snapshot, settings, signers, [], .none, 0, [], none⟩

/-- What observers see of the machine. -/
def view (m : StackMachine) : View where
  session := m.session
  state := m.state
  gasConsumed := Int64.ofNat m.gas
  resultStack := m.results
  exception := m.exception
  frames := m.frames.map Frame.context
  depth := m.frames.length
  currentHash := m.frames.head?.map (·.scriptHash)
  currentPointer := m.frames.head?.map (·.position)
  snapshot := m.snapshot
  settings := m.settings
  checkWitness hash := m.signers.contains hash

/-- A step of an instruction: it changes the machine and may fault. -/
abbrev Step (α : Type) := EStateM ScriptFault StackMachine α

/-- Push an item on the stack of the current frame. -/
def push (item : Item) : Step Unit := fun m =>
  match m.frames with
  | [] => .error .noCurrentFrame m
  | f :: rest => .ok () { m with frames := { f with stack := item :: f.stack } :: rest }

/-- Pop an item from the stack of the current frame. -/
def pop : Step Item := fun m =>
  match m.frames with
  | [] => .error .noCurrentFrame m
  | f :: rest =>
    match f.stack with
    | [] => .error .stackUnderflow m
    | item :: below => .ok item { m with frames := { f with stack := below } :: rest }

/-- Pop `count` items, in the order they are popped. -/
def popMany : Nat → Step (List Item)
  | 0 => return []
  | count + 1 => do
    let item ← pop
    let rest ← popMany count
    return item :: rest

/-- Change the current frame. -/
def modifyFrame (f : Frame → Frame) : Step Unit := fun m =>
  match m.frames with
  | [] => .error .noCurrentFrame m
  | top :: rest => .ok () { m with frames := f top :: rest }

/-- Push a frame at the start of a script. -/
def enter (code : Bytes) (hash : Hash) (arguments : List Item) (m : StackMachine) :
    StackMachine × List Event :=
  let frame : Frame := ⟨code, hash, 0, [], arguments, false⟩
  ({ m with frames := frame :: m.frames }, [.contextLoaded frame.context])

/-- Pop the current frame; its stack goes to its caller or becomes the result. -/
def leave : Step (List Event) := fun m =>
  match m.frames with
  | [] => .error .noFrameToReturnFrom m
  | [f] =>
    .ok [.contextUnloaded f.context]
      { m with frames := [], results := f.stack.reverse, state := .halt }
  | f :: caller :: rest =>
    .ok [.contextUnloaded f.context]
      { m with frames := { caller with stack := f.stack ++ caller.stack } :: rest }

/-- Go to the target if the popped item counts as true. -/
def jumpIf (target : Option Nat) : Step Unit := do
  let condition ← pop
  if condition.isTrue then
    match target with
    | none => throw .jumpOutOfRange
    | some t => modifyFrame fun f => { f with position := t }

/-- The hash of the current frame, zero without one. -/
def currentHash (m : StackMachine) : Hash := (m.frames.head?.map (·.scriptHash)).getD Hash.zero

/-- Report a line of text. -/
def log (argument : Item) : Step (List Event) := do
  match argument.bytes?.bind Bytes.toString? with
  | none => throw .logText
  | some message =>
    let m ← get
    return [.log ⟨m.session, m.currentHash, message⟩]

/-- Report a named event with the items of an array. -/
def notify (name state : Item) : Step (List Event) := do
  match name.bytes?.bind Bytes.toString? with
  | none => throw .eventName
  | some eventName =>
    match state with
    | .array items =>
      let m ← get
      return [.notify ⟨m.session, m.currentHash, eventName, items⟩]
    | other => throw (.notificationState other)

/-- Push whether the account of an argument has signed. -/
def checkWitness (argument : Item) : Step Unit := do
  match witnessTarget argument with
  | .error e => throw (.witness e)
  | .ok target =>
    let m ← get
    push (.boolean (m.signers.contains target))

/-- Call a deployed contract with the items of an array, or none. -/
def call (target arguments : Item) : Step (List Event) := do
  match target.bytes?.bind Hash.ofBytes? with
  | none => throw .contractHash
  | some hash =>
    let m ← get
    match m.snapshot.contract? hash with
    | none => throw (.unknownContract hash)
    | some contract =>
      let passed := match arguments with
        | .array items => items
        | _ => []
      let (m, events) := m.enter contract.code contract.hash passed
      set m
      return events

/-- Push whether an argument has the length of a signature. -/
def checkSignature (argument : Item) : Step Unit :=
  push (.boolean (argument.bytes?.any fun bs => bs.length == 64))

/-- Perform a system call on its arguments, the first one first. -/
def perform (s : Syscall) (arguments : List Item) : Step (List Event) :=
  match s, arguments with
  | .log, [message] => log message
  | .notify, [name, state] => notify name state
  | .checkWitness, [argument] => do
    checkWitness argument
    return []
  | .call, [target, _, _, arguments] => call target arguments
  | .checkSignature, [argument] => do
    checkSignature argument
    return []
  | _, _ => throw .stackUnderflow

/-- Run a system call, replaced or not. -/
def syscall (overrides : Overrides) (hash : UInt32) : Step (List Event) := do
  let known := Syscall.ofHash? hash
  let arguments ← popMany ((known.map Syscall.parameters).getD 0)
  match overrides.get? hash, known with
  | some handler, _ =>
    match handler (← get).view arguments with
    | .error message => throw (.override message)
    | .ok none => return []
    | .ok (some item) => do
      push item
      return []
  | none, none => throw (.unknownSyscall hash)
  | none, some s => perform s arguments

/-- Do what an instruction says, answering the events it is reported by. -/
def operate (overrides : Overrides) : Operation → Step (List Event)
  | .push item => do
    push item
    return []
  | .jumpIf target => do
    jumpIf target
    return []
  | .abort => throw .aborted
  | .enterTry => do
    modifyFrame fun f => { f with hasCatch := true }
    return []
  | .ret => leave
  | .syscall hash => syscall overrides hash
  | .skip => return []

/-- Stop with an exception. -/
def raise (fault : ScriptFault) (m : StackMachine) : StackMachine × List Event :=
  ({ m with state := .fault, exception := some fault.message }, [.fault fault.message])

/-- Charge an instruction and move the current frame behind it. -/
def charge (i : Instruction) (m : StackMachine) : StackMachine :=
  { m with
    gas := m.gas + 1
    frames := match m.frames with
      | [] => []
      | f :: rest => { f with position := f.position + i.size } :: rest }

/-- Run an instruction, answering the events after it. -/
def dispatch (overrides : Overrides) (i : Instruction) (m : StackMachine) :
    StackMachine × List Event :=
  match operate overrides i.operation (m.charge i) with
  | .ok events m => (m, events ++ [.postExecute i])
  | .error fault m => m.raise fault

/-- The next move of a machine that has not stopped. -/
def turn (overrides : Overrides) (m : StackMachine) : Option (Turn StackMachine) :=
  if m.state ≠ .none then none
  else
    match m.frames with
    | [] => some ⟨none, { m with state := .halt }, []⟩
    | f :: _ =>
      match Instruction.decode f.code f.position with
      | .error fault =>
        let (m, events) := m.raise fault
        some ⟨none, m, events⟩
      | .ok i =>
        let (next, events) := m.dispatch overrides i
        some ⟨some (.preExecute i), next, events⟩

/-- A stopped machine forgets its last run, but for the gas, before it loads another script. -/
def reset (m : StackMachine) : StackMachine :=
  if m.state = .halt ∨ m.state = .fault then
    { m with frames := [], results := [], exception := none, state := .none }
  else m

/-- Push a script as a new frame. -/
def load (code : Bytes) (m : StackMachine) : Turn StackMachine :=
  let (next, events) := m.reset.enter code (Hash.ofScript code) []
  ⟨none, next, events⟩

instance : Machine StackMachine where
  view := view
  load := load
  turn := turn

end StackMachine

end ScriptTrace
