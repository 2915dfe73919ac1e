import ScriptTrace.Session

/-!
A machine that runs elsewhere. Its owner sets what it shows and reports its events; it never takes a
turn of its own, so running it only answers its state.
-/

set_option autoImplicit false

namespace ScriptTrace

/-- What a machine says of its current frame without regard to its call stack. Whatever is left open
is that of the top frame. -/
structure Position where
  hash : Option (Option Hash)
  pointer : Option (Option Nat)
  depth : Option Nat

/-- All of it is that of the top frame. -/
def Position.onTop : Position := ⟨none, none, none⟩

/-- A machine that runs elsewhere. -/
structure External where
  session : SessionId
  snapshot : Snapshot
  settings : Settings
  signers : List Hash
  /-- The call stack, top frame first. -/
  frames : List Context
  state : VmState
  gas : Int64
  results : List Item
  current : Position

namespace External

/-- A machine without frames. -/
def create (session : SessionId) (snapshot : Snapshot) (settings : Settings)
    (signers : List Hash) : External :=
  ⟨session, snapshot, settings, signers, [], .none, 0, [], .onTop⟩

def view (m : External) : View where
  session := m.session
  state := m.state
  gasConsumed := m.gas
  resultStack := m.results
  exception := none
  frames := m.frames
  depth := m.current.depth.getD m.frames.length
  currentHash := m.current.hash.getD (m.frames.head?.map (·.scriptHash))
  currentPointer := m.current.pointer.getD (m.frames.head?.map (·.instructionPointer))
  snapshot := m.snapshot
  settings := m.settings
  checkWitness hash := m.signers.contains hash

/-- Push a script as a new frame. -/
def load (code : Bytes) (m : External) : Turn External :=
  let frame : Context := ⟨code, Hash.ofScript code, 0, [], [], [], [], false⟩
  ⟨none, { m with frames := frame :: m.frames }, [.contextLoaded frame]⟩

instance : Machine External where
  view := view
  load := load
  turn _ _ := none

end External

end ScriptTrace
