import ScriptTrace.Witness

/-!
A session that is instrumented by a recorder. The engine subscribes the recorder to the session and,
if it is given a predicate, lets that answer the witness checks. Disposing of the engine takes both
back and then closes what the recorder writes to, once; from then on the engine refuses to drive the
session.
-/

set_option autoImplicit false

namespace ScriptTrace

/-- A session with a recorder, whose state is `ρ`, over an outside state `τ`. The observers that the
session had before see the outside state only. -/
structure Engine (M ρ τ : Type) where
  session : Session M (ρ × τ)
  recorder : ρ
  /-- The subscription of the recorder, until the engine is disposed of. -/
  subscription : Option Nat
  /-- Whether witness checks are answered by a predicate. -/
  witnessOverride : Bool

namespace Engine

variable {M ρ τ α : Type}

/-- An operation of an engine. -/
abbrev Act (M ρ τ α : Type) := EStateM TracerError (Engine M ρ τ × τ) α

/-- Instrument a session. -/
def start (observer : Observer (ρ × τ)) (recorder : ρ) (checker : Option WitnessChecker)
    (session : Session M τ) : Engine M ρ τ :=
  let session : Session M (ρ × τ) := session.widen
  let session := match checker with
    | none => session
    | some c => session.overrideWitness c
  let (subscription, session) := session.subscribe observer
  ⟨session, recorder, some subscription, checker.isSome⟩

/-- An operation of the session underneath. -/
def onSession (x : EStateM TracerError (Session M (ρ × τ) × ρ × τ) α) : Act M ρ τ α :=
  fun (e, t) =>
    match x (e.session, e.recorder, t) with
    | .ok a (s, r, t) => .ok a ({ e with session := s, recorder := r }, t)
    | .error err (s, r, t) => .error err ({ e with session := s, recorder := r }, t)

def isDisposed (e : Engine M ρ τ) : Bool := e.subscription.isNone

/-- Fail if the engine is disposed of. -/
def ensureOpen : Act M ρ τ Unit := do
  let (e, _) ← get
  if e.isDisposed then throw .sessionClosed

/-- Load a script. -/
def load [Machine M] (code : Bytes) : Act M ρ τ Unit := do
  ensureOpen
  onSession (Session.load code)

/-- Run until the machine stops or `budget` moves are made. -/
def execute [Machine M] (budget : Nat) : Act M ρ τ (Option VmState) := do
  ensureOpen
  onSession (Session.execute budget)

/-- Stop observing, leave witness checks to the machine again, and `close` what the recorder writes
to. Only the first call does anything. -/
def dispose (close : EStateM TracerError (ρ × τ) Unit) : Act M ρ τ Unit := do
  let (e, _) ← get
  match e.subscription with
  | none => return ()
  | some subscription =>
    let session := (e.session.unsubscribe subscription).2
    let session := if e.witnessOverride then session.restoreWitness.2 else session
    modify fun (e, t) =>
      ({ e with session := session, subscription := none, witnessOverride := false }, t)
    onSession (onSecond close)

/-- Dispose of the engine without looking at the outcome. -/
def drop (close : EStateM TracerError (ρ × τ) Unit) (e : Engine M ρ τ) (t : τ) :
    Engine M ρ τ × τ :=
  match dispose close (e, t) with
  | .ok () s => s
  | .error _ s => s

end Engine

end ScriptTrace
