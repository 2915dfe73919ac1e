import ScriptTrace.Trace.Sink

/-!
A sink that keeps its records but rejects one write, and whose flushes are those of a pipe.
-/

set_option autoImplicit false

namespace ScriptTrace

/-- A sink that keeps records and may reject one. -/
structure FaultySink where
  records : List Record
  /-- The number of writes so far, the rejected one among them. -/
  writes : Nat
  /-- Which write is rejected, and why. -/
  rejects : Option (Nat × IoError)
  pipe : Pipe

namespace FaultySink

/-- Keep a record, unless it is the one to reject. -/
def write (record : Record) : EStateM TracerError FaultySink Unit := do
  let s ← get
  set { s with writes := s.writes + 1 }
  match s.rejects.filter fun r => r.1 == s.writes with
  | some (_, e) => throw (.sink e)
  | none => modify fun s => { s with records := s.records ++ [record] }

def flush : EStateM TracerError FaultySink Unit := fun s =>
  match Pipe.flush s.pipe with
  | .ok () pipe => .ok () { s with pipe := pipe }
  | .error e pipe => .error (.sink e) { s with pipe := pipe }

/-- The sink of such a state. -/
def sink : Sink FaultySink where
  write := write
  flush := flush
  nameContract _ s := s

end FaultySink

end ScriptTrace
