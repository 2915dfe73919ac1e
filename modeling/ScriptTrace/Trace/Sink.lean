import ScriptTrace.Act
import ScriptTrace.Codec.Encoder
import ScriptTrace.Error
import ScriptTrace.Session
import ScriptTrace.Storage.Pipe

/-!
Where the records of a trace go. A sink takes records and can be flushed; the name of the contract
that logs or notifies is not part of the record and is handed over beside it. `MemorySink` keeps the
records, `BinarySink` writes their encodings one after the other and counts those written whole.
-/

set_option autoImplicit false

namespace ScriptTrace

/-- A receiver of records. -/
structure Sink (τ : Type) where
  write : Record → EStateM TracerError τ Unit
  flush : EStateM TracerError τ Unit
  /-- Learn the contract name that belongs to the next log or notify record. -/
  nameContract : String → τ → τ

namespace Sink

variable {τ : Type} (sink : Sink τ)

/-- The parameters of the session. -/
def settings (s : Settings) : EStateM TracerError τ Unit :=
  sink.write (.settings s.network s.addressVersion)

/-- The code of a script. -/
def script (hash : Hash) (code : Bytes) : EStateM TracerError τ Unit :=
  sink.write (.script hash code)

/-- The state and the call stack, top frame first. -/
def trace (state : VmState) (frames : List FrameRecord) : EStateM TracerError τ Unit :=
  sink.write (.trace state frames)

/-- The storage of a contract. -/
def storages (hash : Hash) (entries : List StorageEntry) : EStateM TracerError τ Unit :=
  sink.write (.storage hash entries)

/-- A line logged by a contract of the given name. -/
def log (hash : Hash) (name message : String) : EStateM TracerError τ Unit := do
  modify (sink.nameContract name)
  sink.write (.log hash message)

/-- An event raised by a contract of the given name. -/
def notify (hash : Hash) (name eventName : String) (state : List Item) :
    EStateM TracerError τ Unit := do
  modify (sink.nameContract name)
  sink.write (.notify hash eventName state)

/-- The outcome of an execution. -/
def results (state : VmState) (gas : Int64) (stack : List Item) : EStateM TracerError τ Unit :=
  sink.write (.results state gas stack)

/-- An uncaught exception. -/
def fault (exception : String) : EStateM TracerError τ Unit :=
  sink.write (.fault exception)

end Sink

/-- The records and contract names received so far. -/
structure MemorySink where
  records : List Record
  names : List String

namespace MemorySink

def empty : MemorySink := ⟨[], []⟩

/-- A sink that keeps its records. -/
def sink : Sink MemorySink where
  write record := modify fun s => { s with records := s.records ++ [record] }
  flush := return ()
  nameContract name s := { s with names := s.names ++ [name] }

end MemorySink

/-- A writer and the number of records written to it. -/
structure BinarySink (τ : Type) where
  inner : τ
  written : Nat

namespace BinarySink

variable {τ : Type}

/-- An operation of the writer. -/
def onInner {ε α : Type} (x : EStateM ε τ α) : EStateM ε (BinarySink τ) α := fun s =>
  match x s.inner with
  | .ok a inner => .ok a { s with inner := inner }
  | .error e inner => .error e { s with inner := inner }

/-- A sink that writes encodings. -/
def sink (w : Writer τ) : Sink (BinarySink τ) where
  write record := do
    match record.encode with
    | .error e => throw (.codec e)
    | .ok bs =>
      onInner (failingWith TracerError.sink (w.write bs))
      modify fun s => { s with written := s.written + 1 }
  flush := onInner (failingWith TracerError.sink w.flush)
  nameContract _ s := s

end BinarySink

/-- Encode a record into a writer; a record that has no encoding writes nothing. -/
def Record.encodeInto {τ : Type} (w : Writer τ) (r : Record) : EStateM CodecError τ Unit := do
  match r.encode with
  | .error e => throw e
  | .ok bs => failingWith CodecError.io (w.write bs)

end ScriptTrace
