import ScriptTrace.Codec.Error

/-!
Failures of an instrumented session. Faults of the virtual machine are not among them: they are part
of what a session records.
-/

set_option autoImplicit false

namespace ScriptTrace

/-- Why an operation of an instrumented session failed. -/
inductive TracerError where
  /-- A directory or file could not be created or written. -/
  | ioFailure (path : String) (source : IoError)
  /-- The session was used after it was closed. -/
  | sessionClosed
  /-- The machine reported an event without a current script. -/
  | unknownScriptState
  /-- A record could not be encoded or decoded. -/
  | codec (error : CodecError)
  /-- The destination of the records rejected one. -/
  | sink (error : IoError)
deriving DecidableEq, Repr

def TracerError.message : TracerError → String
  | ioFailure path source => "i/o failure on " ++ path ++ ": " ++ source.message
  | sessionClosed => "session already closed"
  | unknownScriptState => "lifecycle hook fired without a current script"
  | codec error => error.message
  | sink error => "trace sink failure: " ++ error.message

end ScriptTrace
