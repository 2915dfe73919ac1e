import ScriptTrace.Coverage.Artifact
import ScriptTrace.Coverage.Line
import ScriptTrace.Error
import ScriptTrace.Storage
import ScriptTrace.Text.Quoted

/-!
The files of a coverage session. The log gets a line for everything that is recorded; the first time
a script becomes current it also gets a file of its own, unless one of that name exists. A file that
could not be written as a whole is removed again, so a later session does not take it for complete.
-/

set_option autoImplicit false

namespace ScriptTrace

/-- The writer of a coverage session. -/
structure CoverageWriter where
  directory : String
  /-- The random name of the session. -/
  sessionName : String
  logPath : String
  /-- The log, until it is closed. -/
  log : Option Handle
  /-- The scripts whose files were written or found. -/
  written : List Hash

namespace CoverageWriter

variable {τ : Type} (fs : Storage τ)

/-- An operation of a writer on its files. -/
abbrev Recording (τ α : Type) := EStateM TracerError (CoverageWriter × τ) α

/-- Report a failure on a path. -/
def failing {σ α : Type} (path : String) (x : IoAct σ α) : EStateM TracerError σ α :=
  failingWith (TracerError.ioFailure path) x

/-- Start a session of a given name in a directory, which is made if it is missing. -/
def start (directory sessionName : String) : EStateM TracerError τ CoverageWriter := do
  failing directory (fs.createDirectory directory)
  let logPath := joinPath directory (sessionName ++ ".neo-coverage")
  let log ← failing logPath (fs.createNew logPath)
  return ⟨directory, sessionName, logPath, some log, []⟩

def isClosed (w : CoverageWriter) : Bool := w.log.isNone

/-- Write a line to the log. -/
def writeLine (line : CoverageLine) : Recording τ Unit := do
  let (w, _) ← get
  match w.log with
  | none => throw .sessionClosed
  | some log =>
    onSecond (failing w.logPath (line.pieces.forM fun piece => fs.write log (Bytes.ofString piece)))

/-- Write the content of a new file, removing the file if that fails. -/
def writeNew (path : String) (file : Handle) (content : Bytes) : EStateM TracerError τ Unit := do
  let outcome ← attempt do
    fs.write file content
    fs.flush file
  modify (fs.release file)
  match outcome with
  | .ok () => return ()
  | .error e =>
    let _ ← attempt (fs.removeFile path)
    throw (.ioFailure path e)

/-- Write the file of a script unless it exists. -/
def writeArtifact (directory : String) (script : ExecutedScript) :
    EStateM TracerError τ Unit := do
  let path := joinPath directory script.fileName
  match ← attempt (fs.createNew path) with
  | .ok file => writeNew fs path file script.artifact
  | .error e => if e.kind = .alreadyExists then return () else throw (.ioFailure path e)

/-- Record which script became current; nothing means that control returned above the outermost
frame. -/
def recordContext (script : Option ExecutedScript) : Recording τ Unit := do
  match script with
  | none => writeLine fs (.current Hash.zero)
  | some s =>
    writeLine fs (.current s.hash)
    let (w, _) ← get
    unless w.written.contains s.hash do
      onSecond (writeArtifact fs w.directory s)
      modify fun (w, t) => ({ w with written := s.hash :: w.written }, t)

/-- Record that the instruction at a position is about to run. -/
def recordAddress (position : Nat) : Recording τ Unit :=
  writeLine fs (.address position)

/-- Record how a conditional branch went. -/
def recordBranch (position target outcome : Nat) : Recording τ Unit :=
  writeLine fs (.branch position target outcome)

/-- Flush the log and give it up, whatever comes of it. -/
def close : Recording τ Unit := do
  let (w, _) ← get
  match w.log with
  | none => throw .sessionClosed
  | some log =>
    modify fun (w, t) => ({ w with log := none }, t)
    let outcome ← onSecond (attempt (fs.flush log))
    modify fun (w, t) => (w, fs.release log t)
    match outcome with
    | .ok () => return ()
    | .error e => throw (.ioFailure w.logPath e)

/-- The text that stands for a writer in messages. -/
def describe (w : CoverageWriter) : String :=
  "CoverageWriter \x7b directory: " ++ Quoting.text.quote w.directory ++ ", session_id: " ++
    Quoting.text.quote w.sessionName ++ ", closed: " ++ toString w.isClosed ++ ", written: " ++
    toString w.written.length ++ " \x7d"

end CoverageWriter

end ScriptTrace
