import ScriptTrace.Coverage.Recorder
import ScriptTrace.Engine

/-!
A session under coverage: an engine whose recorder counts instructions and writes the log of a
session directory. Disposing of it closes the log.
-/

set_option autoImplicit false

namespace ScriptTrace

/-- A session under coverage. -/
abbrev CoverageEngine (M τ : Type) := Engine M CoverageRecorder τ

namespace CoverageEngine

variable {M τ : Type} (fs : Storage τ)

/-- Observe a session, writing to the configured directory under a session name. -/
def start (config : CoverageConfig) (sessionName : String) (checker : Option WitnessChecker)
    (session : Session M τ) : EStateM TracerError τ (CoverageEngine M τ) := do
  let writer ← CoverageWriter.start fs config.outputDir sessionName
  return Engine.start (CoverageRecorder.observer fs) (.ofWriter writer) checker session

/-- The path of the log. -/
def logPath (e : CoverageEngine M τ) : String := e.recorder.writer.logPath

/-- Close the log. -/
def close : CoverageRecorder.Recording τ Unit := CoverageRecorder.onWriter (CoverageWriter.close fs)

/-- Stop observing and close the log. -/
def dispose : Engine.Act M CoverageRecorder τ Unit := Engine.dispose (close fs)

end CoverageEngine

end ScriptTrace
