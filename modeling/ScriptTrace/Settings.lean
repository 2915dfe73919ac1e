/-!
The parameters a session runs under.
-/

set_option autoImplicit false

namespace ScriptTrace

/-- The parameters of the network. -/
structure Settings where
  /-- The number that identifies the network. -/
  network : UInt32
  /-- The byte in front of addresses. -/
  addressVersion : UInt8
deriving DecidableEq, Repr

/-- The parameters of the main network. -/
def Settings.default : Settings := ⟨860833102, 53⟩

/-- How coverage is collected. -/
structure CoverageConfig where
  /-- The directory of session logs and script artifacts. -/
  outputDir : String
deriving DecidableEq, Repr

def CoverageConfig.default : CoverageConfig := ⟨".coverage"⟩

/-- How a trace is recorded. -/
structure TraceConfig where
  /-- Whether every step records the storage of the contracts on the call stack. -/
  captureStorage : Bool
deriving DecidableEq, Repr

def TraceConfig.default : TraceConfig := ⟨true⟩

end ScriptTrace
