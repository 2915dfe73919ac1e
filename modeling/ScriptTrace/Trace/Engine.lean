import ScriptTrace.Engine
import ScriptTrace.Trace.Recorder

/-!
A session under trace: an engine whose recorder turns events into the records of a sink. Disposing
of it flushes the sink.
-/

set_option autoImplicit false

namespace ScriptTrace

/-- A session under trace. -/
abbrev TraceEngine (M τ : Type) := Engine M TraceRecorder τ

namespace TraceEngine

variable {M τ : Type} (sink : Sink τ)

/-- Observe a session, with the names of contracts known so far. -/
def start [Machine M] (config : TraceConfig) (names : NameCache) (checker : Option WitnessChecker)
    (session : Session M τ) : TraceEngine M τ :=
  Engine.start (TraceRecorder.observer sink)
    ⟨(Machine.view session.machine).session, names, config, false, []⟩ checker session

/-- Flush the sink. -/
def close : TraceRecorder.Recording τ Unit := onSecond sink.flush

/-- Stop observing and flush the sink. -/
def dispose : Engine.Act M TraceRecorder τ Unit := Engine.dispose (close sink)

end TraceEngine

end ScriptTrace
