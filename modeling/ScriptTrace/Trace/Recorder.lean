import ScriptTrace.Trace.Names
import ScriptTrace.Trace.Sink

/-!
The observer that turns events into records. The first instruction of an invocation, or its failure
to decode, brings the preamble: the parameters, the scripts on the call stack from the outermost
frame up, and the state before anything ran. After every instruction comes the state again, followed
by the storage of each contract on the call stack if that is asked for. A script is announced when
it first enters the call stack of an invocation. An invocation ends with its results or its fault.
-/

set_option autoImplicit false

namespace ScriptTrace

/-- What a trace session knows of the running invocation. -/
structure TraceRecorder where
  session : SessionId
  names : NameCache
  config : TraceConfig
  /-- Whether the preamble of the invocation was begun. -/
  started : Bool
  /-- The scripts announced in the invocation. -/
  announced : List Hash

namespace TraceRecorder

variable {τ : Type} (sink : Sink τ)

/-- An operation of a recorder. -/
abbrev Recording (τ α : Type) := EStateM TracerError (TraceRecorder × τ) α

/-- Announce the script of a frame unless it was announced before. -/
def announce (context : Context) : Recording τ Unit := do
  let (r, _) ← get
  unless r.announced.contains context.scriptHash do
    modify fun (r, t) => ({ r with announced := context.scriptHash :: r.announced }, t)
    onSecond (sink.script context.scriptHash context.code)

/-- The hashes of frames, each where it occurs first. -/
def distinctHashes (frames : List Context) : List Hash :=
  frames.foldl (fun seen f => if seen.contains f.scriptHash then seen else seen ++ [f.scriptHash])
    []

/-- Record the state and, if asked for, the storage of the contracts on the call stack. -/
def emitTrace (view : View) : Recording τ Unit := do
  let (r, _) ← get
  onSecond (sink.trace view.state (view.frames.map Context.toRecord))
  if r.config.captureStorage then
    (distinctHashes view.frames).forM fun hash =>
      match view.snapshot.contract? hash with
      | none => return ()
      | some contract =>
        onSecond (sink.storages contract.hash (view.snapshot.storageOf contract.id))

/-- Begin an invocation. -/
def start (view : View) : Recording τ Unit := do
  modify fun (r, t) => ({ r with started := true }, t)
  onSecond (sink.settings view.settings)
  view.frames.reverse.forM (announce sink)
  emitTrace sink view

/-- Begin the invocation unless it has begun. -/
def ensureStarted (view : View) : Recording τ Unit := do
  let (r, _) ← get
  unless r.started do start sink view

/-- End an invocation. -/
def finish : Recording τ Unit :=
  modify fun (r, t) => ({ r with started := false, announced := [] }, t)

/-- The name of a contract. -/
def resolveName (view : View) (hash : Hash) : Recording τ String := do
  let (r, _) ← get
  let (name, names) := Id.run (r.names.resolve (fun h => pure (view.snapshot.contract? h)) hash)
  modify fun (r, t) => ({ r with names := names }, t)
  return name

/-- An instruction has run. -/
def after (view : View) : Recording τ Unit := do
  emitTrace sink view
  if view.state = .halt then
    onSecond (sink.results view.state view.gasConsumed view.resultStack)
    finish

/-- The machine faulted. -/
def faulted (view : View) (exception : String) : Recording τ Unit := do
  ensureStarted sink view
  onSecond (sink.fault exception)
  emitTrace sink view
  finish

/-- A script logged a line; lines of other sessions are ignored. -/
def logged (view : View) (event : LogEvent) : Recording τ Unit := do
  let (r, _) ← get
  if event.sender = r.session then
    let name ← resolveName view event.scriptHash
    onSecond (sink.log event.scriptHash name event.message)

/-- A script raised an event; events of other sessions are ignored. -/
def notified (view : View) (event : NotifyEvent) : Recording τ Unit := do
  let (r, _) ← get
  if event.sender = r.session then
    let name ← resolveName view event.scriptHash
    onSecond (sink.notify event.scriptHash name event.eventName event.state)

/-- The observer of a trace session. -/
def observer : Observer (TraceRecorder × τ) where
  notice view event :=
    match event with
    | .contextLoaded context => do
      let (r, _) ← get
      if r.started then announce sink context
    | .contextUnloaded _ => return ()
    | .preExecute _ => ensureStarted sink view
    | .postExecute _ => after sink view
    | .fault exception => faulted sink view exception
    | .log event => logged sink view event
    | .notify event => notified sink view event

end TraceRecorder

end ScriptTrace
