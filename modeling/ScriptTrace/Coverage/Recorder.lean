import ScriptTrace.Coverage.Writer
import ScriptTrace.Session

/-!
The observer that counts how often each instruction ran and writes the coverage log. An instruction
is counted when it is about to run, before its line is written. The outcome of a conditional branch
is written after the instruction that follows from it is known, provided that the machine is still
in the same frame.
-/

set_option autoImplicit false

namespace ScriptTrace

/-- A conditional branch whose outcome is not known yet. -/
structure PendingBranch where
  scriptHash : Hash
  position : Nat
  target : Nat
  depth : Nat

/-- What a coverage session has seen. -/
structure CoverageRecorder where
  writer : CoverageWriter
  /-- How often each instruction was about to run, by script and position. -/
  hits : Table (Hash × Nat) Nat
  /-- The scripts that entered the call stack. -/
  executed : Table Hash ExecutedScript
  pending : Option PendingBranch

namespace CoverageRecorder

variable {τ : Type} (fs : Storage τ)

/-- A recorder that has seen nothing. -/
def ofWriter (w : CoverageWriter) : CoverageRecorder := ⟨w, Table.empty, Table.empty, none⟩

/-- An operation of a recorder. -/
abbrev Recording (τ α : Type) := EStateM TracerError (CoverageRecorder × τ) α

/-- An operation of the writer of a recorder. -/
def onWriter {α : Type} (x : CoverageWriter.Recording τ α) : Recording τ α := fun (r, t) =>
  match x (r.writer, t) with
  | .ok a (w, t) => .ok a ({ r with writer := w }, t)
  | .error e (w, t) => .error e ({ r with writer := w }, t)

/-- How often the instruction at a position of a script was about to run. -/
def hitCount (r : CoverageRecorder) (hash : Hash) (position : Nat) : Nat :=
  (r.hits.get? (hash, position)).getD 0

/-- The positions of a script that were about to run, with their counts. -/
def hitMap (r : CoverageRecorder) (hash : Hash) : List (Nat × Nat) :=
  r.hits.entries.filterMap fun ((script, position), count) =>
    if script = hash then some (position, count) else none

/-- The scripts with positions that were about to run, in order of first appearance. -/
def hitScripts (r : CoverageRecorder) : List Hash :=
  r.hits.keys.foldl (fun seen (hash, _) => if hash ∈ seen then seen else seen ++ [hash]) []

/-- The deployed contract of a frame, or its bare code. -/
def resolve (view : View) (context : Context) : ExecutedScript :=
  match view.snapshot.contract? context.scriptHash with
  | some contract => .contract contract
  | none => .script context.scriptHash context.code

/-- A frame was pushed. -/
def loaded (view : View) (context : Context) : Recording τ Unit := do
  let (r, _) ← get
  let script := (r.executed.get? context.scriptHash).getD (resolve view context)
  modify fun (r, t) => ({ r with executed := r.executed.set context.scriptHash script }, t)
  onWriter (CoverageWriter.recordContext fs (some script))

/-- A frame was popped. -/
def unloaded (view : View) : Recording τ Unit := do
  match view.currentHash with
  | none => onWriter (CoverageWriter.recordContext fs none)
  | some hash =>
    let (r, _) ← get
    match r.executed.get? hash with
    | none => throw .unknownScriptState
    | some script => onWriter (CoverageWriter.recordContext fs (some script))

/-- An instruction is about to run. -/
def before (view : View) (i : Instruction) : Recording τ Unit := do
  match view.currentHash, view.currentPointer with
  | some hash, some position =>
    modify fun (r, t) =>
      ({ r with hits := r.hits.set (hash, position) (r.hitCount hash position + 1) }, t)
    onWriter (CoverageWriter.recordAddress fs position)
    let pending := i.branchTarget.map fun target => ⟨hash, position, target, view.depth⟩
    modify fun (r, t) => ({ r with pending := pending }, t)
  | _, _ => throw .unknownScriptState

/-- An instruction has run. -/
def after (view : View) : Recording τ Unit := do
  let (r, _) ← get
  modify fun (r, t) => ({ r with pending := none }, t)
  match r.pending with
  | none => return ()
  | some branch =>
    if view.depth ≠ branch.depth ∨ view.currentHash ≠ some branch.scriptHash then return ()
    else
      match view.currentPointer with
      | none => throw .unknownScriptState
      | some outcome =>
        onWriter (CoverageWriter.recordBranch fs branch.position branch.target outcome)

/-- The observer of a coverage session. -/
def observer : Observer (CoverageRecorder × τ) where
  notice view event :=
    match event with
    | .contextLoaded context => loaded fs view context
    | .contextUnloaded _ => unloaded fs view
    | .preExecute i => before fs view i
    | .postExecute _ => after fs view
    | .fault _ => modify fun (r, t) => ({ r with pending := none }, t)
    | .log _ => return ()
    | .notify _ => return ()

end CoverageRecorder

end ScriptTrace
