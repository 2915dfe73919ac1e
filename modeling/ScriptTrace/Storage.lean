import ScriptTrace.Act
import ScriptTrace.Bytes
import ScriptTrace.IoError

/-!
Directories, files and streams as sessions use them. A `Storage` gives the operations on a state of
its own; streams are named by handles. A write takes its bytes as a whole or fails, in which case it
may have taken a part.
-/

set_option autoImplicit false

namespace ScriptTrace

/-- The name of an open stream. -/
abbrev Handle := Nat

/-- An operation on files or streams. -/
abbrev IoAct (σ α : Type) := EStateM IoError σ α

/-- Files and streams kept in a state. -/
structure Storage (σ : Type) where
  /-- Make a directory and those above it, unless they exist. -/
  createDirectory : String → IoAct σ Unit
  /-- Open a new file; a path that is taken is an error of kind `alreadyExists`. -/
  createNew : String → IoAct σ Handle
  /-- Open a file at its end, creating it if it is missing. -/
  openAppend : String → IoAct σ Handle
  removeFile : String → IoAct σ Unit
  /-- The content of a file. -/
  read : String → σ → Except IoError Bytes
  write : Handle → Bytes → IoAct σ Unit
  flush : Handle → IoAct σ Unit
  /-- Give a stream up without looking at the outcome. -/
  release : Handle → σ → σ

/-- Open a file, write pieces to it and give it up; a failure leaves it open. -/
def Storage.writePieces {σ : Type} (fs : Storage σ) (opening : IoAct σ Handle)
    (pieces : List Bytes) : IoAct σ Unit := do
  let file ← opening
  pieces.forM (fs.write file)
  fs.flush file
  modify (fs.release file)

/-- The path of an entry of a directory; an absolute name stands for itself. -/
def joinPath (directory name : String) : String :=
  if name.startsWith "/" then name
  else if directory.isEmpty || directory.endsWith "/" then directory ++ name
  else directory ++ "/" ++ name

/-- Where a stream stops taking bytes, and how it says so. -/
structure Quota where
  left : Nat
  error : IoError

/-- The part of a write that a stream takes: all of it without a quota, else what is left. The quota
after it and the failure, if any. Nothing to write is never refused. -/
def Quota.grant (quota : Option Quota) (bs : Bytes) : Bytes × Option Quota × Option IoError :=
  match quota with
  | none => (bs, none, none)
  | some q =>
    if bs.length ≤ q.left then (bs, some { q with left := q.left - bs.length }, none)
    else (bs.take q.left, some { q with left := 0 }, some q.error)

end ScriptTrace
