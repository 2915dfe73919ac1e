import ScriptTrace.Storage

/-!
A writer in memory that may take only so many bytes in all and whose flushes may fail.
-/

set_option autoImplicit false

namespace ScriptTrace

/-- A stream that can be written and flushed. -/
structure Writer (σ : Type) where
  write : Bytes → IoAct σ Unit
  flush : IoAct σ Unit

/-- An open stream of a storage. -/
def Storage.writer {σ : Type} (fs : Storage σ) (h : Handle) : Writer σ where
  write bs := fs.write h bs
  flush := fs.flush h

/-- A writer in memory. -/
structure Pipe where
  /-- The bytes taken so far. -/
  taken : Bytes
  quota : Option Quota
  flushError : Option IoError
  /-- How often it was flushed. -/
  flushes : Nat

namespace Pipe

/-- A writer without limits. -/
def unlimited : Pipe := ⟨[], none, none, 0⟩

def write (bs : Bytes) : IoAct Pipe Unit := fun p =>
  match Quota.grant p.quota bs with
  | (granted, quota, none) => .ok () { p with taken := p.taken ++ granted, quota := quota }
  | (granted, quota, some e) => .error e { p with taken := p.taken ++ granted, quota := quota }

def flush : IoAct Pipe Unit := fun p =>
  match p.flushError with
  | none => .ok () { p with flushes := p.flushes + 1 }
  | some e => .error e { p with flushes := p.flushes + 1 }

/-- A pipe as a writer. -/
def writer : Writer Pipe := ⟨write, flush⟩

end Pipe

end ScriptTrace
