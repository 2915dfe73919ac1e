import ScriptTrace.IoError

/-!
Paths as a tree of directories reads them. A path is a text of names divided by slashes, and slashes
in a row count as one. The names lead from directory to directory, `.` staying where it is and `..`
going up. The last name, unless it is one of these two, is that of an entry which may be missing
and which, with a slash behind it, must be a directory.
-/

set_option autoImplicit false

namespace ScriptTrace

/-- What a path means in the directory that its steps lead to. -/
inductive PathEnd where
  /-- The directory itself. -/
  | here
  /-- An entry of it; `slashed` if a slash follows the name. -/
  | entry (name : String) (slashed : Bool)
deriving DecidableEq, Repr

/-- A path from the root. -/
structure Path where
  steps : List String
  final : PathEnd
deriving DecidableEq, Repr

namespace Path

/-- The number of bytes that a name has at most. -/
def nameLimit : Nat := 255

/-- The number of bytes that the text of a path has at most. -/
def textLimit : Nat := 4095

def invalidFilename : IoError := ⟨.invalidFilename, "file name too long"⟩

/-- The names in a text. -/
def names (text : String) : List String := (text.splitOn "/").filter (· ≠ "")

/-- The path with these names. -/
def ofNames (names : List String) (slashed : Bool) : Path :=
  match names.getLast? with
  | none => ⟨[], .here⟩
  | some name =>
    if name = "." ∨ name = ".." then ⟨names, .here⟩ else ⟨names.dropLast, .entry name slashed⟩

/-- A text holds a path unless it has a NUL or is too long. -/
def check (text : String) : Except IoError Unit :=
  if text.any (· == '\x00') then .error ⟨.invalidInput, "file name contained a NUL"⟩
  else if text.utf8ByteSize > textLimit then .error invalidFilename
  else .ok ()

/-- The path a text holds. -/
def ofText (text : String) : Except IoError Path := do
  check text
  return ofNames (names text) (text.endsWith "/")

/-- The names that lead to what holds the last name, the last one first. -/
def above (text : String) : List String := ((names text).filter (· ≠ ".")).reverse.tail

end Path

end ScriptTrace
