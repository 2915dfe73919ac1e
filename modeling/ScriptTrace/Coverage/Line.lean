import ScriptTrace.Hash

/-!
The lines of a coverage log. A line says which script became current, which instruction ran, or how
a conditional branch went; the zero hash says that control returned above the outermost frame. A
line is written in pieces, the last of which ends it.
-/

set_option autoImplicit false

namespace ScriptTrace

/-- A line of a coverage log. -/
inductive CoverageLine where
  /-- A script became current, or none for the zero hash. -/
  | current (hash : Hash)
  /-- The instruction at a position was about to run. -/
  | address (position : Nat)
  /-- The branch at a position, with its target and where the machine went. -/
  | branch (position target outcome : Nat)
deriving DecidableEq

namespace CoverageLine

/-- The pieces a line is written in. -/
def pieces : CoverageLine → List String
  | current hash => ["0x", Bytes.hex hash.bytes.reverse, "\n"]
  | address position => [toString position, "\n"]
  | branch position target outcome =>
    [toString position, " ", toString target, " ", toString outcome, "\n"]

/-- The bytes of a line. -/
def bytes (l : CoverageLine) : Bytes := l.pieces.flatMap Bytes.ofString

end CoverageLine

end ScriptTrace
