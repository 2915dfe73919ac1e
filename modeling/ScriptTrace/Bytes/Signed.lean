import ScriptTrace.Bytes

/-!
Integers of any size in two's complement, least significant byte first. The empty string stands for
zero. `Bytes.ofInt` gives the shortest string that reads back, a single zero byte for zero.
-/

set_option autoImplicit false

namespace ScriptTrace.Bytes

/-- The integer with these two's complement bytes. -/
def toInt (bs : Bytes) : Int :=
  let n := bs.toNat
  let covered := Nat.pow 256 bs.length
  if 2 * n < covered then n else (n : Int) - covered

/-- The number of significant bits of `n`. -/
def bitLength (n : Nat) : Nat := if n = 0 then 0 else n.log2 + 1

/-- The fewest bytes that hold `i` with its sign bit. -/
def signedWidth (i : Int) : Nat :=
  (match i with
    | .ofNat n => bitLength n
    | .negSucc n => bitLength n) / 8 + 1

/-- The shortest two's complement bytes of an integer. -/
def ofInt (i : Int) : Bytes :=
  let width := signedWidth i
  ofNat width (i % Nat.pow 256 width).toNat

end ScriptTrace.Bytes
