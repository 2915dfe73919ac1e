import ScriptTrace.Bytes
import ScriptTrace.Text.Quoted

/-!
Hexadecimal text. `Bytes.hex` writes two lower-case digits a byte. Reading fills a byte string of a
length known beforehand and accepts both cases; of several faults it reports an odd number of
digits first, then a wrong number of digits, then the first byte that is no digit. Positions and
lengths count the bytes of the text in UTF-8.
-/

set_option autoImplicit false

namespace ScriptTrace

/-- Why a text is not the hexadecimal form of a byte string of the expected length. -/
inductive HexError where
  | oddLength
  | wrongLength
  | invalidDigit (byte : UInt8) (position : Nat)
deriving Repr, DecidableEq

/-- The byte that is no digit is shown as the character with its number. -/
def HexError.message : HexError → String
  | oddLength => "Odd number of digits"
  | wrongLength => "Invalid string length"
  | invalidDigit byte position =>
    "Invalid character " ++ Quoting.quoteChar (Char.ofNat byte.toNat) ++ " at position " ++
      toString position

/-- The lower-case digit of a number below sixteen. -/
def hexDigit (n : Nat) : Char :=
  if n < 10 then Char.ofNat (48 + n) else Char.ofNat (87 + n)

/-- The value of a digit of either case. -/
def hexValue? (b : UInt8) : Option UInt8 :=
  if 48 ≤ b && b ≤ 57 then some (b - 48)
  else if 97 ≤ b && b ≤ 102 then some (b - 87)
  else if 65 ≤ b && b ≤ 70 then some (b - 55)
  else none

namespace Bytes

/-- The digits of a byte string, high half first. -/
def hexDigits (bs : Bytes) : List Char :=
  bs.flatMap fun b => [hexDigit (b.toNat / 16), hexDigit (b.toNat % 16)]

/-- The lower-case hexadecimal text of a byte string. -/
def hex (bs : Bytes) : String := String.ofList (hexDigits bs)

/-- Read pairs of digits, the first of them at `position`. -/
def ofHexPairs (position : Nat) : Bytes → Except HexError Bytes
  | high :: low :: rest =>
    match hexValue? high, hexValue? low with
    | none, _ => .error (.invalidDigit high position)
    | some _, none => .error (.invalidDigit low (position + 1))
    | some h, some l => do
      let bs ← ofHexPairs (position + 2) rest
      .ok ((h * 16 + l) :: bs)
  | [b] => .error (.invalidDigit b position)
  | [] => .ok []

/-- The byte string of length `size` with these digits. -/
def ofHex (size : Nat) (digits : Bytes) : Except HexError Bytes :=
  if digits.length % 2 ≠ 0 then .error .oddLength
  else if digits.length / 2 ≠ size then .error .wrongLength
  else ofHexPairs 0 digits

end Bytes

end ScriptTrace
