import ScriptTrace.Bytes

/-!
Where a byte string stops being UTF-8. `Utf8.fault` gives the length of the longest valid start and
of the invalid piece after it: the longest start of some character that stands there, at least one
byte, or none if the string ends inside a character that could still be completed.
-/

set_option autoImplicit false

namespace ScriptTrace.Utf8

/-- The first place where a byte string is not UTF-8. -/
structure Fault where
  /-- The number of bytes before it that are valid. -/
  validUpTo : Nat
  /-- The length of the invalid piece, absent when the string ends too early. -/
  invalidLength : Option Nat
deriving Repr, DecidableEq

/-- What a fault is called in messages. -/
def Fault.message (f : Fault) : String :=
  match f.invalidLength with
  | some n => s!"invalid utf-8 sequence of {n} bytes from index {f.validUpTo}"
  | none => s!"incomplete utf-8 byte sequence from index {f.validUpTo}"

/-- The bytes that may follow the first byte of a character: a range for the second byte and the
number of continuation bytes after it. -/
structure Lead where
  low : UInt8
  high : UInt8
  more : Nat

/-- What a first byte above 0x7F announces. -/
def lead? (b : UInt8) : Option Lead :=
  if 0xC2 ≤ b && b ≤ 0xDF then some ⟨0x80, 0xBF, 0⟩
  else if b == 0xE0 then some ⟨0xA0, 0xBF, 1⟩
  else if b == 0xED then some ⟨0x80, 0x9F, 1⟩
  else if 0xE1 ≤ b && b ≤ 0xEF then some ⟨0x80, 0xBF, 1⟩
  else if b == 0xF0 then some ⟨0x90, 0xBF, 2⟩
  else if 0xF1 ≤ b && b ≤ 0xF3 then some ⟨0x80, 0xBF, 2⟩
  else if b == 0xF4 then some ⟨0x80, 0x8F, 2⟩
  else none

/-- The state of a scan: between characters after `position` bytes, or inside a character that began
there, of which `seen` bytes stand and whose next byte lies between `low` and `high`, with `more`
continuation bytes after it. -/
inductive Scan where
  | between (position : Nat)
  | inside (position seen : Nat) (lead : Lead)

/-- The fault of the bytes still to be scanned, if any. -/
def scan : Scan → Bytes → Option Fault
  | .between _, [] => none
  | .inside position _ _, [] => some ⟨position, none⟩
  | .between position, b :: rest =>
    if b < 0x80 then scan (.between (position + 1)) rest
    else match lead? b with
      | none => some ⟨position, some 1⟩
      | some lead => scan (.inside position 1 lead) rest
  | .inside position seen lead, b :: rest =>
    if lead.low ≤ b && b ≤ lead.high then
      match lead.more with
      | 0 => scan (.between (position + seen + 1)) rest
      | more + 1 => scan (.inside position (seen + 1) ⟨0x80, 0xBF, more⟩) rest
    else some ⟨position, some seen⟩

/-- The first fault of a byte string; for a valid one the place of its end. -/
def fault (bs : Bytes) : Fault :=
  (scan (.between 0) bs).getD ⟨bs.length, none⟩

end ScriptTrace.Utf8
