/-!
Byte strings and the fixed-width numbers written in them. Every number in a trace record, a contract
package or a syscall operand is little-endian: `ofNat width n` is the low `width` bytes of `n`,
least significant first, and `toNat` reads any byte string back, from which `ofNat` gives the string
again (`ofNat_toNat`).
-/

set_option autoImplicit false

namespace ScriptTrace

/-- A finite sequence of bytes. -/
abbrev Bytes := List UInt8

namespace Bytes

/-- The low `width` bytes of `n`, least significant first. -/
def ofNat : Nat → Nat → Bytes
  | 0, _ => []
  | width + 1, n => UInt8.ofNat n :: ofNat width (n / 256)

/-- The number whose bytes these are, least significant first. -/
def toNat (bs : Bytes) : Nat :=
  bs.foldr (fun b n => b.toNat + 256 * n) 0

@[simp] theorem toNat_nil : toNat [] = 0 := rfl

@[simp] theorem toNat_cons (b : UInt8) (bs : Bytes) :
    toNat (b :: bs) = b.toNat + 256 * toNat bs := rfl

@[simp] theorem length_ofNat (width n : Nat) : (ofNat width n).length = width := by
  induction width generalizing n with
  | zero => rfl
  | succ width ih => simp [ofNat, ih]

theorem ofNat_toNat (bs : Bytes) : ofNat bs.length (toNat bs) = bs := by
  induction bs with
  | nil => rfl
  | cons b bs ih =>
    have hb : b.toNat < 256 := b.toNat_lt
    have hlow : UInt8.ofNat (b.toNat + 256 * toNat bs) = b := by
      apply UInt8.toNat_inj.mp
      simp
    have hhigh : (b.toNat + 256 * toNat bs) / 256 = toNat bs := by omega
    rw [List.length_cons, toNat_cons, ofNat, hlow, hhigh, ih]

/-- The four bytes of a 32-bit number. -/
def ofUInt32 (n : UInt32) : Bytes := ofNat 4 n.toNat

/-- The 32-bit number in these bytes. -/
def toUInt32 (bs : Bytes) : UInt32 := UInt32.ofNat bs.toNat

/-- The four bytes of a signed 32-bit number. -/
def ofInt32 (n : Int32) : Bytes := ofUInt32 n.toUInt32

/-- The signed 32-bit number in these bytes. -/
def toInt32 (bs : Bytes) : Int32 := bs.toUInt32.toInt32

/-- The eight bytes of a signed 64-bit number. -/
def ofInt64 (n : Int64) : Bytes := ofNat 8 n.toUInt64.toNat

/-- The signed 64-bit number in these bytes. -/
def toInt64 (bs : Bytes) : Int64 := (UInt64.ofNat bs.toNat).toInt64

/-- The UTF-8 bytes of a text. -/
def ofString (s : String) : Bytes := s.toUTF8.data.toList

/-- The text with these UTF-8 bytes, if they are UTF-8. -/
def toString? (bs : Bytes) : Option String :=
  let packed := ByteArray.mk bs.toArray
  if h : packed.IsValidUTF8 then some (String.ofByteArray packed h) else none

end Bytes

end ScriptTrace
