import Mathlib.Algebra.Group.Nat.Defs
import ScriptTrace.Bytes

/-!
Reading and writing numbers of a fixed width, and texts, are inverse to each other in both
directions: no two byte strings of the width stand for one number, and no two byte strings for one
text.
-/

set_option autoImplicit false
set_option relaxedAutoImplicit false

namespace ScriptTrace.Bytes

theorem toNat_ofNat (width n : Nat) : toNat (ofNat width n) = n % 256 ^ width := by
  induction width generalizing n with
  | zero => simp [ofNat, Nat.mod_one]
  | succ width ih =>
    have hbyte : (UInt8.ofNat n).toNat = n % 256 := by simp
    rw [ofNat, toNat_cons, ih, hbyte, Nat.pow_succ, Nat.mul_comm (256 ^ width), Nat.mod_mul]

theorem toNat_lt (bs : Bytes) : toNat bs < 256 ^ bs.length := by
  induction bs with
  | nil => simp
  | cons b bs ih =>
    have hb : b.toNat < 256 := b.toNat_lt
    rw [toNat_cons, List.length_cons, Nat.pow_succ]
    omega

theorem ofNat_inj {width m n : Nat} (hm : m < 256 ^ width) (hn : n < 256 ^ width)
    (h : ofNat width m = ofNat width n) : m = n := by
  have hvalue := congrArg toNat h
  rwa [toNat_ofNat, toNat_ofNat, Nat.mod_eq_of_lt hm, Nat.mod_eq_of_lt hn] at hvalue

@[simp] theorem length_ofUInt32 (n : UInt32) : (ofUInt32 n).length = 4 := length_ofNat _ _

theorem toUInt32_ofUInt32 (n : UInt32) : toUInt32 (ofUInt32 n) = n := by
  have hlt : n.toNat < 256 ^ 4 := n.toNat_lt
  rw [toUInt32, ofUInt32, toNat_ofNat, Nat.mod_eq_of_lt hlt, UInt32.ofNat_toNat]

theorem ofUInt32_toUInt32 {bs : Bytes} (h : bs.length = 4) : ofUInt32 (toUInt32 bs) = bs := by
  have hlt := toNat_lt bs
  rw [h] at hlt
  rw [ofUInt32, toUInt32, UInt32.toNat_ofNat_of_lt' (show toNat bs < UInt32.size from hlt), ← h,
    ofNat_toNat]

theorem toInt32_ofInt32 (n : Int32) : toInt32 (ofInt32 n) = n := by
  rw [toInt32, ofInt32, toUInt32_ofUInt32]
  rfl

theorem ofInt32_toInt32 {bs : Bytes} (h : bs.length = 4) : ofInt32 (toInt32 bs) = bs :=
  ofUInt32_toUInt32 h

@[simp] theorem length_ofInt64 (n : Int64) : (ofInt64 n).length = 8 := length_ofNat _ _

theorem toInt64_ofInt64 (n : Int64) : toInt64 (ofInt64 n) = n := by
  have hlt : n.toUInt64.toNat < 256 ^ 8 := n.toUInt64.toNat_lt
  rw [toInt64, ofInt64, toNat_ofNat, Nat.mod_eq_of_lt hlt, UInt64.ofNat_toNat]
  rfl

theorem ofInt64_toInt64 {bs : Bytes} (h : bs.length = 8) : ofInt64 (toInt64 bs) = bs := by
  have hlt := toNat_lt bs
  rw [h] at hlt
  have hword : (UInt64.ofNat (toNat bs)).toInt64.toUInt64.toNat = toNat bs :=
    UInt64.toNat_ofNat_of_lt' (show toNat bs < UInt64.size from hlt)
  rw [ofInt64, toInt64, hword, ← h, ofNat_toNat]

theorem toString?_eq_some_iff (bs : Bytes) (s : String) :
    toString? bs = some s ↔ ofString s = bs := by
  unfold toString?
  constructor
  · intro h
    simp only [Option.dite_none_right_eq_some, Option.some.injEq] at h
    obtain ⟨hvalid, rfl⟩ := h
    simp [ofString]
  · rintro rfl
    simpa [ofString] using s.isValidUTF8

theorem ofString_append (s t : String) : ofString (s ++ t) = ofString s ++ ofString t := by
  simp [ofString]

theorem ofString_injective {s t : String} (h : ofString s = ofString t) : s = t := by
  have hs := (toString?_eq_some_iff _ s).mpr rfl
  have ht := (toString?_eq_some_iff _ t).mpr rfl
  rw [h, ht] at hs
  exact (Option.some.inj hs).symm

end ScriptTrace.Bytes
