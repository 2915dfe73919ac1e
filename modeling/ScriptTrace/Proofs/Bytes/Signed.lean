import ScriptTrace.Bytes.Signed
import ScriptTrace.Proofs.Bytes.Fixed

/-!
Two's complement in `k` bytes covers the integers from `-256 ^ k / 2` up to `256 ^ k / 2`, and
`signedWidth` is the least positive `k` that covers a given integer (`signedWidth_le_iff`). So
`ofInt` reads back (`toInt_ofInt`) and is the one shortest form of its value among the non-empty
ones (`ofInt_toInt_eq_iff`). The empty form of zero is shorter still and is never written.
-/

set_option autoImplicit false
set_option relaxedAutoImplicit false

namespace ScriptTrace.Bytes

theorem bitLength_le_iff (n k : Nat) : bitLength n ≤ k ↔ n < 2 ^ k := by
  unfold bitLength
  split
  · rename_i hzero
    subst hzero
    exact ⟨fun _ ↦ Nat.two_pow_pos k, fun _ ↦ Nat.zero_le k⟩
  · rename_i hpos
    rw [Nat.succ_le_iff, Nat.log2_lt hpos]

/-- The number whose significant bits decide the width of an integer. -/
def magnitude : Int → Nat
  | .ofNat n => n
  | .negSucc n => n

theorem signedWidth_eq (i : Int) : signedWidth i = bitLength (magnitude i) / 8 + 1 := by
  cases i <;> rfl

theorem two_pow_eight_mul (k : Nat) : 2 ^ (8 * k) = 256 ^ k := by
  rw [Nat.pow_mul]

theorem two_mul_magnitude_lt_iff (i : Int) (half : Nat) :
    magnitude i < half ↔ -(half : Int) ≤ i ∧ i < half := by
  cases i with
  | ofNat n =>
    simp only [magnitude, Int.ofNat_eq_natCast]
    omega
  | negSucc n =>
    simp only [magnitude]
    omega

/-- The integers that `k` bytes hold with their sign are those of width at most `k`. -/
theorem signedWidth_le_iff (i : Int) {k : Nat} (hk : 0 < k) :
    signedWidth i ≤ k ↔ -((256 ^ k : Nat) : Int) ≤ 2 * i ∧ 2 * i < (256 ^ k : Nat) := by
  obtain ⟨j, rfl⟩ : ∃ j, k = j + 1 := ⟨k - 1, by omega⟩
  have hhalf : 256 ^ (j + 1) = 2 * 2 ^ (8 * j + 7) := by
    rw [← two_pow_eight_mul, ← Nat.pow_succ']
    congr 1
  have hwidth : signedWidth i ≤ j + 1 ↔ bitLength (magnitude i) ≤ 8 * j + 7 := by
    rw [signedWidth_eq]
    omega
  rw [hwidth, bitLength_le_iff, two_mul_magnitude_lt_iff, hhalf]
  omega

theorem ofInt_eq (i : Int) :
    ofInt i = ofNat (signedWidth i) (i % (256 ^ signedWidth i : Nat)).toNat := rfl

theorem signedWidth_pos (i : Int) : 0 < signedWidth i := by
  rw [signedWidth_eq]
  omega

@[simp] theorem length_ofInt (i : Int) : (ofInt i).length = signedWidth i :=
  length_ofNat _ _

theorem ofInt_ne_nil (i : Int) : ofInt i ≠ [] := by
  intro hnil
  have hlength := length_ofInt i
  rw [hnil, List.length_nil] at hlength
  have hpos := signedWidth_pos i
  omega

theorem toInt_eq (bs : Bytes) :
    toInt bs = if 2 * toNat bs < 256 ^ bs.length then (toNat bs : Int)
      else (toNat bs : Int) - (256 ^ bs.length : Nat) := rfl

theorem toInt_bounds (bs : Bytes) :
    -((256 ^ bs.length : Nat) : Int) ≤ 2 * toInt bs ∧ 2 * toInt bs < (256 ^ bs.length : Nat) := by
  have hlt := toNat_lt bs
  rw [toInt_eq]
  split <;> omega

theorem toInt_ofInt (i : Int) : toInt (ofInt i) = i := by
  have hfits := (signedWidth_le_iff i (signedWidth_pos i)).mp (Nat.le_refl _)
  have hpos : (0 : Int) < (256 ^ signedWidth i : Nat) := by
    exact_mod_cast Nat.pow_pos (by decide : 0 < 256)
  have hnonneg := Int.emod_nonneg i (Int.ne_of_gt hpos)
  have hlt := Int.emod_lt_of_pos i hpos
  have hnat : toNat (ofInt i) = (i % (256 ^ signedWidth i : Nat)).toNat := by
    rw [ofInt_eq, toNat_ofNat, Nat.mod_eq_of_lt]
    omega
  rw [toInt_eq, hnat, length_ofInt]
  by_cases hneg : i < 0
  · -- a negative integer is held as its sum with the power
    have hmod : i % (256 ^ signedWidth i : Nat) = i + (256 ^ signedWidth i : Nat) := by
      rw [← Int.add_emod_right]
      exact Int.emod_eq_of_lt (by omega) (by omega)
    rw [hmod]
    split <;> omega
  · rw [Int.emod_eq_of_lt (by omega) (by omega)]
    split <;> omega

/-- Forms of one length are forms of different integers. -/
theorem eq_of_toInt_eq {first second : Bytes} (hlength : first.length = second.length)
    (hvalue : toInt first = toInt second) : first = second := by
  have hfirst := toNat_lt first
  have hsecond := toNat_lt second
  have hnat : toNat first = toNat second := by
    rw [toInt_eq, toInt_eq, hlength] at hvalue
    rw [hlength] at hfirst
    split at hvalue <;> split at hvalue <;> omega
  rw [← ofNat_toNat first, ← ofNat_toNat second, hlength, hnat]

theorem signedWidth_toInt_le {bs : Bytes} (hne : bs ≠ []) :
    signedWidth (toInt bs) ≤ bs.length :=
  (signedWidth_le_iff _ (List.length_pos_iff.mpr hne)).mpr (toInt_bounds bs)

theorem length_ofInt_toInt_le (bs : Bytes) : (ofInt (toInt bs)).length ≤ max 1 bs.length := by
  rw [length_ofInt]
  by_cases hne : bs = []
  · rw [hne]
    decide
  · exact Nat.le_trans (signedWidth_toInt_le hne) (Nat.le_max_right _ _)

/-- A form of an integer than which no other, apart from the empty form of zero, is shorter. -/
def IsShortest (bs : Bytes) : Prop :=
  bs ≠ [] ∧ ∀ other : Bytes, other ≠ [] → toInt other = toInt bs → bs.length ≤ other.length

theorem isShortest_ofInt (i : Int) : IsShortest (ofInt i) := by
  refine ⟨ofInt_ne_nil i, fun other hne hvalue ↦ ?_⟩
  rw [toInt_ofInt] at hvalue
  rw [length_ofInt, ← hvalue]
  exact signedWidth_toInt_le hne

/-- The shortest form of an integer is the one that is written. -/
theorem ofInt_toInt_eq_iff (bs : Bytes) : ofInt (toInt bs) = bs ↔ IsShortest bs := by
  constructor
  · intro heq
    rw [← heq]
    exact isShortest_ofInt _
  · rintro ⟨hne, hleast⟩
    refine eq_of_toInt_eq (Nat.le_antisymm ?_ ?_) (toInt_ofInt _)
    · rw [length_ofInt]
      exact signedWidth_toInt_le hne
    · exact hleast _ (ofInt_ne_nil _) (toInt_ofInt _)

/-- The shortest form of zero is one zero byte. -/
theorem eq_of_isShortest_of_toInt_eq_zero {bs : Bytes} (h : IsShortest bs) (hzero : toInt bs = 0) :
    bs = [0] := by
  rw [← (ofInt_toInt_eq_iff bs).mpr h, hzero]
  rfl

end ScriptTrace.Bytes
