import ScriptTrace.Bytes.Hex

/-!
Byte strings have different digits, and no other characters than letters and digits stand in them.
-/

set_option autoImplicit false
set_option relaxedAutoImplicit false

namespace ScriptTrace

theorem hexDigit_inj {m n : Nat} (hm : m < 16) (hn : n < 16) (h : hexDigit m = hexDigit n) :
    m = n := by
  have hall : ∀ m n : Fin 16, hexDigit m = hexDigit n → m = n := by decide
  exact Fin.mk.inj_iff.mp (hall ⟨m, hm⟩ ⟨n, hn⟩ h)

theorem isAlphanum_hexDigit {n : Nat} (hn : n < 16) : (hexDigit n).isAlphanum = true := by
  have hall : ∀ n : Fin 16, (hexDigit n).isAlphanum = true := by decide
  exact hall ⟨n, hn⟩

namespace Bytes

theorem hexDigits_cons (b : UInt8) (bs : Bytes) :
    hexDigits (b :: bs) = hexDigit (b.toNat / 16) :: hexDigit (b.toNat % 16) :: hexDigits bs := rfl

theorem hexDigits_injective {bs cs : Bytes} (h : hexDigits bs = hexDigits cs) : bs = cs := by
  induction bs generalizing cs with
  | nil =>
    cases cs with
    | nil => rfl
    | cons c cs => exact absurd h (by simp [hexDigits])
  | cons b bs ih =>
    cases cs with
    | nil => exact absurd h (by simp [hexDigits])
    | cons c cs =>
      rw [hexDigits_cons, hexDigits_cons, List.cons.injEq, List.cons.injEq] at h
      obtain ⟨hhigh, hlow, hrest⟩ := h
      have hb := b.toNat_lt
      have hc := c.toNat_lt
      have hdiv := hexDigit_inj (by omega) (by omega) hhigh
      have hmod := hexDigit_inj (by omega) (by omega) hlow
      have hbyte : b = c := UInt8.toNat_inj.mp (by omega)
      rw [hbyte, ih hrest]

theorem isAlphanum_of_mem_hexDigits {bs : Bytes} {c : Char} (hc : c ∈ hexDigits bs) :
    c.isAlphanum = true := by
  obtain ⟨b, -, hdigit⟩ := List.mem_flatMap.mp hc
  have hb := b.toNat_lt
  rcases List.mem_cons.mp hdigit with rfl | hlow
  · exact isAlphanum_hexDigit (by omega)
  · rw [List.mem_singleton.mp hlow]
    exact isAlphanum_hexDigit (by omega)

theorem notMem_hexDigits {c : Char} (hc : c.isAlphanum = false) (bs : Bytes) :
    c ∉ hexDigits bs := by
  intro hmem
  rw [isAlphanum_of_mem_hexDigits hmem] at hc
  cases hc

end Bytes

end ScriptTrace
