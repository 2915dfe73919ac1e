import ScriptTrace.Hash
import ScriptTrace.Proofs.Bytes.Fixed
import ScriptTrace.Proofs.Bytes.Hex

/-!
Hexadecimal texts read back. A text of the first 128 characters has one byte for each
(`Bytes.ofString_of_ascii`), so the digits of a byte string are read as the byte string
(`Bytes.ofHex_hexDigits`), and the text of a hash as the hash (`Hash.parse_display`).
-/

set_option autoImplicit false
set_option relaxedAutoImplicit false

namespace ScriptTrace

namespace Bytes

theorem ofString_of_ascii {cs : List Char} (hascii : ∀ c ∈ cs, c.val ≤ 127) :
    ofString (String.ofList cs) = cs.map Char.toUInt8 := by
  have hbytes : cs.flatMap String.utf8EncodeChar = cs.map Char.toUInt8 := by
    induction cs with
    | nil => rfl
    | cons c rest ih =>
      obtain ⟨hc, hrest⟩ := List.forall_mem_cons.mp hascii
      rw [List.flatMap_cons, String.utf8EncodeChar_eq_singleton (Char.utf8Size_eq_one_iff.mpr hc),
        ih hrest, List.map_cons]
      rfl
  simp [ofString, List.utf8Encode, hbytes]

theorem hexValue?_hexDigit {n : Nat} (hn : n < 16) :
    (hexDigit n).val ≤ 127 ∧ hexValue? ((hexDigit n).toUInt8) = some (UInt8.ofNat n) := by
  have hall : ∀ n : Fin 16, (hexDigit n).val ≤ 127 ∧
      hexValue? ((hexDigit n).toUInt8) = some (UInt8.ofNat n) := by decide
  exact hall ⟨n, hn⟩

theorem ascii_of_mem_hexDigits {bs : Bytes} {c : Char} (hc : c ∈ hexDigits bs) : c.val ≤ 127 := by
  obtain ⟨b, -, hdigit⟩ := List.mem_flatMap.mp hc
  have hb := b.toNat_lt
  rcases List.mem_cons.mp hdigit with rfl | hlow
  · exact (hexValue?_hexDigit (by omega)).1
  · rw [List.mem_singleton.mp hlow]
    exact (hexValue?_hexDigit (by omega)).1

theorem ofHexPairs_hexDigits (position : Nat) (bs : Bytes) :
    ofHexPairs position ((hexDigits bs).map Char.toUInt8) = .ok bs := by
  induction bs generalizing position with
  | nil => rfl
  | cons b rest ih =>
    have hb := b.toNat_lt
    have hhigh := (hexValue?_hexDigit (n := b.toNat / 16) (by omega)).2
    have hlow := (hexValue?_hexDigit (n := b.toNat % 16) (by omega)).2
    have hbyte : UInt8.ofNat (b.toNat / 16) * 16 + UInt8.ofNat (b.toNat % 16) = b := by
      apply UInt8.toNat_inj.mp
      simp
      omega
    rw [hexDigits_cons, List.map_cons, List.map_cons, ofHexPairs, hhigh, hlow]
    dsimp only
    rw [ih, hbyte]
    rfl

theorem length_hexDigits (bs : Bytes) : (hexDigits bs).length = 2 * bs.length := by
  induction bs with
  | nil => rfl
  | cons b rest ih =>
    rw [hexDigits_cons, List.length_cons, List.length_cons, List.length_cons, ih]
    omega

theorem ofHex_hexDigits (bs : Bytes) :
    ofHex bs.length ((hexDigits bs).map Char.toUInt8) = .ok bs := by
  have hlength : ((hexDigits bs).map Char.toUInt8).length = 2 * bs.length := by
    rw [List.length_map, length_hexDigits]
  rw [ofHex, if_neg (by omega), if_neg (by omega), ofHexPairs_hexDigits]

end Bytes

namespace Hash

/-- The characters of the text of a hash. -/
def chars (h : Hash) : List Char := '0' :: 'x' :: Bytes.hexDigits h.bytes.reverse

theorem display_eq (h : Hash) : h.display = String.ofList h.chars := by
  have hbegin : "0x" = String.ofList ['0', 'x'] := rfl
  rw [display, Bytes.hex, hbegin, ← String.ofList_append]
  rfl

theorem notMem_chars {c : Char} (hc : c.isAlphanum = false) (h : Hash) : c ∉ h.chars := by
  rintro (_ | ⟨_, _ | ⟨_, hdigit⟩⟩)
  · cases hc
  · cases hc
  · exact Bytes.notMem_hexDigits hc _ hdigit

theorem length_chars (h : Hash) : h.chars.length = 42 := by
  rw [chars, List.length_cons, List.length_cons, Bytes.length_hexDigits, List.length_reverse,
    h.length_bytes]

theorem chars_injective {h h' : Hash} (hsame : h.chars = h'.chars) : h = h' := by
  have hreverse := Bytes.hexDigits_injective (List.cons.inj (List.cons.inj hsame).2).2
  obtain ⟨bytes, _⟩ := h
  obtain ⟨bytes', _⟩ := h'
  obtain rfl : bytes = bytes' := List.reverse_inj.mp hreverse
  rfl

theorem ascii_of_mem_chars {h : Hash} {c : Char} (hc : c ∈ h.chars) : c.val ≤ 127 := by
  rcases hc with _ | ⟨_, _ | ⟨_, hdigit⟩⟩
  · decide
  · decide
  · exact Bytes.ascii_of_mem_hexDigits hdigit

/-- The text of a hash names this hash. -/
theorem parse_display (h : Hash) : parse h.display = .ok h := by
  have hdigits : digitsOf h.display = (Bytes.hexDigits h.bytes.reverse).map Char.toUInt8 := by
    rw [digitsOf, display_eq, Bytes.ofString_of_ascii fun _ ↦ ascii_of_mem_chars]
    rfl
  have hread : Bytes.ofHex 20 (digitsOf h.display) = .ok h.bytes.reverse := by
    have hlength : h.bytes.reverse.length = 20 := List.length_reverse.trans h.length_bytes
    rw [hdigits, ← hlength, Bytes.ofHex_hexDigits]
  simp only [parse, hread, List.reverse_reverse, h.length_bytes, dite_true]

end Hash

end ScriptTrace
