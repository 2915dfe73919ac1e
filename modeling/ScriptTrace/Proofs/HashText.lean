import ScriptTrace.Proofs.Coverage.FileNames

/-!
The texts that name a hash. Reading works on the UTF-8 bytes of a text; which texts it takes is said
of their characters: behind at most one `0x` stand forty hexadecimal digits of either case, and each
two of them spell a byte of the hash, the last stored byte first (`Hash.Spelled`). The bytes of a
character beyond the first 128 are no digits, so a text with one is refused whatever stands around
it.
-/

set_option autoImplicit false
set_option relaxedAutoImplicit false

namespace ScriptTrace

/-! ### Bytes and characters -/

namespace Bytes

theorem ofString_eq_flatMap (s : String) :
    ofString s = s.toList.flatMap String.utf8EncodeChar := by
  obtain ⟨cs, rfl⟩ : ∃ cs, s = String.ofList cs := ⟨s.toList, String.ofList_toList.symm⟩
  simp [ofString, List.utf8Encode]

/-- The first byte of a character beyond the first 128 is not one of theirs. -/
theorem le_of_utf8EncodeChar_eq_cons {c : Char} {b : UInt8} {rest : Bytes} (hc : ¬ c.val ≤ 127)
    (h : String.utf8EncodeChar c = b :: rest) : 128 ≤ b.toNat := by
  have hlarge : ¬ c.val.toNat ≤ 127 := hc
  unfold String.utf8EncodeChar at h
  dsimp only at h
  rw [if_neg hlarge] at h
  split_ifs at h
  all_goals
    rw [← (List.cons.inj h).1, UInt8.toNat_ofNat']
    omega

/-- The one byte of one of the first 128 characters is its number. -/
theorem toNat_toUInt8_of_ascii {c : Char} (hc : c.val ≤ 127) : c.val.toUInt8.toNat = c.toNat := by
  have hlt : c.val.toNat ≤ 127 := hc
  rw [UInt32.toNat_toUInt8, Nat.mod_eq_of_lt (by omega)]
  rfl

/-- One of the first 128 bytes in front stands for one of the first 128 characters. -/
theorem exists_eq_cons_of_flatMap {cs : List Char} {b : UInt8} {tail : Bytes} (hb : b.toNat < 128)
    (h : cs.flatMap String.utf8EncodeChar = b :: tail) :
    ∃ rest, cs = Char.ofNat b.toNat :: rest ∧ tail = rest.flatMap String.utf8EncodeChar := by
  cases cs with
  | nil => cases h
  | cons c rest =>
    rw [List.flatMap_cons] at h
    by_cases hc : c.val ≤ 127
    · rw [String.utf8EncodeChar_eq_singleton (Char.utf8Size_eq_one_iff.mpr hc)] at h
      obtain ⟨hbyte, htail⟩ := List.cons.inj h
      refine ⟨rest, ?_, htail.symm⟩
      rw [← hbyte, toNat_toUInt8_of_ascii hc, Char.ofNat_toNat]
    · cases hbytes : String.utf8EncodeChar c with
      | nil => exact absurd hbytes String.utf8EncodeChar_ne_nil
      | cons b' rest' =>
        rw [hbytes] at h
        have hle := le_of_utf8EncodeChar_eq_cons hc hbytes
        rw [(List.cons.inj h).1] at hle
        omega

end Bytes

/-! ### Digits -/

/-- The hexadecimal digits in lower case, each at its value. -/
def hexAlphabet : List Char :=
  ['0', '1', '2', '3', '4', '5', '6', '7', '8', '9', 'a', 'b', 'c', 'd', 'e', 'f']

/-- The value of a hexadecimal digit of either case. -/
def hexDigitValue? (c : Char) : Option Nat := hexAlphabet.idxOf? c.toLower

theorem toLower_of_hexDigitValue? {c : Char} {n : Nat} (h : hexDigitValue? c = some n) :
    n < 16 ∧ c.toLower = hexDigit n := by
  obtain ⟨hlt, heq, -⟩ := List.idxOf?_eq_some_iff.mp h
  have hdigits : ∀ n : Fin hexAlphabet.length, hexAlphabet.get n = hexDigit n := by decide
  exact ⟨hlt, heq ▸ hdigits ⟨n, hlt⟩⟩

theorem ascii_of_hexDigitValue? {c : Char} {n : Nat} (h : hexDigitValue? c = some n) :
    c.val ≤ 127 := by
  by_contra hc
  have hlower : c.toLower = c := dif_neg fun hupper ↦
    hc (UInt32.le_trans hupper.2 (show 'Z'.val ≤ 127 by decide))
  obtain ⟨hlt, heq⟩ := toLower_of_hexDigitValue? h
  rw [← hlower, heq] at hc
  exact hc (Bytes.hexValue?_hexDigit hlt).1

theorem lt_of_hexValue? {b v : UInt8} (h : hexValue? b = some v) : b.toNat < 128 := by
  have hall : ∀ n : Fin 256, hexValue? (UInt8.ofNat n) ≠ none → n.val < 128 := by decide +kernel
  refine hall ⟨b.toNat, b.toNat_lt⟩ ?_
  simp [h]

/-- The value of a digit is that of its byte. -/
theorem hexDigitValue?_ofNat {b : UInt8} (hb : b.toNat < 128) :
    hexDigitValue? (Char.ofNat b.toNat) = (hexValue? b).map UInt8.toNat := by
  have hall : ∀ n : Fin 128, hexDigitValue? (Char.ofNat n) =
      (hexValue? (UInt8.ofNat n)).map UInt8.toNat := by decide +kernel
  simpa using hall ⟨b.toNat, hb⟩

/-- A digit has one byte, of its value. -/
theorem hexValue?_of_hexDigitValue? {c : Char} {n : Nat} (h : hexDigitValue? c = some n) :
    ∃ b v, String.utf8EncodeChar c = [b] ∧ hexValue? b = some v ∧ v.toNat = n := by
  have hascii := ascii_of_hexDigitValue? h
  have hbytes := String.utf8EncodeChar_eq_singleton (Char.utf8Size_eq_one_iff.mpr hascii)
  have hlt : c.val.toNat < 128 := Nat.lt_succ_of_le hascii
  have hvalue := Bytes.toNat_toUInt8_of_ascii hascii
  have hdigit := hexDigitValue?_ofNat (b := c.val.toUInt8) (hvalue ▸ hlt)
  rw [hvalue, Char.ofNat_toNat, h] at hdigit
  obtain ⟨v, hv, hn⟩ := Option.map_eq_some_iff.mp hdigit.symm
  exact ⟨_, v, hbytes, hv, hn⟩

/-! ### Pairs of digits -/

theorem mul_sixteen_add (high low : UInt8) :
    high * 16 + low = UInt8.ofNat (16 * high.toNat + low.toNat) := by
  apply UInt8.toNat_inj.mp
  simp [Nat.mul_comm]

/-- Each two characters are the digits of a byte, high half first. -/
inductive Spells : List Char → Bytes → Prop
  | nil : Spells [] []
  | pair {c d : Char} {high low : Nat} {cs : List Char} {bs : Bytes}
      (hhigh : hexDigitValue? c = some high) (hlow : hexDigitValue? d = some low)
      (hrest : Spells cs bs) : Spells (c :: d :: cs) (UInt8.ofNat (16 * high + low) :: bs)

namespace Spells

theorem length_eq {cs : List Char} {bs : Bytes} (h : Spells cs bs) :
    cs.length = 2 * bs.length := by
  induction h with
  | nil => rfl
  | pair _ _ _ ih =>
    rw [List.length_cons, List.length_cons, List.length_cons, ih]
    omega

/-- The digits that are written are those that are read, in lower case. -/
theorem map_toLower {cs : List Char} {bs : Bytes} (h : Spells cs bs) :
    cs.map Char.toLower = Bytes.hexDigits bs := by
  induction h with
  | nil => rfl
  | @pair c d high low cs bs hhigh hlow hrest ih =>
    obtain ⟨hhighLt, hc⟩ := toLower_of_hexDigitValue? hhigh
    obtain ⟨hlowLt, hd⟩ := toLower_of_hexDigitValue? hlow
    have hbyte : (UInt8.ofNat (16 * high + low)).toNat = 16 * high + low := by
      rw [UInt8.toNat_ofNat']
      omega
    have hdiv : (16 * high + low) / 16 = high := by omega
    have hmod : (16 * high + low) % 16 = low := by omega
    rw [List.map_cons, List.map_cons, ih, Bytes.hexDigits_cons, hbyte, hdiv, hmod, hc, hd]

/-- The bytes of digits are as many as the digits, and are read as what they spell. -/
theorem ofHexPairs_eq {cs : List Char} {bs : Bytes} (h : Spells cs bs) :
    (cs.flatMap String.utf8EncodeChar).length = cs.length ∧
      ∀ position, Bytes.ofHexPairs position (cs.flatMap String.utf8EncodeChar) = .ok bs := by
  induction h with
  | nil => exact ⟨rfl, fun _ ↦ rfl⟩
  | @pair c d high low cs bs hhigh hlow hrest ih =>
    obtain ⟨b, v, hb, hv, rfl⟩ := hexValue?_of_hexDigitValue? hhigh
    obtain ⟨b', v', hb', hv', rfl⟩ := hexValue?_of_hexDigitValue? hlow
    simp only [List.flatMap_cons, hb, hb', List.singleton_append, List.length_cons]
    refine ⟨by rw [ih.1], fun position ↦ ?_⟩
    rw [Bytes.ofHexPairs, hv, hv']
    dsimp only
    rw [ih.2, mul_sixteen_add]
    rfl

end Spells

/-- What is read from the bytes of characters is what these spell. -/
theorem spells_of_ofHexPairs {digits bs : Bytes} {position : Nat} {cs : List Char}
    (hdigits : cs.flatMap String.utf8EncodeChar = digits)
    (h : Bytes.ofHexPairs position digits = .ok bs) : Spells cs bs := by
  induction position, digits using Bytes.ofHexPairs.induct generalizing cs bs with
  | case1 position high low rest hhigh => simp [Bytes.ofHexPairs, hhigh] at h
  | case2 position high low rest v hlow hhigh => simp [Bytes.ofHexPairs, hhigh, hlow] at h
  | case3 position high low rest v v' hlow hhigh ih =>
    rw [Bytes.ofHexPairs, hhigh, hlow] at h
    dsimp only at h
    have hb := lt_of_hexValue? hhigh
    have hb' := lt_of_hexValue? hlow
    obtain ⟨cs, rfl, hcs⟩ := Bytes.exists_eq_cons_of_flatMap hb hdigits
    obtain ⟨cs, rfl, hrest⟩ := Bytes.exists_eq_cons_of_flatMap hb' hcs.symm
    cases hread : Bytes.ofHexPairs (position + 2) rest with
    | error fault =>
      rw [hread] at h
      cases h
    | ok read =>
      rw [hread] at h
      obtain rfl := Except.ok.inj h
      rw [mul_sixteen_add]
      exact .pair (by rw [hexDigitValue?_ofNat hb, hhigh]; rfl)
        (by rw [hexDigitValue?_ofNat hb', hlow]; rfl) (ih hrest.symm hread)
  | case4 position b => cases h
  | case5 position =>
    obtain rfl := Except.ok.inj h
    cases cs with
    | nil => exact .nil
    | cons c cs =>
      rw [List.flatMap_cons] at hdigits
      exact absurd (List.append_eq_nil_iff.mp hdigits).1 String.utf8EncodeChar_ne_nil

theorem ofHexPairs_of_ofHex {size : Nat} {digits bs : Bytes}
    (h : Bytes.ofHex size digits = .ok bs) : Bytes.ofHexPairs 0 digits = .ok bs := by
  unfold Bytes.ofHex at h
  split_ifs at h
  exact h

namespace Hash

/-- The characters of a text without one leading `0x`. -/
def unprefixed : List Char → List Char
  | '0' :: 'x' :: rest => rest
  | cs => cs

/-- Behind at most one `0x` a text has forty digits of either case, and they are those of the bytes
of the hash in reverse. -/
def Spelled (text : String) (h : Hash) : Prop :=
  (unprefixed text.toList).length = 40 ∧ Spells (unprefixed text.toList) h.bytes.reverse

theorem digitsOf_eq (text : String) :
    digitsOf text = (unprefixed text.toList).flatMap String.utf8EncodeChar := by
  unfold digitsOf
  rw [Bytes.ofString_eq_flatMap]
  generalize text.toList = cs
  by_cases hbegins : ∃ rest, cs = '0' :: 'x' :: rest
  · obtain ⟨rest, rfl⟩ := hbegins
    rfl
  · have hself : unprefixed cs = cs := by
      unfold unprefixed
      split
      · rename_i rest
        exact absurd ⟨rest, rfl⟩ hbegins
      · rfl
    rw [hself]
    split
    · rename_i tail hbytes
      obtain ⟨rest, rfl, hrest⟩ := Bytes.exists_eq_cons_of_flatMap (by decide) hbytes
      obtain ⟨rest, rfl, -⟩ := Bytes.exists_eq_cons_of_flatMap (by decide) hrest.symm
      exact absurd ⟨rest, rfl⟩ hbegins
    · rfl

/-- Reading takes the texts that spell a hash. -/
theorem parse_eq_ok_iff (text : String) (h : Hash) : parse text = .ok h ↔ Spelled text h := by
  have hlength : h.bytes.reverse.length = 20 := List.length_reverse.trans h.length_bytes
  constructor
  · intro hparse
    unfold parse at hparse
    cases hread : Bytes.ofHex 20 (digitsOf text) with
    | error fault =>
      rw [hread] at hparse
      cases hparse
    | ok bs =>
      rw [hread] at hparse
      dsimp only at hparse
      split_ifs at hparse with htwenty
      have hbytes : h.bytes.reverse = bs := by
        rw [← Except.ok.inj hparse, List.reverse_reverse]
      have hspells : Spells (unprefixed text.toList) bs :=
        spells_of_ofHexPairs (digitsOf_eq text).symm (ofHexPairs_of_ofHex hread)
      rw [← hbytes] at hspells
      exact ⟨by rw [hspells.length_eq, hlength], hspells⟩
  · rintro ⟨hforty, hspells⟩
    obtain ⟨hbytes, hpairs⟩ := hspells.ofHexPairs_eq
    have hread : Bytes.ofHex 20 (digitsOf text) = .ok h.bytes.reverse := by
      rw [digitsOf_eq, Bytes.ofHex, hbytes, hforty]
      exact hpairs 0
    simp only [parse, hread, List.reverse_reverse, h.length_bytes, dite_true]

/-- The text of a hash is the text that named it, in lower case and with `0x`. -/
theorem display_of_spelled {text : String} {h : Hash} (hspelled : Spelled text h) :
    h.display = "0x" ++ String.ofList ((unprefixed text.toList).map Char.toLower) := by
  rw [display, Bytes.hex, hspelled.2.map_toLower]

/-- The line of a coverage log that names a script says which. -/
theorem bytes_current_inj {h h' : Hash} :
    (CoverageLine.current h).bytes = (CoverageLine.current h').bytes ↔ h = h' := by
  refine ⟨fun hsame ↦ ?_, fun hsame ↦ hsame ▸ rfl⟩
  rw [CoverageLine.bytes_eq, CoverageLine.bytes_eq] at hsame
  have hchars := String.ofList_injective (Bytes.ofString_injective hsame)
  exact CoverageLine.current.inj (CoverageLine.chars_injective (List.append_cancel_right hchars))

/-- A text is read as a hash if and only if it spells the hash, and as none if it spells none. The
text of a hash is read as the hash, and is the lower-case form of every text that is. The line of a
coverage log that names a script, and the name of the file of a script, are of one hash. -/
theorem parse_iff_spelled (text : String) (h : Hash) :
    (parse text = .ok h ↔ Spelled text h) ∧
    ((∃ fault, parse text = .error fault) ↔ ∀ h', ¬ Spelled text h') ∧
    parse h.display = .ok h ∧
    (Spelled text h →
      h.display = "0x" ++ String.ofList ((unprefixed text.toList).map Char.toLower)) ∧
    (∀ h', (CoverageLine.current h).bytes = (CoverageLine.current h').bytes ↔ h = h') ∧
    ∀ s s' : ExecutedScript, s.fileName = s'.fileName → s.hash = s'.hash := by
  refine ⟨parse_eq_ok_iff text h, ⟨?_, fun hnone ↦ ?_⟩, parse_display h, display_of_spelled,
    fun _ ↦ bytes_current_inj, fun _ _ ↦ ExecutedScript.hash_eq_of_fileName_eq⟩
  · rintro ⟨fault, hfault⟩ h' hspelled
    rw [(parse_eq_ok_iff text h').mpr hspelled] at hfault
    cases hfault
  · cases hparse : parse text with
    | error fault => exact ⟨fault, rfl⟩
    | ok h' => exact absurd ((parse_eq_ok_iff text h').mp hparse) (hnone h')

end Hash

end ScriptTrace
