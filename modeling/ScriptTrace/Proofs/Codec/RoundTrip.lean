import ScriptTrace.Proofs.Codec.Nesting
import ScriptTrace.Proofs.Codec.Reading

/-!
Encoding and decoding of records, each followed by the other. A record that fits its lengths has an
encoding exactly if none of its items lies too deep, and an encoding decodes to its record. In the
other direction a byte string that decodes is one spelling of its record, and encoding the record
gives that spelling with every integer in its shortest form; two accepted byte strings for one
record differ in the forms of integers and nowhere else.
-/

set_option autoImplicit false
set_option relaxedAutoImplicit false

namespace ScriptTrace

open Token

namespace Record

/-- An encoding decodes to its record. -/
theorem decode_of_encode {r : Record} {bs : Bytes} (h : r.encode = .ok bs) :
    Record.decode bs = .ok r := by
  rcases encode_cases r with ⟨ts, hts, hencode⟩ | ⟨_, reason, herror⟩
  · rw [hencode] at h
    exact (decode_eq_ok_iff bs r).mpr ⟨ts, hts.mem, Except.ok.inj h⟩
  · rw [herror] at h
    cases h

/-- Assumes: every text, byte string, integer payload and collection of a record has fewer than
`2 ^ 32` elements. The record has an encoding exactly if no item in it lies deeper than the limit,
it is refused for its depth only, and its encoding decodes to it. -/
theorem encode_ok_iff_and_decode_encode (r : Record) (hfits : r.Fits) :
    ((∃ bs, r.encode = .ok bs) ↔ ∀ x ∈ r.items, x.depth ≤ maxItemDepth) ∧
      (∀ e, r.encode = .error e → e = .malformed .tooDeep) ∧
      ∀ bs, r.encode = .ok bs → Record.decode bs = .ok r := by
  have hfields := encodable_fields hfits
  refine ⟨⟨?_, ?_⟩, ?_, ?_⟩
  · rintro ⟨bs, hbs⟩
    by_contra hdeep
    rw [encode, hfields.tooDeep hdeep] at hbs
    simp at hbs
  · intro hshallow
    obtain ⟨bs, hbs⟩ := hfields.ok hshallow
    rw [encode, hbs]
    exact ⟨_, rfl⟩
  · intro e he
    by_cases hshallow : ∀ x ∈ r.items, x.depth ≤ maxItemDepth
    · obtain ⟨bs, hbs⟩ := hfields.ok hshallow
      rw [encode, hbs] at he
      simp at he
    · rw [encode, hfields.tooDeep hshallow] at he
      exact (Except.error.inj he).symm
  · intro bs hbs
    rcases encode_cases r with ⟨ts, hts, hencode⟩ | ⟨_, reason, herror⟩
    · rw [hencode] at hbs
      exact (decode_eq_ok_iff bs r).mpr ⟨ts, hts.mem, Except.ok.inj hbs⟩
    · rw [herror] at hbs
      simp at hbs

/-- A notification whose state is a map with a struct for a key, and its way there and back. -/
theorem decode_encode_of_nested_map :
    let r := Record.notify Hash.zero "Δ" [.map [(.struct [.null], .array [.integer (-129)])]]
    r.Fits ∧ ∃ bs, r.encode = .ok bs ∧ Record.decode bs = .ok r := by
  intro r
  have hfits : r.Fits := by
    simp only [r, Fits, FitsStack, Item.FitsList, Item.Fits, Item.FitsEntries]
    decide
  obtain ⟨hok, -, hdecode⟩ := encode_ok_iff_and_decode_encode r hfits
  obtain ⟨bs, hbs⟩ := hok.mpr (by decide)
  exact ⟨hfits, bs, hbs, hdecode bs hbs⟩

/-- Assumes: a byte string that decodes. It is spelled in one way as its record, and encoding the
record gives the bytes of that spelling with every integer in its shortest form, which for zero is
one zero byte. The two byte strings are the same exactly if every integer is already shortest, and
every other byte string for the record shortens to the same spelling. -/
theorem encode_of_decode {bs : Bytes} {r : Record} (h : Record.decode bs = .ok r) :
    ∃ ts us, (∀ vs, vs ∈ Format.record r ∧ spell vs = bs ↔ vs = ts) ∧
      List.Forall₂ ShortensTo ts us ∧
      (∀ payload length_lt, integer payload length_lt ∈ us → Bytes.toInt payload = 0 →
        payload = [0]) ∧
      r.encode = .ok (spell us) ∧
      Record.decode (spell us) = .ok r ∧
      (r.encode = .ok bs ↔ ∀ t ∈ ts, t.IsShortest) ∧
      ∀ other, Record.decode other = .ok r →
        ∃ vs, spell vs = other ∧ List.Forall₂ ShortensTo vs us := by
  obtain ⟨ts, hts, rfl⟩ := (decode_eq_ok_iff bs r).mp h
  rcases encode_cases r with ⟨us, hus, hencode⟩ | ⟨hempty, -⟩
  · have hshort := hus.map_shorten_eq
    have hshortens : List.Forall₂ ShortensTo ts us := by
      rw [← hshort ts hts]
      exact forall₂_shortensTo ts
    refine ⟨ts, us, fun vs ↦ ⟨?_, ?_⟩, hshortens, ?_, hencode, ?_, ?_, ?_⟩
    · rintro ⟨hvs, hspell⟩
      exact eq_of_spell_eq ((hshort vs hvs).trans (hshort ts hts).symm) hspell
    · rintro rfl
      exact ⟨hts, rfl⟩
    · intro payload length_lt hmem hzero
      rw [← hshort ts hts] at hmem
      obtain ⟨t, -, ht⟩ := List.mem_map.mp hmem
      exact (ht ▸ shortensTo_shorten t).eq_of_toInt_eq_zero hzero
    · exact (decode_eq_ok_iff _ r).mpr ⟨us, hus.mem, rfl⟩
    · rw [← map_shorten_eq_iff, hshort ts hts, hencode, Except.ok.injEq]
      constructor
      · intro hspell
        exact eq_of_spell_eq ((hshort us hus.mem).trans (hshort ts hts).symm) hspell
      · intro heq
        rw [heq]
    · intro other hother
      obtain ⟨vs, hvs, rfl⟩ := (decode_eq_ok_iff other r).mp hother
      refine ⟨vs, rfl, ?_⟩
      rw [← hshort vs hvs]
      exact forall₂_shortensTo vs
  · rw [hempty] at hts
    exact absurd hts (Language.notMem_zero ts)

/-- Minus one in two bytes and zero in none: the bytes decode, and encoding the record gives other
bytes that decode to it. -/
theorem encode_ne_of_decode_wide :
    let bs : Bytes := [2, 0, 0, 0, 3, 0, 0, 0, 3, 0, 0, 0, 1, 7, 0, 0, 0, 0, 0, 0, 0, 2, 0, 0, 0,
      0x21, 2, 0, 0, 0, 0xff, 0xff, 0x21, 0, 0, 0, 0]
    let r := Record.results .halt 7 [.integer (-1), .integer 0]
    Record.decode bs = .ok r ∧
      ∃ cs, r.encode = .ok cs ∧ Record.decode cs = .ok r ∧ cs ≠ bs := by
  intro bs r
  have hdecode : Record.decode bs = .ok r := by rfl
  obtain ⟨ts, us, -, -, -, hencode, hagain, -, -⟩ := encode_of_decode hdecode
  have hne : r.encode ≠ .ok bs := by decide
  refine ⟨hdecode, spell us, hencode, hagain, ?_⟩
  intro heq
  rw [heq] at hencode
  exact hne hencode

end Record

end ScriptTrace
