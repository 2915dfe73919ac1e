import ScriptTrace.Proofs.Codec.Format

/-!
The encoder writes the canonical spelling. `Canonical language ts` says that `ts` belongs to a
language and is the shortened form of each of its members; it is inherited by products. A record
whose language is empty has no encoding, any other is written in the one spelling whose integers
are all shortest (`encode_cases`).
-/

set_option autoImplicit false
set_option relaxedAutoImplicit false

namespace ScriptTrace

open Token

/-- A member of a language to which all its members shorten. -/
structure Canonical (language : Language Token) (ts : List Token) : Prop where
  mem : ts ∈ language
  map_shorten_eq : ∀ us ∈ language, us.map shorten = ts

namespace Canonical

theorem plain (bs : Bytes) : Canonical {Token.plain bs} (Token.plain bs) where
  mem := rfl
  map_shorten_eq us hus := by
    obtain rfl : us = Token.plain bs := hus
    exact map_shorten_plain bs

theorem one : Canonical 1 [] where
  mem := Language.nil_mem_one
  map_shorten_eq us hus := by
    obtain rfl : us = [] := hus
    rfl

theorem mul {first second : Language Token} {ts us : List Token} (hfirst : Canonical first ts)
    (hsecond : Canonical second us) : Canonical (first * second) (ts ++ us) where
  mem := Language.append_mem_mul hfirst.mem hsecond.mem
  map_shorten_eq vs hvs := by
    obtain ⟨ts', hts', us', hus', rfl⟩ := Language.mem_mul.mp hvs
    rw [List.map_append, hfirst.map_shorten_eq ts' hts', hsecond.map_shorten_eq us' hus']

theorem length {n : Nat} (hn : n < 2 ^ 32) :
    Canonical (Format.length n) (Token.plain (Bytes.ofNat 4 n)) where
  mem := ⟨hn, rfl⟩
  map_shorten_eq us hus := by
    obtain ⟨-, rfl⟩ := hus
    exact map_shorten_plain _

theorem integer {i : Int} (hlt : (Bytes.ofInt i).length < 2 ^ 32) :
    Canonical (Format.integer i) [.integer (Bytes.ofInt i) hlt] where
  mem := ⟨_, hlt, Bytes.toInt_ofInt i, rfl⟩
  map_shorten_eq us hus := by
    obtain ⟨payload, _, rfl, rfl⟩ := hus
    rfl

end Canonical

/-- What a part of an encoder answers for a language: its canonical member, or an error if the
language has no members. -/
inductive Writes : Language Token → Except Malformed Bytes → Prop
  | ok {language : Language Token} {ts : List Token} (h : Canonical language ts) :
    Writes language (.ok (spell ts))
  | error (reason : Malformed) : Writes 0 (.error reason)

namespace Writes

variable {first second whole : Language Token} {x y : Except Malformed Bytes}

theorem of_eq {ts : List Token} {bs : Bytes} (h : Canonical whole ts) (hbs : spell ts = bs) :
    Writes whole (.ok bs) :=
  hbs ▸ ok h

theorem bind {next : Bytes → Except Malformed Bytes} (hx : Writes first x)
    (hempty : first = 0 → whole = 0)
    (hnext : ∀ ts, Canonical first ts → Writes whole (next (spell ts))) :
    Writes whole (x >>= next) := by
  cases hx with
  | ok h => exact hnext _ h
  | error reason =>
    rw [hempty rfl]
    exact error reason

/-- Bytes in front of a part. -/
theorem after {before : Language Token} {ts : List Token} {bs : Bytes}
    (hbefore : Canonical before ts) (hbs : spell ts = bs) (hx : Writes first x) :
    Writes (before * first) (do return bs ++ (← x)) := by
  refine hx.bind (fun hzero ↦ by rw [hzero, mul_zero]) fun us hus ↦ ?_
  exact of_eq (hbefore.mul hus) (by rw [spell_append, hbs])

/-- Two parts with bytes in front. -/
theorem append_after {before : Language Token} {ts : List Token} {bs : Bytes}
    (hbefore : Canonical before ts) (hbs : spell ts = bs) (hx : Writes first x)
    (hy : Writes second y) : Writes (before * first * second) (do return bs ++ (← x) ++ (← y)) := by
  refine hx.bind (fun hzero ↦ by rw [hzero, mul_zero, zero_mul]) fun us hus ↦ ?_
  refine hy.bind (fun hzero ↦ by rw [hzero, mul_zero]) fun vs hvs ↦ ?_
  exact of_eq ((hbefore.mul hus).mul hvs) (by rw [spell_append, spell_append, hbs])

theorem append (hx : Writes first x) (hy : Writes second y) :
    Writes (first * second) (do return (← x) ++ (← y)) := by
  have h := append_after Canonical.one spell_nil hx hy
  rwa [one_mul] at h

/-- A part with bytes behind it. -/
theorem before (hx : Writes first x) (bs : Bytes) :
    Writes (first * {plain bs}) (do return (← x) ++ bs) :=
  hx.append (of_eq (Canonical.plain bs) (spell_plain bs))

end Writes

/-- Writing a length. -/
theorem writes_length (n : Nat) : Writes (Format.length n) (Encoder.length n) := by
  unfold Encoder.length
  split
  · rename_i hn
    exact .of_eq (Canonical.length hn) (spell_plain _)
  · rename_i hn
    have hempty : Format.length n = 0 := by
      ext ts
      exact ⟨fun h ↦ absurd h.1 hn, fun h ↦ absurd h (Language.notMem_zero ts)⟩
    rw [hempty]
    exact .error _

theorem writes_blob (bs : Bytes) : Writes (Format.blob bs) (Encoder.blob bs) :=
  (writes_length bs.length).before bs

theorem writes_text (s : String) : Writes (Format.text s) (Encoder.text s) :=
  writes_blob _

theorem writes_integer (i : Int) : Writes (Format.integer i) (Encoder.blob (Bytes.ofInt i)) := by
  unfold Encoder.blob Encoder.length
  split
  · rename_i hlt
    exact .of_eq (Canonical.integer hlt) (spell_integer _ hlt)
  · rename_i hlt
    have hempty : Format.integer i = 0 := by
      ext ts
      refine ⟨?_, fun h ↦ absurd h (Language.notMem_zero ts)⟩
      rintro ⟨payload, length_lt, rfl, -⟩
      have hle := Bytes.length_ofInt_toInt_le payload
      have hsize : UInt32.size = 2 ^ 32 := rfl
      omega
    rw [hempty]
    exact .error _

section List

variable {α : Type} {element : α → Language Token} {write : α → Except Malformed Bytes}

theorem writes_concat (xs : List α) (h : ∀ x ∈ xs, Writes (element x) (write x)) :
    Writes (xs.map element).prod (Encoder.concat write xs) := by
  induction xs with
  | nil => exact .of_eq Canonical.one spell_nil
  | cons x rest ih =>
    rw [List.map_cons, List.prod_cons]
    exact (h x (.head rest)).append (ih fun y hy ↦ h y (.tail x hy))

theorem writes_list (xs : List α) (h : ∀ x ∈ xs, Writes (element x) (write x)) :
    Writes (Format.list element xs) (Encoder.list write xs) :=
  (writes_length xs.length).append (writes_concat xs h)

end List

theorem items_eq_concat (room : Nat) (xs : List Item) :
    Encoder.items room xs = Encoder.concat (Encoder.item room) xs := by
  induction xs with
  | nil => rw [Encoder.items, Encoder.concat]
  | cons x rest ih => rw [Encoder.items, Encoder.concat, ih]

/-- The key and the value of an entry of a map. -/
def entryItems (room : Nat) (e : Item × Item) : Except Malformed Bytes := do
  return (← Encoder.item room e.1) ++ (← Encoder.item room e.2)

theorem entries_eq_concat (room : Nat) (xs : List (Item × Item)) :
    Encoder.entries room xs = Encoder.concat (entryItems room) xs := by
  induction xs with
  | nil => rw [Encoder.entries, Encoder.concat]
  | cons e rest ih =>
    rw [Encoder.entries, Encoder.concat, ih]
    simp only [entryItems, bind_assoc, pure_bind]

/-- Writing an item. The tag and the length of a container stand in front of its parts, which have
one level less. -/
theorem writes_item (room : Nat) (x : Item) :
    Writes (Format.item room x) (Encoder.item room x) := by
  induction room generalizing x with
  | zero =>
    rw [Encoder.item]
    exact .error _
  | succ room ih =>
    have htag (b : UInt8) : Canonical {plain [b]} (plain [b]) := Canonical.plain [b]
    have hlist (b : UInt8) (xs : List Item) :
        Writes ({plain [b]} * Format.list (Format.item room) xs)
          (do return b :: (← Encoder.length xs.length) ++ (← Encoder.items room xs)) := by
      rw [Format.list, ← mul_assoc, items_eq_concat]
      exact (writes_length _).append_after (htag b) (spell_plain _)
        (writes_concat xs fun y _ ↦ ih y)
    cases x with
    | null =>
      rw [Encoder.item]
      exact .of_eq ((htag 0x00).mul .one) rfl
    | pointer position =>
      rw [Encoder.item]
      exact .of_eq ((htag 0x10).mul (.plain _)) (by simp)
    | boolean value =>
      rw [Encoder.item]
      exact .of_eq ((htag 0x20).mul (.plain _)) (by simp [Encoder.boolean])
    | integer value =>
      rw [Encoder.item]
      exact (writes_integer value).after (htag 0x21) (spell_plain _)
    | byteString bs =>
      rw [Encoder.item]
      exact (writes_blob bs).after (htag 0x28) (spell_plain _)
    | buffer bs =>
      rw [Encoder.item]
      exact (writes_blob bs).after (htag 0x30) (spell_plain _)
    | array items =>
      rw [Encoder.item]
      exact hlist 0x40 items
    | struct items =>
      rw [Encoder.item]
      exact hlist 0x41 items
    | map entries =>
      rw [Encoder.item, entries_eq_concat, Format.item, Format.content, Format.list, ← mul_assoc]
      exact (writes_length _).append_after (htag 0x48) (spell_plain _)
        (writes_concat entries fun e _ ↦ (ih e.1).append (ih e.2))
    | interop typeName =>
      rw [Encoder.item]
      exact (writes_text typeName).after (htag 0x60) (spell_plain _)

theorem writes_stack (xs : List Item) : Writes (Format.stack xs) (Encoder.stack xs) := by
  rw [Encoder.stack, items_eq_concat]
  exact writes_list xs fun x _ ↦ writes_item _ x

theorem writes_frame (f : FrameRecord) : Writes (Format.frame f) (Encoder.frame f) := by
  have hfixed := (((Canonical.plain (Bytes.ofUInt32 7)).mul (.plain f.scriptHash.bytes)).mul
    (.plain (Bytes.ofUInt32 f.instructionPointer))).mul (.plain [Encoder.boolean f.hasCatch])
  unfold Encoder.frame Format.frame
  refine (writes_stack f.evaluationStack).bind (fun hzero ↦ by simp [hzero]) fun ts hts ↦ ?_
  refine (writes_stack f.localVariables).bind (fun hzero ↦ by simp [hzero]) fun us hus ↦ ?_
  refine (writes_stack f.staticFields).bind (fun hzero ↦ by simp [hzero]) fun vs hvs ↦ ?_
  refine (writes_stack f.arguments).bind (fun hzero ↦ by simp [hzero]) fun ws hws ↦ ?_
  exact .of_eq ((((hfixed.mul hts).mul hus).mul hvs).mul hws) (by simp [Encoder.frameFields])

theorem writes_entry (e : StorageEntry) : Writes (Format.entry e) (Encoder.entry e) :=
  (writes_blob e.key).append (writes_blob e.value)

theorem writes_fields (r : Record) : Writes (Format.fields r) (Encoder.fields r) := by
  cases r with
  | trace state frames =>
    exact (writes_list frames fun f _ ↦ writes_frame f).after (.plain _) (spell_plain _)
  | notify hash eventName state =>
    exact (writes_text eventName).append_after (.plain _) (spell_plain _) (writes_stack state)
  | log hash message => exact (writes_text message).after (.plain _) (spell_plain _)
  | results state gas results =>
    exact (writes_stack results).after ((Canonical.plain _).mul (.plain _)) (by simp)
  | fault exception => exact writes_text exception
  | script hash code => exact (writes_blob code).after (.plain _) (spell_plain _)
  | storage hash entries =>
    exact (writes_list entries fun e _ ↦ writes_entry e).after (.plain _) (spell_plain _)
  | settings network addressVersion =>
    exact .of_eq ((Canonical.plain _).mul (.plain _)) (by simp)

/-- A record is written in its canonical spelling, and one without spelling is not written. -/
theorem encode_cases (r : Record) :
    (∃ ts, Canonical (Format.record r) ts ∧ r.encode = .ok (spell ts)) ∨
      (Format.record r = 0 ∧ ∃ reason, r.encode = .error (.malformed reason)) := by
  have hheader := ((Canonical.plain (Bytes.ofUInt32 2)).mul
    (.plain (Bytes.ofInt32 r.kind.discriminator))).mul (.plain (Bytes.ofUInt32 r.kind.fieldCount))
  have hfields := writes_fields r
  rw [Record.encode, Format.record]
  generalize Format.fields r = language at hfields ⊢
  generalize Encoder.fields r = answer at hfields ⊢
  cases hfields with
  | ok h => exact .inl ⟨_, hheader.mul h, by simp [Encoder.header]⟩
  | error reason => exact .inr ⟨mul_zero _, reason, rfl⟩

end ScriptTrace
