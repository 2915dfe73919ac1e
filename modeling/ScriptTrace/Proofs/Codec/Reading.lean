import ScriptTrace.Codec.Decoder
import ScriptTrace.Proofs.Codec.Format

/-!
The decoder accepts the format and nothing else. `Reads decoder language` says that a decoder
answers a value exactly on the byte strings that begin with a spelling of it, and leaves what comes
after the spelling. It is inherited by sequences of decoders (`Reads.exists_of_bind`,
`Reads.run_bind`) and by lists, so that each part of the decoder is compared with its part of the
format once, and records as a whole in `decode_eq_ok_iff`.
-/

set_option autoImplicit false
set_option relaxedAutoImplicit false

namespace ScriptTrace

open Token

namespace Decoder

variable {α β : Type}

theorem split_append {count : Nat} (head tail : Bytes) (h : head.length = count) :
    split count (head ++ tail) = some (⟨head, h⟩, tail) := by
  subst h
  simp [split]

theorem eq_append_of_split {count : Nat} {bs tail : Bytes}
    {head : { head : Bytes // head.length = count }} (h : split count bs = some (head, tail)) :
    bs = head.val ++ tail := by
  unfold split at h
  simp only [Option.dite_none_right_eq_some, Option.some.injEq, Prod.mk.injEq] at h
  obtain ⟨_, rfl, rfl⟩ := h
  exact (List.take_append_drop count bs).symm

theorem run_take (count : Nat) (next : { bs : Bytes // bs.length = count } → Decoder α)
    (head tail : Bytes) (h : head.length = count) :
    (take count next).run (head ++ tail) = (next ⟨head, h⟩).run tail := by
  rw [run, split_append head tail h]

theorem exists_of_run_take {count : Nat} {next : { bs : Bytes // bs.length = count } → Decoder α}
    {bs rest : Bytes} {a : α} (h : (take count next).run bs = .ok a rest) :
    ∃ head tail, bs = head.val ++ tail ∧ (next head).run tail = .ok a rest := by
  rw [run] at h
  split at h
  · rename_i head tail hsplit
    exact ⟨head, tail, eq_append_of_split hsplit, h⟩
  · simp at h

/-- Running a sequence runs its first part and goes on with the value. -/
theorem run_bind (d : Decoder α) (k : α → Decoder β) (bs : Bytes) :
    (d >>= k).run bs =
      match d.run bs with
      | .ok a rest => (k a).run rest
      | .error e rest => .error e rest := by
  change (d.bind k).run bs = _
  induction d generalizing bs with
  | done a => rfl
  | refuse reason => rfl
  | take count next ih =>
    rw [Decoder.bind, run, run]
    split
    · exact ih _ _
    · rfl

theorem eq_of_run_pure {a b : α} {bs rest : Bytes}
    (h : (pure a : Decoder α).run bs = .ok b rest) : a = b ∧ bs = rest := by
  have hok : EStateM.Result.ok a bs = EStateM.Result.ok (ε := CodecError) b rest := h
  rwa [EStateM.Result.ok.injEq] at hok

theorem run_refuse_ne_ok {reason : Malformed} {a : α} {bs rest : Bytes} :
    (refuse reason : Decoder α).run bs ≠ .ok a rest := by
  rw [run]
  exact nofun

/-- A decoder that answers each value on the byte strings that begin with one of its spellings, and
leaves what comes after it. -/
structure Reads (d : Decoder α) (language : α → Language Token) : Prop where
  sound : ∀ {bs rest : Bytes} {a : α}, d.run bs = .ok a rest →
    ∃ ts ∈ language a, bs = spell ts ++ rest
  complete : ∀ {a : α} {ts : List Token}, ts ∈ language a → ∀ rest : Bytes,
    d.run (spell ts ++ rest) = .ok a rest

namespace Reads

variable {d : Decoder α} {language : α → Language Token}

theorem exists_of_bind (hd : d.Reads language) {k : α → Decoder β} {bs rest : Bytes} {b : β}
    (h : (d >>= k).run bs = .ok b rest) :
    ∃ a, ∃ ts ∈ language a, ∃ mid, bs = spell ts ++ mid ∧ (k a).run mid = .ok b rest := by
  rw [run_bind] at h
  split at h
  · rename_i a mid hrun
    obtain ⟨ts, hts, rfl⟩ := hd.sound hrun
    exact ⟨a, ts, hts, mid, rfl, h⟩
  · simp at h

theorem run_bind (hd : d.Reads language) {a : α} {ts : List Token} (hts : ts ∈ language a)
    (k : α → Decoder β) (rest : Bytes) :
    (d >>= k).run (spell ts ++ rest) = (k a).run rest := by
  rw [Decoder.run_bind, hd.complete hts]

end Reads

/-- A value written in a fixed number of bytes. -/
theorem reads_fixed {count : Nat} {value : { bs : Bytes // bs.length = count } → α}
    {written : α → Bytes} (hwritten : ∀ bs, written (value bs) = bs.val)
    (hlength : ∀ a, (written a).length = count)
    (hvalue : ∀ a, value ⟨written a, hlength a⟩ = a) :
    (take count fun bs ↦ done (value bs)).Reads fun a ↦ {plain (written a)} where
  sound h := by
    obtain ⟨head, tail, rfl, hdone⟩ := exists_of_run_take h
    obtain ⟨rfl, rfl⟩ := eq_of_run_pure hdone
    exact ⟨_, rfl, by rw [spell_plain, hwritten]⟩
  complete := by
    rintro a _ rfl rest
    rw [spell_plain, run_take _ _ _ _ (hlength a), hvalue, run]

theorem reads_byte : byte.Reads fun b ↦ {plain [b]} :=
  reads_fixed (fun ⟨bs, h⟩ ↦ by
    obtain ⟨b, rfl⟩ := List.length_eq_one_iff.mp h
    rfl) (fun _ ↦ rfl) (fun _ ↦ rfl)

theorem reads_uint32 : uint32.Reads fun n ↦ {plain (Bytes.ofUInt32 n)} :=
  reads_fixed (fun bs ↦ Bytes.ofUInt32_toUInt32 bs.property) Bytes.length_ofUInt32
    Bytes.toUInt32_ofUInt32

theorem reads_int32 : int32.Reads fun n ↦ {plain (Bytes.ofInt32 n)} :=
  reads_fixed (fun bs ↦ Bytes.ofInt32_toInt32 bs.property) (fun _ ↦ Bytes.length_ofUInt32 _)
    Bytes.toInt32_ofInt32

theorem reads_int64 : int64.Reads fun n ↦ {plain (Bytes.ofInt64 n)} :=
  reads_fixed (fun bs ↦ Bytes.ofInt64_toInt64 bs.property) Bytes.length_ofInt64
    Bytes.toInt64_ofInt64

theorem reads_hash : hash.Reads fun h ↦ {plain h.bytes} :=
  reads_fixed (fun _ ↦ rfl) (fun h ↦ h.length_bytes) (fun _ ↦ rfl)

/-! ### Lengths, byte strings and lists -/

theorem exists_of_length {k : Nat → Decoder β} {bs rest : Bytes} {b : β}
    (h : (do let n ← uint32; k n.toNat).run bs = .ok b rest) :
    ∃ n, ∃ ts ∈ Format.length n, ∃ mid, bs = spell ts ++ mid ∧ (k n).run mid = .ok b rest := by
  obtain ⟨n, ts, rfl, mid, rfl, hnext⟩ := reads_uint32.exists_of_bind h
  exact ⟨n.toNat, _, ⟨n.toNat_lt, rfl⟩, mid, rfl, hnext⟩

theorem run_length {n : Nat} {ts : List Token} (hts : ts ∈ Format.length n) (k : Nat → Decoder β)
    (rest : Bytes) : (do let n ← uint32; k n.toNat).run (spell ts ++ rest) = (k n).run rest := by
  obtain ⟨hlt, rfl⟩ := hts
  have hword : (UInt32.ofNat n).toNat = n := UInt32.toNat_ofNat_of_lt' hlt
  have hmem : plain (Bytes.ofNat 4 n) ∈
      ({plain (Bytes.ofUInt32 (UInt32.ofNat n))} : Language Token) := by
    rw [Bytes.ofUInt32, hword]
    exact rfl
  rw [reads_uint32.run_bind hmem, hword]

theorem reads_blob : blob.Reads Format.blob where
  sound h := by
    obtain ⟨n, ts, hts, mid, rfl, hnext⟩ :=
      exists_of_length (k := fun n ↦ take n fun bs ↦ done bs.val) h
    obtain ⟨⟨head, rfl⟩, tail, rfl, hdone⟩ := exists_of_run_take hnext
    obtain ⟨rfl, rfl⟩ := eq_of_run_pure hdone
    exact ⟨ts ++ plain head, Language.append_mem_mul hts rfl, by simp⟩
  complete := by
    rintro bs _ ⟨ts, hts, _, rfl, rfl⟩ rest
    rw [spell_append, List.append_assoc, blob, run_length hts fun n ↦ take n fun bs ↦ done bs.val,
      spell_plain, run_take _ _ _ _ rfl, run]

theorem exists_of_run_timesOnto {d : Decoder α} {language : α → Language Token}
    (hd : d.Reads language) {count : Nat} {seen ys : List α} {bs rest : Bytes}
    (h : (timesOnto d count seen).run bs = .ok ys rest) :
    ∃ xs, xs.length = count ∧ ys = seen.reverse ++ xs ∧
      ∃ ts ∈ (xs.map language).prod, bs = spell ts ++ rest := by
  induction count generalizing seen bs with
  | zero =>
    obtain ⟨rfl, rfl⟩ := eq_of_run_pure h
    exact ⟨[], rfl, by simp, [], Language.nil_mem_one, rfl⟩
  | succ count ih =>
    obtain ⟨a, ts, hts, mid, rfl, hnext⟩ := hd.exists_of_bind h
    obtain ⟨xs, rfl, rfl, us, hus, rfl⟩ := ih hnext
    exact ⟨a :: xs, rfl, by simp, ts ++ us, Language.append_mem_mul hts hus, by simp⟩

theorem run_timesOnto {d : Decoder α} {language : α → Language Token} (hd : d.Reads language)
    {xs : List α} {ts : List Token} (hts : ts ∈ (xs.map language).prod) (seen : List α)
    (rest : Bytes) :
    (timesOnto d xs.length seen).run (spell ts ++ rest) = .ok (seen.reverse ++ xs) rest := by
  induction xs generalizing ts seen with
  | nil =>
    obtain rfl : ts = [] := hts
    rw [List.append_nil]
    rfl
  | cons x xs ih =>
    obtain ⟨us, hus, vs, hvs, rfl⟩ := hts
    rw [spell_append, List.append_assoc, List.length_cons]
    change (d >>= fun a ↦ timesOnto d xs.length (a :: seen)).run _ = _
    rw [hd.run_bind hus, ih hvs]
    simp

theorem reads_list {d : Decoder α} {language : α → Language Token} (hd : d.Reads language) :
    (list d).Reads (Format.list language) where
  sound h := by
    obtain ⟨n, ts, hts, mid, rfl, hnext⟩ := exists_of_length (k := fun n ↦ times n d) h
    obtain ⟨xs, rfl, rfl, us, hus, rfl⟩ := exists_of_run_timesOnto hd hnext
    exact ⟨ts ++ us, Language.append_mem_mul hts hus, by simp⟩
  complete := by
    rintro xs _ ⟨ts, hts, us, hus, rfl⟩ rest
    rw [spell_append, List.append_assoc, list, run_length hts fun n ↦ times n d, times,
      run_timesOnto hd hus]
    rfl

/-! ### Texts, states and truth values -/

theorem reads_text : text.Reads Format.text where
  sound h := by
    obtain ⟨bs, ts, hts, mid, rfl, hnext⟩ := reads_blob.exists_of_bind h
    split at hnext
    · rename_i s hs
      obtain ⟨rfl, rfl⟩ := eq_of_run_pure hnext
      obtain rfl := (Bytes.toString?_eq_some_iff bs s).mp hs
      exact ⟨ts, hts, rfl⟩
    · exact absurd hnext run_refuse_ne_ok
  complete := by
    intro s ts hts rest
    rw [text, reads_blob.run_bind hts, (Bytes.toString?_eq_some_iff _ s).mpr rfl]
    rfl

theorem code_eq_of_ofCode? {code : UInt8} {s : VmState} (h : VmState.ofCode? code = some s) :
    s.code = code := by
  unfold VmState.ofCode? at h
  split_ifs at h with hnone hhalt hfault hbreak
  · rw [← Option.some.inj h, hnone]
    rfl
  · rw [← Option.some.inj h, hhalt]
    rfl
  · rw [← Option.some.inj h, hfault]
    rfl
  · rw [← Option.some.inj h, hbreak]
    rfl

theorem reads_state : state.Reads fun s ↦ {plain [s.code]} where
  sound h := by
    obtain ⟨code, ts, hts, mid, rfl, hnext⟩ := reads_byte.exists_of_bind h
    split at hnext
    · rename_i s hs
      obtain ⟨rfl, rfl⟩ := eq_of_run_pure hnext
      obtain rfl := code_eq_of_ofCode? hs
      exact ⟨ts, hts, rfl⟩
    · exact absurd hnext run_refuse_ne_ok
  complete := by
    intro s ts hts rest
    rw [state, reads_byte.run_bind hts, VmState.ofCode?_code]
    rfl

theorem reads_boolean : boolean.Reads Format.boolean where
  sound h := by
    obtain ⟨b, ts, hts, mid, rfl, hnext⟩ := reads_byte.exists_of_bind h
    split at hnext
    · rename_i hzero
      obtain ⟨rfl, rfl⟩ := eq_of_run_pure hnext
      exact ⟨ts, by rwa [hzero] at hts, rfl⟩
    · split at hnext
      · rename_i hone
        obtain ⟨rfl, rfl⟩ := eq_of_run_pure hnext
        exact ⟨ts, by rwa [hone] at hts, rfl⟩
      · exact absurd hnext run_refuse_ne_ok
  complete := by
    intro b ts hts rest
    rw [boolean, reads_byte.run_bind hts]
    cases b <;> rfl

/-! ### Items -/

theorem exists_of_run_map {d : Decoder α} {language : α → Language Token} (hd : d.Reads language)
    {f : α → β} {bs rest : Bytes} {b : β} (h : (do return f (← d)).run bs = .ok b rest) :
    ∃ a, f a = b ∧ ∃ ts ∈ language a, bs = spell ts ++ rest := by
  obtain ⟨a, ts, hts, mid, rfl, hnext⟩ := hd.exists_of_bind h
  obtain ⟨rfl, rfl⟩ := eq_of_run_pure hnext
  exact ⟨a, rfl, ts, hts, rfl⟩

theorem reads_pair {d : Decoder α} {e : Decoder β} {first : α → Language Token}
    {second : β → Language Token} (hd : d.Reads first) (he : e.Reads second) :
    (do return (← d, ← e)).Reads fun p ↦ first p.1 * second p.2 where
  sound h := by
    obtain ⟨a, ts, hts, mid, rfl, hnext⟩ := hd.exists_of_bind h
    obtain ⟨b, rfl, us, hus, rfl⟩ := exists_of_run_map he hnext
    exact ⟨ts ++ us, Language.append_mem_mul hts hus, by simp⟩
  complete := by
    rintro ⟨a, b⟩ _ ⟨ts, hts, us, hus, rfl⟩ rest
    rw [spell_append, List.append_assoc, hd.run_bind hts, he.run_bind hus]
    rfl

/-- What the decoder of items does after a tag. -/
def itemAfter (room : Nat) (tag : UInt8) : Decoder Item :=
  match tag with
  | 0x00 => pure .null
  | 0x10 => return .pointer (← uint32)
  | 0x20 => return .boolean (← boolean)
  | 0x21 => return .integer (Bytes.toInt (← blob))
  | 0x28 => return .byteString (← blob)
  | 0x30 => return .buffer (← blob)
  | 0x40 => return .array (← list (item room))
  | 0x41 => return .struct (← list (item room))
  | 0x48 => return .map (← list do return (← item room, ← item room))
  | 0x60 => return .interop (← text)
  | tag => refuse (.itemTag tag)

theorem item_succ (room : Nat) : item (room + 1) = byte >>= itemAfter room := rfl

/-- The payload of an integer is spelled like a byte string. -/
theorem exists_blob_of_integer {payload : Bytes} (length_lt : payload.length < 2 ^ 32) :
    ∃ ts ∈ Format.blob payload, spell [.integer payload length_lt] = spell ts :=
  ⟨_, Language.append_mem_mul ⟨length_lt, rfl⟩ rfl, by simp⟩

theorem exists_integer_of_blob {payload : Bytes} {ts : List Token}
    (hts : ts ∈ Format.blob payload) :
    ∃ us ∈ Format.integer (Bytes.toInt payload), spell us = spell ts := by
  obtain ⟨_, ⟨hlt, rfl⟩, _, rfl, rfl⟩ := hts
  exact ⟨_, ⟨payload, hlt, rfl, rfl⟩, by simp⟩

/-- The content of an item is read after its tag. -/
theorem exists_of_run_itemAfter {room : Nat} (ih : (item room).Reads (Format.item room))
    {tag : UInt8} {bs rest : Bytes} {x : Item} (h : (itemAfter room tag).run bs = .ok x rest) :
    x.tag = tag ∧ ∃ ts ∈ Format.content (Format.item room) x, bs = spell ts ++ rest := by
  unfold itemAfter at h
  split at h
  · obtain ⟨rfl, rfl⟩ := eq_of_run_pure h
    exact ⟨rfl, [], Language.nil_mem_one, rfl⟩
  · obtain ⟨position, rfl, hspelled⟩ := exists_of_run_map reads_uint32 h
    exact ⟨rfl, hspelled⟩
  · obtain ⟨value, rfl, hspelled⟩ := exists_of_run_map reads_boolean h
    exact ⟨rfl, hspelled⟩
  · obtain ⟨payload, rfl, ts, hts, rfl⟩ := exists_of_run_map reads_blob h
    obtain ⟨us, hus, hspell⟩ := exists_integer_of_blob hts
    exact ⟨rfl, us, hus, by rw [hspell]⟩
  · obtain ⟨value, rfl, hspelled⟩ := exists_of_run_map reads_blob h
    exact ⟨rfl, hspelled⟩
  · obtain ⟨value, rfl, hspelled⟩ := exists_of_run_map reads_blob h
    exact ⟨rfl, hspelled⟩
  · obtain ⟨items, rfl, hspelled⟩ := exists_of_run_map (reads_list ih) h
    exact ⟨rfl, hspelled⟩
  · obtain ⟨items, rfl, hspelled⟩ := exists_of_run_map (reads_list ih) h
    exact ⟨rfl, hspelled⟩
  · obtain ⟨entries, rfl, hspelled⟩ := exists_of_run_map (reads_list (reads_pair ih ih)) h
    exact ⟨rfl, hspelled⟩
  · obtain ⟨typeName, rfl, hspelled⟩ := exists_of_run_map reads_text h
    exact ⟨rfl, hspelled⟩
  · exact absurd h run_refuse_ne_ok

theorem run_itemAfter {room : Nat} (ih : (item room).Reads (Format.item room)) {x : Item}
    {ts : List Token} (hts : ts ∈ Format.content (Format.item room) x) (rest : Bytes) :
    (itemAfter room x.tag).run (spell ts ++ rest) = .ok x rest := by
  cases x with
  | null =>
    obtain rfl : ts = [] := hts
    rfl
  | pointer position => exact reads_uint32.run_bind hts _ rest
  | boolean value => exact reads_boolean.run_bind hts _ rest
  | integer value =>
    obtain ⟨payload, length_lt, rfl, rfl⟩ := hts
    obtain ⟨us, hus, hspell⟩ := exists_blob_of_integer length_lt
    rw [hspell]
    exact reads_blob.run_bind hus _ rest
  | byteString bs => exact reads_blob.run_bind hts _ rest
  | buffer bs => exact reads_blob.run_bind hts _ rest
  | array items => exact (reads_list ih).run_bind hts _ rest
  | struct items => exact (reads_list ih).run_bind hts _ rest
  | map entries => exact (reads_list (reads_pair ih ih)).run_bind hts _ rest
  | interop typeName => exact reads_text.run_bind hts _ rest

/-- Items are read as they are spelled, level by level. -/
theorem reads_item (room : Nat) : (item room).Reads (Format.item room) := by
  induction room with
  | zero =>
    exact ⟨fun h ↦ absurd h run_refuse_ne_ok, fun h ↦ absurd h (Language.notMem_zero _)⟩
  | succ room ih =>
    constructor
    · intro bs rest x h
      rw [item_succ] at h
      obtain ⟨tag, ts, hts, mid, rfl, hnext⟩ := reads_byte.exists_of_bind h
      obtain ⟨rfl, us, hus, rfl⟩ := exists_of_run_itemAfter ih hnext
      exact ⟨ts ++ us, Language.append_mem_mul hts hus, by simp⟩
    · rintro x _ ⟨ts, hts, us, hus, rfl⟩ rest
      rw [spell_append, List.append_assoc, item_succ, reads_byte.run_bind hts, run_itemAfter ih hus]

theorem reads_stack : stack.Reads Format.stack := reads_list (reads_item maxItemDepth)

/-! ### Records -/

theorem reads_frame : frame.Reads Format.frame where
  sound h := by
    obtain ⟨count, ts, rfl, mid, rfl, hnext⟩ := reads_uint32.exists_of_bind h
    split at hnext
    · exact absurd hnext run_refuse_ne_ok
    · rename_i hcount
      obtain rfl : count = 7 := Classical.not_not.mp hcount
      obtain ⟨hash, ts₁, h₁, mid, rfl, hrun₁⟩ := reads_hash.exists_of_bind hnext
      obtain ⟨position, ts₂, h₂, mid, rfl, hrun₂⟩ := reads_uint32.exists_of_bind hrun₁
      obtain ⟨hasCatch, ts₃, h₃, mid, rfl, hrun₃⟩ := reads_boolean.exists_of_bind hrun₂
      obtain ⟨evaluation, ts₄, h₄, mid, rfl, hrun₄⟩ := reads_stack.exists_of_bind hrun₃
      obtain ⟨locals, ts₅, h₅, mid, rfl, hrun₅⟩ := reads_stack.exists_of_bind hrun₄
      obtain ⟨statics, ts₆, h₆, mid, rfl, hrun₆⟩ := reads_stack.exists_of_bind hrun₅
      obtain ⟨arguments, rfl, ts₇, h₇, rfl⟩ := exists_of_run_map reads_stack hrun₆
      refine ⟨_, Language.append_mem_mul (Language.append_mem_mul (Language.append_mem_mul
        (Language.append_mem_mul (Language.append_mem_mul (Language.append_mem_mul
          (Language.append_mem_mul rfl h₁) h₂) h₃) h₄) h₅) h₆) h₇, ?_⟩
      simp only [spell_append, List.append_assoc]
  complete := by
    rintro f _ ⟨_, ⟨_, ⟨_, ⟨_, ⟨_, ⟨_, ⟨ts₀, h₀, ts₁, h₁, rfl⟩, ts₂, h₂, rfl⟩, ts₃, h₃, rfl⟩, ts₄,
      h₄, rfl⟩, ts₅, h₅, rfl⟩, ts₆, h₆, rfl⟩, ts₇, h₇, rfl⟩ rest
    simp only [spell_append, List.append_assoc]
    have hcount : ¬ (7 : UInt32) ≠ Encoder.frameFields := by decide
    rw [frame, reads_uint32.run_bind h₀, if_neg hcount, reads_hash.run_bind h₁,
      reads_uint32.run_bind h₂, reads_boolean.run_bind h₃, reads_stack.run_bind h₄,
      reads_stack.run_bind h₅, reads_stack.run_bind h₆, reads_stack.run_bind h₇]
    rfl

theorem reads_entry : entry.Reads Format.entry where
  sound h := by
    obtain ⟨key, ts, hts, mid, rfl, hnext⟩ := reads_blob.exists_of_bind h
    obtain ⟨value, rfl, us, hus, rfl⟩ := exists_of_run_map reads_blob hnext
    exact ⟨ts ++ us, Language.append_mem_mul hts hus, by simp⟩
  complete := by
    rintro e _ ⟨ts, hts, us, hus, rfl⟩ rest
    rw [spell_append, List.append_assoc, entry, reads_blob.run_bind hts, reads_blob.run_bind hus]
    rfl

/-- The fields of a kind are read to a record of that kind. -/
theorem exists_of_run_fields {kind : RecordKind} {bs rest : Bytes} {r : Record}
    (h : (fields kind).run bs = .ok r rest) :
    r.kind = kind ∧ ∃ ts ∈ Format.fields r, bs = spell ts ++ rest := by
  cases kind with
  | trace =>
    obtain ⟨state, ts, hts, mid, rfl, hnext⟩ := reads_state.exists_of_bind h
    obtain ⟨frames, rfl, us, hus, rfl⟩ := exists_of_run_map (reads_list reads_frame) hnext
    exact ⟨rfl, ts ++ us, Language.append_mem_mul hts hus, by simp⟩
  | notify =>
    obtain ⟨hash, ts, hts, mid, rfl, hnext⟩ := reads_hash.exists_of_bind h
    obtain ⟨eventName, us, hus, mid, rfl, hlast⟩ := reads_text.exists_of_bind hnext
    obtain ⟨state, rfl, vs, hvs, rfl⟩ := exists_of_run_map reads_stack hlast
    exact ⟨rfl, ts ++ us ++ vs,
      Language.append_mem_mul (Language.append_mem_mul hts hus) hvs, by simp⟩
  | log =>
    obtain ⟨hash, ts, hts, mid, rfl, hnext⟩ := reads_hash.exists_of_bind h
    obtain ⟨message, rfl, us, hus, rfl⟩ := exists_of_run_map reads_text hnext
    exact ⟨rfl, ts ++ us, Language.append_mem_mul hts hus, by simp⟩
  | results =>
    obtain ⟨state, ts, hts, mid, rfl, hnext⟩ := reads_state.exists_of_bind h
    obtain ⟨gas, us, hus, mid, rfl, hlast⟩ := reads_int64.exists_of_bind hnext
    obtain ⟨results, rfl, vs, hvs, rfl⟩ := exists_of_run_map reads_stack hlast
    exact ⟨rfl, ts ++ us ++ vs,
      Language.append_mem_mul (Language.append_mem_mul hts hus) hvs, by simp⟩
  | fault =>
    obtain ⟨exception, rfl, hspelled⟩ := exists_of_run_map reads_text h
    exact ⟨rfl, hspelled⟩
  | script =>
    obtain ⟨hash, ts, hts, mid, rfl, hnext⟩ := reads_hash.exists_of_bind h
    obtain ⟨code, rfl, us, hus, rfl⟩ := exists_of_run_map reads_blob hnext
    exact ⟨rfl, ts ++ us, Language.append_mem_mul hts hus, by simp⟩
  | storage =>
    obtain ⟨hash, ts, hts, mid, rfl, hnext⟩ := reads_hash.exists_of_bind h
    obtain ⟨entries, rfl, us, hus, rfl⟩ := exists_of_run_map (reads_list reads_entry) hnext
    exact ⟨rfl, ts ++ us, Language.append_mem_mul hts hus, by simp⟩
  | settings =>
    obtain ⟨network, ts, hts, mid, rfl, hnext⟩ := reads_uint32.exists_of_bind h
    obtain ⟨addressVersion, rfl, us, hus, rfl⟩ := exists_of_run_map reads_byte hnext
    exact ⟨rfl, ts ++ us, Language.append_mem_mul hts hus, by simp⟩

theorem run_fields {r : Record} {ts : List Token} (hts : ts ∈ Format.fields r) (rest : Bytes) :
    (fields r.kind).run (spell ts ++ rest) = .ok r rest := by
  cases r with
  | trace state frames =>
    obtain ⟨ts, hts, us, hus, rfl⟩ := hts
    rw [spell_append, List.append_assoc]
    exact (reads_state.run_bind hts _ _).trans ((reads_list reads_frame).run_bind hus _ rest)
  | notify hash eventName state =>
    obtain ⟨_, ⟨ts, hts, us, hus, rfl⟩, vs, hvs, rfl⟩ := hts
    rw [spell_append, spell_append, List.append_assoc, List.append_assoc]
    exact (reads_hash.run_bind hts _ _).trans
      ((reads_text.run_bind hus _ _).trans (reads_stack.run_bind hvs _ rest))
  | log hash message =>
    obtain ⟨ts, hts, us, hus, rfl⟩ := hts
    rw [spell_append, List.append_assoc]
    exact (reads_hash.run_bind hts _ _).trans (reads_text.run_bind hus _ rest)
  | results state gas results =>
    obtain ⟨_, ⟨ts, hts, us, hus, rfl⟩, vs, hvs, rfl⟩ := hts
    rw [spell_append, spell_append, List.append_assoc, List.append_assoc]
    exact (reads_state.run_bind hts _ _).trans
      ((reads_int64.run_bind hus _ _).trans (reads_stack.run_bind hvs _ rest))
  | fault exception => exact reads_text.run_bind hts _ rest
  | script hash code =>
    obtain ⟨ts, hts, us, hus, rfl⟩ := hts
    rw [spell_append, List.append_assoc]
    exact (reads_hash.run_bind hts _ _).trans (reads_blob.run_bind hus _ rest)
  | storage hash entries =>
    obtain ⟨ts, hts, us, hus, rfl⟩ := hts
    rw [spell_append, List.append_assoc]
    exact (reads_hash.run_bind hts _ _).trans ((reads_list reads_entry).run_bind hus _ rest)
  | settings network addressVersion =>
    obtain ⟨ts, hts, us, hus, rfl⟩ := hts
    rw [spell_append, List.append_assoc]
    exact (reads_uint32.run_bind hts _ _).trans (reads_byte.run_bind hus _ rest)

theorem discriminator_eq_of_ofDiscriminator? {code : Int32} {kind : RecordKind}
    (h : RecordKind.ofDiscriminator? code = some kind) : kind.discriminator = code := by
  simpa using List.find?_some h

theorem reads_record : record.Reads Format.record where
  sound {_ _ r} h := by
    obtain ⟨elements, ts, hts, mid, rfl, hnext⟩ := reads_uint32.exists_of_bind h
    split at hnext
    · exact absurd hnext run_refuse_ne_ok
    · rename_i helements
      obtain rfl : elements = 2 := Classical.not_not.mp helements
      obtain ⟨code, us, hus, mid, rfl, hkindRun⟩ := reads_int32.exists_of_bind hnext
      split at hkindRun
      · exact absurd hkindRun run_refuse_ne_ok
      · rename_i kind hkind
        obtain rfl := discriminator_eq_of_ofDiscriminator? hkind
        obtain ⟨count, vs, hvs, mid, rfl, hfields⟩ := reads_uint32.exists_of_bind hkindRun
        split at hfields
        · exact absurd hfields run_refuse_ne_ok
        · rename_i hcount
          obtain rfl : count = kind.fieldCount := Classical.not_not.mp hcount
          obtain ⟨rfl, ws, hws, rfl⟩ := exists_of_run_fields hfields
          exact ⟨ts ++ us ++ vs ++ ws, Language.append_mem_mul (Language.append_mem_mul
            (Language.append_mem_mul hts hus) hvs) hws, by simp⟩
  complete := by
    rintro r _ ⟨_, ⟨_, ⟨ts, hts, us, hus, rfl⟩, vs, hvs, rfl⟩, ws, hws, rfl⟩ rest
    simp only [spell_append, List.append_assoc]
    rw [record, reads_uint32.run_bind hts, if_neg (not_not_intro rfl), reads_int32.run_bind hus,
      RecordKind.ofDiscriminator?_discriminator]
    change (uint32 >>= _).run _ = _
    rw [reads_uint32.run_bind hvs, if_neg (not_not_intro rfl), run_fields hws]

end Decoder

/-- A byte string is accepted as a record exactly if it is one of the spellings of the record. -/
theorem Record.decode_eq_ok_iff (bs : Bytes) (r : Record) :
    Record.decode bs = .ok r ↔ ∃ ts ∈ Format.record r, spell ts = bs := by
  unfold Record.decode Record.decodeFrom
  constructor
  · intro h
    split at h
    · rename_i r' hrun
      obtain ⟨ts, hts, rfl⟩ := Decoder.reads_record.sound hrun
      obtain rfl := Except.ok.inj h
      exact ⟨ts, hts, (List.append_nil _).symm⟩
    · simp at h
    · simp at h
  · rintro ⟨ts, hts, rfl⟩
    have hrun := Decoder.reads_record.complete hts []
    rw [List.append_nil] at hrun
    rw [hrun]

end ScriptTrace
