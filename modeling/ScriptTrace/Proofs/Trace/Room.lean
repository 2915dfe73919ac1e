import ScriptTrace.Proofs.Codec.Stream
import ScriptTrace.Proofs.Storage.Room
import ScriptTrace.Trace.Sink

/-!
Writing records where only so many bytes find room. The records that a binary sink acknowledges over
a writer with room for so many bytes are those whose encodings fit together
(`BinarySink.exists_writeEach`), and they are the records read back from the bytes taken
(`BinarySink.write_within_room`).
-/

set_option autoImplicit false
set_option relaxedAutoImplicit false

namespace ScriptTrace

/-! ### Records -/

namespace Record

/-- The records of a list that have an encoding. -/
def encodable (records : List Record) : List Record := records.filter (·.encode.isOk)

/-- The records of a list whose writes were answered without an error. -/
def acknowledged : List Record → List (Except TracerError Unit) → List Record
  | record :: records, .ok () :: answers => record :: acknowledged records answers
  | _ :: records, .error _ :: answers => acknowledged records answers
  | _, _ => []

/-- The encodings of the records of a list that have one. -/
def encodings (records : List Record) : List Bytes := records.filterMap (·.encode.toOption)

theorem encodings_cons_of_ok {record : Record} {bs : Bytes} (h : record.encode = .ok bs)
    (records : List Record) : encodings (record :: records) = bs :: encodings records :=
  List.filterMap_cons_some (by rw [h]; rfl)

theorem encodings_cons_of_error {record : Record} {e : CodecError} (h : record.encode = .error e)
    (records : List Record) : encodings (record :: records) = encodings records :=
  List.filterMap_cons_none (by rw [h]; rfl)

theorem encodable_cons_of_ok {record : Record} {bs : Bytes} (h : record.encode = .ok bs)
    (records : List Record) : encodable (record :: records) = record :: encodable records :=
  List.filter_cons_of_pos (by rw [h]; rfl)

theorem encodable_cons_of_error {record : Record} {e : CodecError} (h : record.encode = .error e)
    (records : List Record) : encodable (record :: records) = encodable records :=
  List.filter_cons_of_neg (by rw [h]; exact nofun)

theorem forall₂_encodings (records : List Record) :
    List.Forall₂ (fun record bs ↦ record.encode = .ok bs) (encodable records)
      (encodings records) := by
  induction records with
  | nil => exact .nil
  | cons record records ih =>
    cases h : record.encode with
    | error e =>
      rwa [encodings_cons_of_error h, encodable_cons_of_error h]
    | ok bs =>
      rw [encodings_cons_of_ok h, encodable_cons_of_ok h]
      exact .cons h ih

theorem ne_nil_of_encode {record : Record} {bs : Bytes} (h : record.encode = .ok bs) : bs ≠ [] :=
  List.ne_nil_of_length_pos
    (length_pos_of_settles ((decode_eq_ok_iff_settles _ _).mp (decode_of_encode h)))

theorem exists_of_mem_encodings {records : List Record} {bs : Bytes} (h : bs ∈ encodings records) :
    ∃ record : Record, record.encode = .ok bs := by
  obtain ⟨record, -, hencode⟩ := List.mem_filterMap.mp h
  refine ⟨record, ?_⟩
  cases hresult : record.encode with
  | error e =>
    rw [hresult] at hencode
    cases hencode
  | ok cs =>
    rw [hresult] at hencode
    exact congrArg Except.ok (Option.some.inj hencode)

theorem ne_nil_of_mem_encodings {records : List Record} {bs : Bytes} (h : bs ∈ encodings records) :
    bs ≠ [] := by
  obtain ⟨record, hencode⟩ := exists_of_mem_encodings h
  exact ne_nil_of_encode hencode

end Record

namespace BinarySink

variable {τ : Type} {w : Writer τ} {ready : τ → Prop} {taken : τ → Bytes}
  {room : τ → Option Nat}

theorem write_of_error {record : Record} {e : CodecError} (h : record.encode = .error e)
    (s : BinarySink τ) : (sink w).write record s = .error (.codec e) s := by
  simp only [sink, h]
  rfl

theorem write_of_fits (hw : w.Bounded ready taken room) {record : Record} {bs : Bytes}
    (h : record.encode = .ok bs) {s : BinarySink τ} (hready : ready s.inner)
    (hfits : ∀ left ∈ room s.inner, bs.length ≤ left) :
    ∃ t, (sink w).write record s = .ok () ⟨t, s.written + 1⟩ ∧ ready t ∧
      taken t = taken s.inner ++ bs ∧ room t = (room s.inner).map (· - bs.length) := by
  obtain ⟨t, hwrite, hstate⟩ := hw.fits bs s.inner hready hfits
  refine ⟨t, ?_, hstate⟩
  have hinner : onInner (failingWith TracerError.sink (w.write bs)) s = .ok () ⟨t, s.written⟩ := by
    simp only [onInner, failingWith, hwrite]
  simp only [sink, h]
  rw [bind_ok hinner]
  rfl

theorem write_of_exceeds (hw : w.Bounded ready taken room) {record : Record} {bs : Bytes}
    (h : record.encode = .ok bs) {s : BinarySink τ} (hready : ready s.inner) {left : Nat}
    (hroom : room s.inner = some left) (hlt : left < bs.length) :
    ∃ e t, (sink w).write record s = .error (.sink e) ⟨t, s.written⟩ ∧ ready t ∧
      taken t = taken s.inner ++ bs.take left ∧ room t = some 0 := by
  obtain ⟨e, t, hwrite, hstate⟩ := hw.exceeds bs s.inner left hready hroom hlt
  refine ⟨e, t, ?_, hstate⟩
  have hinner : onInner (failingWith TracerError.sink (w.write bs)) s =
      .error (.sink e) ⟨t, s.written⟩ := by
    simp only [onInner, failingWith, hwrite]
  simp only [sink, h]
  rw [bind_error hinner]

/-- Write every record and go on after failures. -/
def writeEach (w : Writer τ) (records : List Record) :
    EStateM TracerError (BinarySink τ) (List (Except TracerError Unit)) :=
  records.mapM fun record ↦ attempt ((sink w).write record)

/-- The answer to a record where `before` records with an encoding precede it and `count` of all
those are acknowledged. -/
def Answers (count before : Nat) (record : Record) (answer : Except TracerError Unit) : Prop :=
  match record.encode with
  | .error e => answer = .error (.codec e)
  | .ok _ => if before < count then answer = .ok () else ∃ e, answer = .error (.sink e)

section Answers

variable {count before : Nat} {record : Record}

theorem Answers.codec {e : CodecError} (h : record.encode = .error e) :
    Answers count before record (.error (.codec e)) := by
  rw [Answers, h]

theorem Answers.acknowledged {bs : Bytes} (h : record.encode = .ok bs) (hlt : before < count) :
    Answers count before record (.ok ()) := by
  rw [Answers, h]
  dsimp only
  rw [if_pos hlt]

theorem Answers.refused {bs : Bytes} (h : record.encode = .ok bs) (hle : ¬before < count)
    (e : IoError) : Answers count before record (.error (.sink e)) := by
  rw [Answers, h]
  dsimp only
  rw [if_neg hle]
  exact ⟨e, rfl⟩

theorem Answers.succ {answer : Except TracerError Unit} (h : Answers count before record answer) :
    Answers (1 + count) (1 + before) record answer := by
  unfold Answers at *
  simpa only [Nat.add_lt_add_iff_left] using h

/-- Where nothing is acknowledged it does not matter what comes before. -/
theorem Answers.of_zero {before' : Nat} {answer : Except TracerError Unit}
    (h : Answers 0 before record answer) : Answers 0 before' record answer := by
  unfold Answers at *
  simpa only [Nat.not_lt_zero, if_false] using h

end Answers

/-- A list of answers goes with a list of records. -/
def AnswersEach (count : Nat) (records : List Record) (answers : List (Except TracerError Unit)) :
    Prop :=
  answers.length = records.length ∧ ∀ (i : Nat) record answer, records[i]? = some record →
    answers[i]? = some answer →
    Answers count (Record.encodings (records.take i)).length record answer

/-- Assumes: the other answers go with the other records. -/
theorem AnswersEach.cons {count count' : Nat} {record : Record} {records : List Record}
    {answer : Except TracerError Unit} {answers : List (Except TracerError Unit)}
    (hfirst : Answers count 0 record answer) (h : AnswersEach count' records answers)
    (hrest : ∀ before later reply, Answers count' before later reply →
      Answers count ((Record.encodings [record]).length + before) later reply) :
    AnswersEach count (record :: records) (answer :: answers) := by
  refine ⟨congrArg Nat.succ h.1, fun i later reply hlater hreply ↦ ?_⟩
  cases i with
  | zero =>
    obtain rfl : record = later := Option.some.inj hlater
    obtain rfl : answer = reply := Option.some.inj hreply
    exact hfirst
  | succ i =>
    rw [List.getElem?_cons_succ] at hlater hreply
    have hlength : (Record.encodings ((record :: records).take (i + 1))).length =
        (Record.encodings [record]).length + (Record.encodings (records.take i)).length := by
      rw [List.take_succ_cons, ← List.length_append, Record.encodings, Record.encodings,
        Record.encodings, ← List.filterMap_append, List.singleton_append]
    rw [hlength]
    exact hrest _ later reply (h.2 i later reply hlater hreply)

/-- What writing records one after the other does where there is room for `left` bytes. -/
structure Fills (taken : τ → Bytes) (left : Nat) (records : List Record) (s s' : BinarySink τ)
    (answers : List (Except TracerError Unit)) : Prop where
  written : s'.written = s.written + Bytes.fitting left (Record.encodings records)
  taken : taken s'.inner = taken s.inner ++ (Record.encodings records).flatten.take left
  answered : AnswersEach (Bytes.fitting left (Record.encodings records)) records answers
  acknowledged : Record.acknowledged records answers =
    (Record.encodable records).take (Bytes.fitting left (Record.encodings records))

namespace Fills

variable {left : Nat} {record : Record} {records : List Record} {bs : Bytes} {t : τ}
  {s s' : BinarySink τ} {answers : List (Except TracerError Unit)}

theorem nil (taken : τ → Bytes) (left : Nat) (s : BinarySink τ) : Fills taken left [] s s [] where
  written := by rw [Record.encodings, List.filterMap_nil, Bytes.fitting, Nat.add_zero]
  taken := by
    rw [Record.encodings, List.filterMap_nil, List.flatten_nil, List.take_nil, List.append_nil]
  answered := by
    refine ⟨rfl, fun i record answer hrecord ↦ ?_⟩
    cases hrecord
  acknowledged := rfl

/-- A record without an encoding comes first. -/
theorem codec {e : CodecError} (hencode : record.encode = .error e)
    (h : Fills taken left records s s' answers) :
    Fills taken left (record :: records) s s' (.error (.codec e) :: answers) := by
  have hencodings := Record.encodings_cons_of_error hencode records
  have hnone : (Record.encodings [record]).length = 0 := by
    rw [Record.encodings_cons_of_error hencode]
    rfl
  refine ⟨?_, ?_, ?_, ?_⟩
  · rw [hencodings, h.written]
  · rw [hencodings, h.taken]
  · rw [hencodings]
    refine h.answered.cons (.codec hencode) fun before later reply hreply ↦ ?_
    rwa [hnone, Nat.zero_add]
  · rw [hencodings, Record.encodable_cons_of_error hencode, ← h.acknowledged]
    rfl

/-- A record comes first whose encoding fits. -/
theorem fits (hencode : record.encode = .ok bs) (hfits : bs.length ≤ left)
    (ht : taken t = taken s.inner ++ bs)
    (h : Fills taken (left - bs.length) records ⟨t, s.written + 1⟩ s' answers) :
    Fills taken left (record :: records) s s' (.ok () :: answers) := by
  have hencodings := Record.encodings_cons_of_ok hencode records
  have hone : (Record.encodings [record]).length = 1 := by
    rw [Record.encodings_cons_of_ok hencode]
    rfl
  have hcount : Bytes.fitting left (Record.encodings (record :: records)) =
      Bytes.fitting (left - bs.length) (Record.encodings records) + 1 := by
    rw [hencodings, Bytes.fitting, if_pos hfits]
  refine ⟨?_, ?_, ?_, ?_⟩
  · rw [h.written, hcount]
    dsimp only
    omega
  · rw [h.taken, ht, hencodings, List.flatten_cons, List.append_assoc, List.take_append,
      List.take_of_length_le hfits]
  · rw [hcount]
    refine h.answered.cons (.acknowledged hencode (Nat.succ_pos _))
      fun before later reply hreply ↦ ?_
    rw [hone, Nat.add_comm _ 1]
    exact hreply.succ
  · rw [hcount, Record.encodable_cons_of_ok hencode, List.take_succ_cons, ← h.acknowledged]
    rfl

/-- A record comes first whose encoding does not fit; there is no room for the others. -/
theorem exceeds (hencode : record.encode = .ok bs) (hlt : left < bs.length)
    (ht : taken t = taken s.inner ++ bs.take left) (e : IoError)
    (h : Fills taken 0 records ⟨t, s.written⟩ s' answers) :
    Fills taken left (record :: records) s s' (.error (.sink e) :: answers) := by
  obtain ⟨hwritten, htaken, heach, hacknowledged⟩ := h
  have hencodings := Record.encodings_cons_of_ok hencode records
  have hnone : Bytes.fitting 0 (Record.encodings records) = 0 :=
    Bytes.fitting_zero fun bs ↦ Record.ne_nil_of_mem_encodings
  have hcount : Bytes.fitting left (Record.encodings (record :: records)) = 0 := by
    rw [hencodings, Bytes.fitting, if_neg (Nat.not_le_of_lt hlt)]
  rw [hnone] at hwritten heach hacknowledged
  refine ⟨by rw [hcount, hwritten], ?_, ?_, ?_⟩
  · rw [htaken, ht, hencodings, List.flatten_cons, List.take_zero, List.append_nil,
      List.take_append_of_le_length (Nat.le_of_lt hlt)]
  · rw [hcount]
    exact heach.cons (.refused hencode (Nat.not_lt_zero 0) e)
      fun before later reply hreply ↦ hreply.of_zero
  · rw [hcount]
    exact hacknowledged

end Fills

/-- Writing records one after the other fills the room with their encodings. A room without end is
as good as one for all of them. -/
theorem exists_writeEach (hw : w.Bounded ready taken room) (records : List Record)
    (s : BinarySink τ) (hready : ready s.inner) {left : Nat}
    (hroom : room s.inner = some left ∨
      room s.inner = none ∧ (Record.encodings records).flatten.length ≤ left) :
    ∃ answers s', writeEach w records s = .ok answers s' ∧ ready s'.inner ∧
      Fills taken left records s s' answers := by
  induction records generalizing s left with
  | nil => exact ⟨[], s, rfl, hready, .nil taken left s⟩
  | cons record records ih =>
    cases hencode : record.encode with
    | error e =>
      rw [Record.encodings_cons_of_error hencode] at hroom
      obtain ⟨answers, s', hrun, hready', hfills⟩ := ih s hready hroom
      have hanswer : (sink w).write record s = resultOf (.error (.codec e)) s :=
        write_of_error hencode s
      exact ⟨_, s', mapM_attempt_cons hanswer hrun, hready', hfills.codec hencode⟩
    | ok bs =>
      rw [Record.encodings_cons_of_ok hencode, List.flatten_cons, List.length_append] at hroom
      by_cases hfits : bs.length ≤ left
      · have hall : ∀ left' ∈ room s.inner, bs.length ≤ left' := by
          intro left' hleft'
          rcases hroom with hsome | ⟨hnone, -⟩
          · rwa [← Option.some.inj (hsome.symm.trans hleft')]
          · cases hnone.symm.trans hleft'
        obtain ⟨t, hwrite, hready₁, htaken₁, hroom₁⟩ := write_of_fits hw hencode hready hall
        have hroom' : room t = some (left - bs.length) ∨
            room t = none ∧ (Record.encodings records).flatten.length ≤ left - bs.length := by
          rcases hroom with hsome | ⟨hnone, henough⟩
          · exact .inl (by rw [hroom₁, hsome, Option.map_some])
          · exact .inr ⟨by rw [hroom₁, hnone, Option.map_none], by omega⟩
        obtain ⟨answers, s', hrun, hready', hfills⟩ := ih ⟨t, s.written + 1⟩ hready₁ hroom'
        have hanswer : (sink w).write record s = resultOf (.ok ()) ⟨t, s.written + 1⟩ := hwrite
        exact ⟨_, s', mapM_attempt_cons hanswer hrun, hready', hfills.fits hencode hfits htaken₁⟩
      · have hlt : left < bs.length := Nat.lt_of_not_le hfits
        have hsome : room s.inner = some left := by
          rcases hroom with hsome | ⟨-, henough⟩
          · exact hsome
          · omega
        obtain ⟨e, t, hwrite, hready₁, htaken₁, hroom₁⟩ :=
          write_of_exceeds hw hencode hready hsome hlt
        obtain ⟨answers, s', hrun, hready', hfills⟩ := ih ⟨t, s.written⟩ hready₁ (.inl hroom₁)
        have hanswer : (sink w).write record s = resultOf (.error (.sink e)) ⟨t, s.written⟩ :=
          hwrite
        exact ⟨_, s', mapM_attempt_cons hanswer hrun, hready',
          hfills.exceeds hencode hlt htaken₁ e⟩

end BinarySink

namespace Record

/-- Encoding a record into a writer takes the part of its encoding that fits. -/
theorem exists_encodeInto {τ : Type} {w : Writer τ} {ready : τ → Prop} {taken : τ → Bytes}
    {room : τ → Option Nat} (hw : w.Bounded ready taken room) {record : Record} {bs : Bytes}
    (h : record.encode = .ok bs) {t : τ} (hready : ready t) {left : Nat}
    (hroom : room t = some left) :
    ∃ t', taken t' = taken t ++ bs.take left ∧
      if bs.length ≤ left then record.encodeInto w t = .ok () t'
      else ∃ e, record.encodeInto w t = .error (.io e) t' := by
  by_cases hfits : bs.length ≤ left
  · obtain ⟨t', hwrite, -, htaken, -⟩ := hw.fits bs t hready fun left' hleft' ↦ by
      rwa [← Option.some.inj (hroom.symm.trans hleft')]
    refine ⟨t', by rw [htaken, List.take_of_length_le hfits], ?_⟩
    rw [if_pos hfits]
    simp only [encodeInto, h, failingWith, hwrite]
  · obtain ⟨e, t', hwrite, -, htaken, -⟩ :=
      hw.exceeds bs t left hready hroom (Nat.lt_of_not_le hfits)
    refine ⟨t', htaken, ?_⟩
    rw [if_neg hfits]
    exact ⟨e, by simp only [encodeInto, h, failingWith, hwrite]⟩

/-- Nothing is left of the encodings, or the next one is cut short. -/
theorem scan_of_part {records : List Record} {count : Nat} {part : Bytes}
    (h : part = [] ∨ ∃ bs, (encodings records)[count]? = some bs ∧ part <+: bs ∧ part ≠ bs) :
    scan part = if part = [] then [] else [.error .truncated] := by
  rcases h with rfl | ⟨bs, hbs, hbegins, hne⟩
  · rw [scan_nil, if_pos rfl]
  · obtain ⟨record, hencode⟩ := exists_of_mem_encodings (List.mem_of_getElem? hbs)
    exact scan_of_encode hencode hbegins hne

/-- What reading finds in so many bytes of encodings in a row. -/
theorem scan_take_flatten {records : List Record} {pieces : List Bytes}
    (hpieces : encodings records = pieces) (left : Nat) :
    scan (pieces.flatten.take left) =
      ((encodable records).take (Bytes.fitting left pieces)).map .ok ++
        if pieces.flatten.take left = (pieces.take (Bytes.fitting left pieces)).flatten then []
        else [.error .truncated] := by
  subst hpieces
  obtain ⟨part, htake, hpart⟩ := Bytes.exists_take_flatten left (encodings records)
  have hwhole :=
    List.forall₂_take (Bytes.fitting left (encodings records)) (forall₂_encodings records)
  rw [htake, scan_flatten_append hwhole, scan_of_part hpart]
  simp only [List.append_right_eq_self]

end Record

/-- Assumes: a writer that has taken nothing and has room for `left` bytes, of which it fills as
much as it can before it refuses a write. Let `count` be the largest number of encodings, in the
order of the records, that fit into the room together. Of records written one after the other the
first `count` with an encoding are acknowledged and counted, every later one is refused by the
writer, and one without an encoding is refused before that and changes nothing. The encodings in a
row are taken up to the room. Reading the bytes taken gives the records acknowledged, and then the
end if the bytes stop between two encodings and one that is cut short if not. A record encoded into
the writer by itself is taken up to the room, and accepted exactly if its encoding fits. -/
theorem BinarySink.write_within_room {τ : Type} {w : Writer τ} {ready : τ → Prop}
    {taken : τ → Bytes} {room : τ → Option Nat} (hw : w.Bounded ready taken room)
    (records : List Record) {t : τ} (hready : ready t) {left : Nat} (hroom : room t = some left)
    (hempty : taken t = []) :
    let pieces := Record.encodings records
    (∃ count answers s', count ≤ pieces.length ∧
      (∀ n ≤ pieces.length, (pieces.take n).flatten.length ≤ left ↔ n ≤ count) ∧
      writeEach w records ⟨t, 0⟩ = .ok answers s' ∧
      AnswersEach count records answers ∧
      s'.written = count ∧
      taken s'.inner = pieces.flatten.take left ∧
      let acknowledged := (Record.encodable records).take count
      ((∃ n, taken s'.inner = (pieces.take n).flatten) →
        (RecordReader.ofBytes (taken s'.inner)).Yields (acknowledged.map .ok)) ∧
      ((¬∃ n, taken s'.inner = (pieces.take n).flatten) →
        (RecordReader.ofBytes (taken s'.inner)).Yields
          (acknowledged.map .ok ++ [.error .truncated]))) ∧
    (∀ record e, Record.encode record = .error e →
      (∀ s, (sink w).write record s = .error (.codec e) s) ∧
      record.encodeInto w t = .error e t) ∧
    ∀ record bs, Record.encode record = .ok bs → ∃ t', taken t' = bs.take left ∧
      if bs.length ≤ left then record.encodeInto w t = .ok () t'
      else ∃ e, record.encodeInto w t = .error (.io e) t' := by
  intro pieces
  refine ⟨?_, fun record e hencode ↦ ⟨write_of_error hencode, ?_⟩, fun record bs hencode ↦ ?_⟩
  · obtain ⟨answers, s', hrun, -, hwritten, htaken, heach, -⟩ :=
      exists_writeEach hw records ⟨t, 0⟩ hready (.inl hroom)
    rw [hempty, List.nil_append] at htaken
    have hscan : Record.scan (pieces.flatten.take left) = _ := Record.scan_take_flatten rfl left
    rw [← htaken] at hscan
    have hyields : (RecordReader.ofBytes (taken s'.inner)).Yields _ :=
      RecordReader.yields_scan rfl rfl
    have hboundary := Bytes.exists_take_flatten_eq_iff left pieces
    rw [← htaken] at hboundary
    refine ⟨Bytes.fitting left pieces, answers, s', Bytes.fitting_le_length left pieces,
      fun n hn ↦ Bytes.length_flatten_take_le_iff hn, hrun, heach, ?_, htaken, fun hends ↦ ?_,
      fun hcut ↦ ?_⟩
    · rw [hwritten, Nat.zero_add]
    · rw [if_pos (hboundary.mp hends), List.append_nil] at hscan
      rwa [← hscan]
    · rw [if_neg fun heq ↦ hcut (hboundary.mpr heq)] at hscan
      rwa [← hscan]
  · simp only [Record.encodeInto, hencode]
    rfl
  · obtain ⟨t', htaken, hanswer⟩ := Record.exists_encodeInto hw hencode hready hroom
    rw [hempty, List.nil_append] at htaken
    exact ⟨t', htaken, hanswer⟩

/-- An item below as many arrays as there are levels has no encoding. -/
theorem Encoder.item_iterate_array (room : Nat) (x : Item) :
    item room ((fun y ↦ Item.array [y])^[room] x) = .error .tooDeep := by
  induction room with
  | zero => rw [Function.iterate_zero_apply, item]
  | succ room ih =>
    rw [Function.iterate_succ_apply', item, items, ih]
    rfl

/-- A device that takes three bytes at a call, twenty in all, and then none. Of two records with an
item too deep for an encoding between them the first is acknowledged, and three bytes of the last
one are taken. -/
theorem BinarySink.write_within_room_of_device :
    let deep := Record.results .halt 0 [(fun x ↦ Item.array [x])^[maxItemDepth] .null]
    let records := [Record.settings 7 53, deep, .fault "x"]
    let d : Device := ⟨[], 20, fun _ ↦ 2, 0, none⟩
    Device.writer.Bounded (fun _ ↦ True) Device.taken (fun d ↦ some d.left) ∧
      deep.encode.isOk = false ∧
      ∃ answers s', writeEach Device.writer records ⟨d, 0⟩ = .ok answers s' ∧ s'.written = 1 ∧
        s'.inner.taken = [2, 0, 0, 0, 7, 0, 0, 0, 2, 0, 0, 0, 7, 0, 0, 0, 53, 2, 0, 0] ∧
        (RecordReader.ofBytes s'.inner.taken).Yields
          [.ok (.settings 7 53), .error .truncated] := by
  intro deep records d
  have hdeep : deep.encode = .error (.malformed .tooDeep) := by
    have hitem := Encoder.item_iterate_array maxItemDepth .null
    simp only [deep, Record.encode, Encoder.fields, Encoder.stack, Encoder.items, hitem]
    rfl
  have hpieces : Record.encodings records =
      [[2, 0, 0, 0, 7, 0, 0, 0, 2, 0, 0, 0, 7, 0, 0, 0, 53],
        [2, 0, 0, 0, 4, 0, 0, 0, 1, 0, 0, 0, 1, 0, 0, 0, 120]] := by
    have hfirst : (Record.settings 7 53).encode =
        .ok [2, 0, 0, 0, 7, 0, 0, 0, 2, 0, 0, 0, 7, 0, 0, 0, 53] := by rfl
    rw [Record.encodings_cons_of_ok hfirst, Record.encodings_cons_of_error hdeep]
    rfl
  have hroom : some d.left = some 20 := rfl
  obtain ⟨⟨count, answers, s', -, hcount, hrun, -, hwritten, htaken, -, hcut⟩, -⟩ :=
    write_within_room Device.bounded records trivial hroom rfl
  rw [hpieces] at hcount htaken hcut
  have hone : 1 ≤ count := (hcount 1 (by decide)).mp (by decide)
  have htwo : ¬2 ≤ count := fun h ↦ absurd ((hcount 2 (by decide)).mpr h) (by decide)
  obtain rfl : count = 1 := by omega
  have hencodable : Record.encodable records = [.settings 7 53, .fault "x"] := by
    have hfirst : ∃ bs, (Record.settings 7 53).encode = .ok bs := ⟨_, rfl⟩
    obtain ⟨bs, hbs⟩ := hfirst
    rw [Record.encodable_cons_of_ok hbs, Record.encodable_cons_of_error hdeep]
    rfl
  rw [hencodable] at hcut
  refine ⟨Device.bounded, by rw [hdeep]; rfl, answers, s', hrun, hwritten, htaken, hcut ?_⟩
  rintro ⟨n, hn⟩
  have hlength := congrArg List.length (htaken.symm.trans hn)
  rcases n with _ | _ | n
  · exact absurd hlength (by decide)
  · exact absurd hlength (by decide)
  · simp at hlength

end ScriptTrace
