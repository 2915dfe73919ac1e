import Mathlib.Logic.Function.Iterate
import ScriptTrace.Codec.Reader
import ScriptTrace.Proofs.Codec.Extent
import ScriptTrace.Proofs.Codec.RoundTrip

/-!
Reading records one after the other. `Record.scan` decodes again and again from the bytes left, and
a reader answers its calls in the same way although it takes the first byte of a record before the
others (`RecordReader.yields_scan`). A call takes from the stream what the record it answers
consumes, so encodings in a row are read back, and a part of one more is found to be cut short.
-/

set_option autoImplicit false
set_option relaxedAutoImplicit false

namespace ScriptTrace

namespace Record

/-- A record takes bytes. -/
theorem length_pos_of_settles {head : Bytes} {answer : Except CodecError Record}
    (h : Decoder.record.Settles head answer) : 0 < head.length := by
  obtain ⟨next, hrecord⟩ : ∃ next, Decoder.record = .take 4 next := ⟨_, rfl⟩
  rw [hrecord] at h
  cases h with
  | take head _ =>
    rw [List.length_append, head.property]
    omega

theorem length_lt_of_decodeFrom {bs rest : Bytes} {r : Record}
    (h : decodeFrom bs = .ok r rest) : rest.length < bs.length := by
  rcases Decoder.settles_or_starves Decoder.record bs with
    ⟨head, tail, answer, rfl, hsettles⟩ | hstarves
  · have hpos := length_pos_of_settles hsettles
    rw [(decodes_of_settles hsettles tail).eq, List.drop_left] at h
    cases answer with
    | error e => cases h
    | ok r =>
      obtain ⟨-, rfl⟩ := EStateM.Result.ok.inj h
      rw [List.length_append]
      omega
  · rw [(decodes_of_starves hstarves).eq] at h
    cases h

/-- Decoding again and again from the bytes left, until none are left or decoding fails. -/
def scan (bs : Bytes) : List (Except CodecError Record) :=
  if bs = [] then []
  else
    match _h : decodeFrom bs with
    | .ok r rest => .ok r :: scan rest
    | .error e _ => [.error e]
termination_by bs.length
decreasing_by exact length_lt_of_decodeFrom _h

@[simp] theorem scan_nil : scan [] = [] := by
  rw [scan, if_pos rfl]

/-- A record or a refusal in front. -/
theorem scan_append {head : Bytes} {answer : Except CodecError Record}
    (h : Decoder.record.Settles head answer) (tail : Bytes) :
    scan (head ++ tail) = answer :: if answer.isOk then scan tail else [] := by
  have hrun : decodeFrom (head ++ tail) = resultOf answer tail := by
    rw [(decodes_of_settles h tail).eq, List.drop_left]
  have hne : head ++ tail ≠ [] :=
    List.append_ne_nil_of_left_ne_nil (List.ne_nil_of_length_pos (length_pos_of_settles h)) _
  rw [scan, if_neg hne]
  split
  · rename_i r rest heq
    rw [hrun] at heq
    cases answer with
    | error e => cases heq
    | ok r' =>
      obtain ⟨rfl, rfl⟩ := EStateM.Result.ok.inj heq
      rfl
  · rename_i e rest heq
    rw [hrun] at heq
    cases answer with
    | ok r' => cases heq
    | error e' =>
      obtain ⟨rfl, rfl⟩ := EStateM.Result.error.inj heq
      rfl

/-- A part of a record, with nothing behind it. -/
theorem scan_of_starves {bs : Bytes} (hne : bs ≠ []) (h : Decoder.record.Starves bs) :
    scan bs = [.error .truncated] := by
  have hrun := (decodes_of_starves h).eq
  rw [scan, if_neg hne]
  split
  · rename_i r rest heq
    rw [hrun] at heq
    cases heq
  · rename_i e rest heq
    rw [hrun] at heq
    obtain ⟨rfl, -⟩ := EStateM.Result.error.inj heq
    rfl

theorem length_scan_le (bs : Bytes) : (scan bs).length ≤ bs.length := by
  fun_induction scan bs with
  | case1 => exact Nat.zero_le _
  | case2 bs hne r rest heq ih =>
    have hlt := length_lt_of_decodeFrom heq
    rw [List.length_cons]
    omega
  | case3 bs hne e rest heq => exact List.length_pos_iff.mpr hne

end Record

namespace RecordReader

/-- A reader after so many calls. -/
def after (calls : Nat) (r : RecordReader) : RecordReader := (fun r ↦ r.next.2)^[calls] r

/-- The calls of a reader answer some items in turn, and find nothing from then on. -/
def Yields (r : RecordReader) (items : List (Except CodecError Record)) : Prop :=
  ∀ calls, (r.after calls).next.1 = items[calls]?

section Next

variable {r : RecordReader} (hopen : r.finished = false)
include hopen

theorem exists_next_of_nil (hbytes : r.source.bytes = []) (hfailure : r.source.failure = none) :
    ∃ s, r.next = (none, ⟨s, true⟩) ∧ s.bytes = [] := by
  obtain ⟨s, hnext, hleft, -⟩ := Source.exists_next_of_nil 1 hbytes
  rw [hfailure] at hnext
  refine ⟨s, ?_, hleft⟩
  rw [next, hopen]
  simp only [hnext]
  rfl

/-- The first byte of a record is put back in front of the others. -/
theorem exists_next_of_ne_nil (hbytes : r.source.bytes ≠ []) :
    ∃ s : Source, s.bytes = r.source.bytes ∧ s.failure = r.source.failure ∧ r.next =
      match Record.readFrom s with
      | .ok record s => (some (.ok record), ⟨s, false⟩)
      | .error e s => (some (.error e), ⟨s, true⟩) := by
  obtain ⟨piece, s, hpiece, hle, hsplit, hnext, hfailure⟩ :=
    Source.exists_next_of_ne_nil Nat.one_pos hbytes
  obtain ⟨first, rest, rfl⟩ := List.exists_cons_of_ne_nil hpiece
  obtain rfl : rest = [] := List.eq_nil_of_length_eq_zero (by simpa using hle)
  refine ⟨{ s with bytes := first :: s.bytes }, hsplit.symm, hfailure, ?_⟩
  rw [next, hopen]
  simp only [hnext]
  rfl

/-- A call answers what the bytes in front settle, and takes them. -/
theorem exists_next_of_settles {head tail : Bytes} {answer : Except CodecError Record}
    (h : Decoder.record.Settles head answer) (hbytes : r.source.bytes = head ++ tail) :
    ∃ s, r.next = (some answer, ⟨s, !answer.isOk⟩) ∧ s.bytes = tail ∧
      s.failure = r.source.failure := by
  have hne : r.source.bytes ≠ [] := by
    rw [hbytes]
    exact List.append_ne_nil_of_left_ne_nil
      (List.ne_nil_of_length_pos (Record.length_pos_of_settles h)) _
  obtain ⟨s₁, hsame, hfailure₁, hnext⟩ := exists_next_of_ne_nil hopen hne
  obtain ⟨s, hread, hleft, hfailure⟩ := h.readFrom (hsame.trans hbytes)
  refine ⟨s, ?_, hleft, hfailure.trans hfailure₁⟩
  rw [hnext, Record.readFrom, hread]
  cases answer <;> rfl

theorem exists_next_of_starves (hne : r.source.bytes ≠ [])
    (h : Decoder.record.Starves r.source.bytes) :
    ∃ s, r.next = (some (.error r.source.ending), ⟨s, true⟩) ∧ s.bytes = [] := by
  obtain ⟨s₁, hsame, hfailure₁, hnext⟩ := exists_next_of_ne_nil hopen hne
  rw [← hsame] at h
  obtain ⟨s, hread, hleft, -⟩ := h.readFrom
  have hending : s₁.ending = r.source.ending := by rw [Source.ending, Source.ending, hfailure₁]
  refine ⟨s, ?_, hleft⟩
  rw [hnext, Record.readFrom, hread, hending]

end Next

theorem after_succ {r r' : RecordReader} {item : Option (Except CodecError Record)}
    (hnext : r.next = (item, r')) (calls : Nat) : r.after (calls + 1) = r'.after calls := by
  rw [after, Function.iterate_succ_apply, hnext]
  rfl

theorem yields_nil_of_finished {r : RecordReader} (h : r.finished = true) : r.Yields [] := by
  have hnext : r.next = (none, r) := by rw [next, if_pos h]
  intro calls
  induction calls with
  | zero => exact congrArg Prod.fst hnext
  | succ calls ih => rwa [after_succ hnext]

theorem Yields.cons {r r' : RecordReader} {item : Except CodecError Record}
    {items : List (Except CodecError Record)} (h : r'.Yields items)
    (hnext : r.next = (some item, r')) : r.Yields (item :: items) := by
  intro calls
  cases calls with
  | zero => exact congrArg Prod.fst hnext
  | succ calls =>
    rw [after_succ hnext, List.getElem?_cons_succ]
    exact h calls

/-- A call that finds nothing is followed by others that find nothing. -/
theorem Yields.nil {r r' : RecordReader} (h : r'.Yields []) (hnext : r.next = (none, r')) :
    r.Yields [] := by
  intro calls
  cases calls with
  | zero => exact congrArg Prod.fst hnext
  | succ calls =>
    rw [after_succ hnext]
    exact h calls

/-- A reader of a stream that does not fail answers like decoding from its bytes again and again. -/
theorem yields_scan {r : RecordReader} (hopen : r.finished = false)
    (hfailure : r.source.failure = none) : r.Yields (Record.scan r.source.bytes) := by
  generalize hlength : r.source.bytes.length = n
  induction n using Nat.strongRecOn generalizing r with
  | ind n ih =>
    by_cases hnil : r.source.bytes = []
    · obtain ⟨s, hnext, -⟩ := exists_next_of_nil hopen hnil hfailure
      rw [hnil, Record.scan_nil]
      exact (yields_nil_of_finished rfl).nil hnext
    · rcases Decoder.settles_or_starves Decoder.record r.source.bytes with
        ⟨head, tail, answer, hbytes, hsettles⟩ | hstarves
      · obtain ⟨s, hnext, hleft, hsame⟩ := exists_next_of_settles hopen hsettles hbytes
        have hpos := Record.length_pos_of_settles hsettles
        rw [hbytes, Record.scan_append hsettles]
        refine Yields.cons ?_ hnext
        cases answer with
        | error e => exact yields_nil_of_finished rfl
        | ok record =>
          rw [hbytes, List.length_append] at hlength
          have hrest := ih tail.length (by omega) (r := ⟨s, false⟩) rfl (hsame.trans hfailure)
            (congrArg List.length hleft)
          rwa [hleft] at hrest
      · obtain ⟨s, hnext, -⟩ := exists_next_of_starves hopen hnil hstarves
        rw [Source.ending, hfailure] at hnext
        rw [Record.scan_of_starves hnil hstarves]
        exact (yields_nil_of_finished rfl).cons hnext

/-- Calls that answer records have taken byte strings that decode to these records, and left the
other bytes. -/
theorem exists_taken {r : RecordReader} (hopen : r.finished = false)
    (hfailure : r.source.failure = none) {records : List Record}
    (hrecords : ∀ (i : Nat) record, records[i]? = some record →
      (r.after i).next.1 = some (.ok record)) :
    ∃ taken, List.Forall₂ (fun bs record ↦ Record.decode bs = .ok record) taken records ∧
      r.source.bytes = taken.flatten ++ (r.after records.length).source.bytes := by
  induction records generalizing r with
  | nil => exact ⟨[], .nil, rfl⟩
  | cons record rest ih =>
    have hfirst : r.next.1 = some (.ok record) := hrecords 0 record rfl
    by_cases hnil : r.source.bytes = []
    · obtain ⟨s, hnext, -⟩ := exists_next_of_nil hopen hnil hfailure
      rw [hnext] at hfirst
      cases hfirst
    · rcases Decoder.settles_or_starves Decoder.record r.source.bytes with
        ⟨head, tail, answer, hbytes, hsettles⟩ | hstarves
      · obtain ⟨s, hnext, hleft, hsame⟩ := exists_next_of_settles hopen hsettles hbytes
        rw [hnext] at hfirst
        obtain rfl : answer = .ok record := Option.some.inj hfirst
        obtain ⟨taken, htaken, hflatten⟩ := ih (r := ⟨s, false⟩) rfl (hsame.trans hfailure) (by
          intro i later hlater
          have hcall := hrecords (i + 1) later (by rwa [List.getElem?_cons_succ])
          rwa [after_succ hnext] at hcall)
        have hdecode := (Record.decode_eq_ok_iff_settles _ _).mpr hsettles
        refine ⟨head :: taken, .cons hdecode htaken, ?_⟩
        rw [List.length_cons, after_succ hnext, List.flatten_cons, List.append_assoc, hbytes,
          ← hleft]
        exact congrArg (head ++ ·) hflatten
      · obtain ⟨s, hnext, -⟩ := exists_next_of_starves hopen hnil hstarves
        rw [hnext] at hfirst
        cases hfirst

/-- Collecting gives the records up to the end, or the first error. -/
theorem collect_eq_mapM {r : RecordReader} {items : List (Except CodecError Record)}
    (h : r.Yields items) {count : Nat} (hcount : items.length < count) :
    r.collect count = items.mapM id := by
  induction items generalizing r count with
  | nil =>
    obtain ⟨count, rfl⟩ := Nat.exists_eq_succ_of_ne_zero (Nat.ne_of_gt hcount)
    have hnext : r.next = (none, r.next.2) := Prod.ext (h 0) rfl
    rw [collect, hnext]
    rfl
  | cons item items ih =>
    obtain ⟨count, rfl⟩ := Nat.exists_eq_succ_of_ne_zero (Nat.ne_of_gt (Nat.zero_lt_of_lt hcount))
    have hnext : r.next = (some item, r.next.2) := Prod.ext (h 0) rfl
    have htail : r.next.2.Yields items := by
      intro calls
      have hcall := h (calls + 1)
      rwa [after_succ rfl, List.getElem?_cons_succ] at hcall
    have hrest := ih htail (Nat.lt_of_succ_lt_succ hcount)
    rw [collect, hnext, List.mapM_cons]
    cases item with
    | error e => rfl
    | ok record =>
      simp only [hrest]
      rfl

end RecordReader

namespace Record

/-- Encodings in a row are decoded one after the other, up to what comes behind them. -/
theorem scan_flatten_append {records : List Record} {encodings : List Bytes}
    (h : List.Forall₂ (fun record bs ↦ record.encode = .ok bs) records encodings) (rest : Bytes) :
    scan (encodings.flatten ++ rest) = records.map .ok ++ scan rest := by
  induction h with
  | nil => rfl
  | cons hencode _ ih =>
    have hsettles := (decode_eq_ok_iff_settles _ _).mp (decode_of_encode hencode)
    rw [List.flatten_cons, List.append_assoc, scan_append hsettles, List.map_cons, List.cons_append]
    exact congrArg _ ih

/-- A part of an encoding is cut short. -/
theorem scan_of_encode {record : Record} {bs p : Bytes} (hencode : record.encode = .ok bs)
    (hbegins : p <+: bs) (hne : p ≠ bs) :
    scan p = if p = [] then [] else [.error .truncated] := by
  split
  · rename_i hnil
    rw [hnil, scan_nil]
  · rename_i hnil
    have hsettles := (decode_eq_ok_iff_settles _ _).mp (decode_of_encode hencode)
    refine scan_of_starves hnil (hsettles.starves hbegins ?_)
    exact Nat.lt_of_le_of_ne hbegins.length_le fun heq ↦ hne (hbegins.eq_of_length heq)

/-- Collecting answers gives values if no answer is an error. -/
theorem mapM_id_eq_ok_iff {items : List (Except CodecError Record)} {records : List Record} :
    items.mapM id = .ok records ↔ items = records.map .ok := by
  induction items generalizing records with
  | nil => cases records <;> simp [pure, Except.pure]
  | cons item items ih =>
    rw [List.mapM_cons]
    cases item with
    | error e => cases records <;> simp [bind, Except.bind]
    | ok record =>
      change (items.mapM id).bind (fun others ↦ .ok (record :: others)) = _ ↔ _
      cases hrest : items.mapM id with
      | error e =>
        cases records with
        | nil => simp [Except.bind]
        | cons first others =>
          have hnot : items ≠ others.map .ok := fun heq ↦ nomatch hrest.symm.trans (ih.mpr heq)
          simp [Except.bind, hnot]
      | ok others =>
        have hothers : items = others.map .ok := ih.mp hrest
        have hinj : (Except.ok : Record → Except CodecError Record).Injective :=
          fun _ _ ↦ Except.ok.inj
        rw [Except.bind, Except.ok.injEq, hothers, ← List.map_cons,
          (List.map_injective_iff.mpr hinj).eq_iff]

/-- Reading all of a byte string gives its records if decoding it again and again fails nowhere. -/
theorem readAll_eq_ok_iff {bs : Bytes} {records : List Record} :
    readAll bs = .ok records ↔ scan bs = records.map .ok := by
  have hall : readAll bs = (scan bs).mapM id :=
    RecordReader.collect_eq_mapM (RecordReader.yields_scan rfl rfl)
      (Nat.lt_succ_of_le (length_scan_le bs))
  rw [hall, mapM_id_eq_ok_iff]

/-- Behind bytes in which decoding fails nowhere it goes on with what comes after them. -/
theorem scan_append_of_scan_eq {bs : Bytes} {records : List Record}
    (h : scan bs = records.map .ok) (more : Bytes) :
    scan (bs ++ more) = records.map .ok ++ scan more := by
  induction records generalizing bs with
  | nil =>
    by_cases hnil : bs = []
    · rw [hnil]
      rfl
    · rcases Decoder.settles_or_starves Decoder.record bs with
        ⟨head, tail, answer, rfl, hsettles⟩ | hstarves
      · rw [scan_append hsettles] at h
        cases h
      · rw [scan_of_starves hnil hstarves] at h
        cases h
  | cons record records ih =>
    have hne : bs ≠ [] := by
      rintro rfl
      rw [scan_nil] at h
      cases h
    rcases Decoder.settles_or_starves Decoder.record bs with
      ⟨head, tail, answer, rfl, hsettles⟩ | hstarves
    · rw [scan_append hsettles] at h
      obtain ⟨rfl, htail⟩ := List.cons.inj h
      rw [List.append_assoc, scan_append hsettles, List.map_cons, List.cons_append]
      exact congrArg _ (ih htail)
    · rw [scan_of_starves hne hstarves] at h
      cases h

end Record

/-- The records of byte strings in memory. A reader answers like decoding from the bytes left again
and again, with nothing behind the end or the first error; calls that answer records have taken byte
strings that decode to them and left the others. So encodings in a row are read back, and a part of
an encoding behind them is found to be cut short, once. -/
theorem RecordReader.yields_scan_and_exists_taken :
    (∀ bs, (ofBytes bs).Yields (Record.scan bs) ∧
      Record.readAll bs = (Record.scan bs).mapM id ∧
      ∀ records : List Record,
        (∀ (i : Nat) record, records[i]? = some record →
          ((ofBytes bs).after i).next.1 = some (.ok record)) →
        ∃ taken, List.Forall₂ (fun head record ↦ Record.decode head = .ok record) taken records ∧
          bs = taken.flatten ++ ((ofBytes bs).after records.length).source.bytes) ∧
      ∀ records encodings,
        List.Forall₂ (fun record bs ↦ Record.encode record = .ok bs) records encodings →
        Record.readAll encodings.flatten = .ok records ∧
          ∀ record bs p, Record.encode record = .ok bs → p <+: bs → p ≠ bs →
            (ofBytes (encodings.flatten ++ p)).Yields
              (records.map .ok ++ if p = [] then [] else [.error .truncated]) := by
  have hyields (bs : Bytes) : (ofBytes bs).Yields (Record.scan bs) :=
    yields_scan (r := ofBytes bs) rfl rfl
  have hall (bs : Bytes) : Record.readAll bs = (Record.scan bs).mapM id :=
    collect_eq_mapM (hyields bs) (Nat.lt_succ_of_le (Record.length_scan_le bs))
  refine ⟨fun bs ↦ ⟨hyields bs, hall bs, fun records hrecords ↦ ?_⟩,
    fun records encodings h ↦ ⟨?_, fun record bs p hencode hbegins hne ↦ ?_⟩⟩
  · exact exists_taken (r := ofBytes bs) rfl rfl hrecords
  · have hscan := Record.scan_flatten_append h []
    rw [List.append_nil, Record.scan_nil, List.append_nil] at hscan
    rw [hall, hscan, List.mapM_map]
    exact (List.mapM_pure (f := id)).trans (congrArg Except.ok (List.map_id records))
  · have hscan := Record.scan_flatten_append h p
    rw [Record.scan_of_encode hencode hbegins hne] at hscan
    rw [← hscan]
    exact hyields _

end ScriptTrace
