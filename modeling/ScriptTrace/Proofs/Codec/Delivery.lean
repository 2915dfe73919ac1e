import ScriptTrace.Proofs.Codec.Stream

/-!
Streams that deliver their bytes in any pieces, after any interruptions, and end or fail behind the
last one. Decoding from a stream asks for bytes in three ways: it fills a buffer, it reads up to a
limit into buffers that grow, and it hands out a byte it holds already before it goes on reading.
Each of them is faithful to the bytes of the stream (`Source.faithful_exactly`,
`Source.faithful_upTo`, `Source.faithful_behindFirst`), and a decoder that asks in faithful ways
answers as it does in memory, with the failure of the stream in place of an early end
(`Decoder.exists_readBy`). A reader of records goes abreast with the reader of the same bytes in
memory and meets the failure where that one would stop (`RecordReader.exists_yields_meeting`).
-/

set_option autoImplicit false
set_option relaxedAutoImplicit false

namespace ScriptTrace

/-! ### Ways of asking -/

namespace Source

/-- A way of getting a number of bytes from a stream. -/
abbrev Asking := Nat → Source → Except CodecError Bytes × Source

/-- Bytes are got from the front of the stream, which goes on behind them; if there are too few,
all are taken and the answer is how the stream ends. -/
def Faithful (ask : Asking) : Prop :=
  ∀ count (s : Source), ∃ s' : Source,
    ask count s =
      (if count ≤ s.bytes.length then .ok (s.bytes.take count) else .error s.ending, s') ∧
    s'.bytes = s.bytes.drop count ∧ s'.failure = s.failure

/-- Fill a buffer. -/
def exactly : Asking := fun count s ↦ s.gather count count []

/-- At most `limit` bytes behind those in `seen`, by reads into buffers of the given sizes, none of
which is empty. The end of the stream is an end like the limit, which costs no read. -/
def gatherUpTo (buffer : Nat → Nat) : Nat → Nat → Bytes → Source → Except IoError Bytes × Source
  | 0, _, seen, s => (.ok seen, s)
  | rounds + 1, limit, seen, s =>
    if limit = 0 then (.ok seen, s)
    else
      match s.next (min limit (buffer rounds + 1)) with
      | (.error e, s) => (.error e, s)
      | (.ok [], s) => (.ok seen, s)
      | (.ok piece, s) => gatherUpTo buffer rounds (limit - piece.length) (seen ++ piece) s

/-- Read up to a limit and look afterwards how far it went. -/
def upTo (buffer : Nat → Nat) : Asking := fun limit s ↦
  match s.gatherUpTo buffer limit limit [] with
  | (.error e, s) => (.error (.ofRead e), s)
  | (.ok bs, s) => (if bs.length = limit then .ok bs else .error .truncated, s)

/-- Hand out the first byte before the stream is read for the others. -/
def behindFirst : Asking := fun count s ↦
  match s.bytes with
  | [] => s.exactly count
  | first :: rest =>
    if count = 0 then (.ok [], s)
    else { s with bytes := rest }.gather (count - 1) (count - 1) [first]

theorem ending_eq_of_failure_eq {s s' : Source} (h : s'.failure = s.failure) :
    s'.ending = s.ending := by
  rw [ending, ending, h]

theorem faithful_exactly : Faithful exactly := fun count s ↦
  exists_gather (Nat.le_refl count) [] s

/-- Reading up to a limit takes bytes in order, however they are delivered, and minds only the
failure of a stream that has too few. -/
theorem exists_gatherUpTo (buffer : Nat → Nat) {rounds limit : Nat} (hrounds : limit ≤ rounds)
    (seen : Bytes) (s : Source) :
    ∃ s', s.gatherUpTo buffer rounds limit seen =
        (if limit ≤ s.bytes.length then .ok (seen ++ s.bytes.take limit)
          else (s.failure.map Except.error).getD (.ok (seen ++ s.bytes)), s') ∧
      s'.bytes = s.bytes.drop limit ∧ s'.failure = s.failure := by
  induction rounds generalizing limit seen s with
  | zero =>
    obtain rfl : limit = 0 := Nat.le_zero.mp hrounds
    exact ⟨s, by simp [gatherUpTo], rfl, rfl⟩
  | succ rounds ih =>
    by_cases hlimit : limit = 0
    · subst hlimit
      exact ⟨s, by simp [gatherUpTo], rfl, rfl⟩
    · by_cases hnil : s.bytes = []
      · obtain ⟨s', hnext, hbytes, hfailure⟩ :=
          exists_next_of_nil (min limit (buffer rounds + 1)) hnil
        refine ⟨s', ?_, by rw [hbytes, hnil, List.drop_nil], hfailure⟩
        have hshort : ¬limit ≤ s.bytes.length := by
          rw [hnil]
          exact fun hle ↦ hlimit (Nat.le_zero.mp hle)
        rw [if_neg hshort, hnil, List.append_nil]
        cases hsource : s.failure <;>
          simp only [gatherUpTo, if_neg hlimit, hnext, hsource] <;> rfl
      · have hwant : 0 < min limit (buffer rounds + 1) := by omega
        obtain ⟨piece, s₁, hpiece, hle, hbytes, hnext, hfailure⟩ := exists_next_of_ne_nil hwant hnil
        have hpos : 0 < piece.length := List.length_pos_iff.mpr hpiece
        have hfits : piece.length ≤ limit := Nat.le_trans hle (Nat.min_le_left _ _)
        have hless : limit - piece.length ≤ rounds := by omega
        obtain ⟨s', hgather, hleft, hsame⟩ := ih hless (seen ++ piece) s₁
        refine ⟨s', ?_, ?_, hsame.trans hfailure⟩
        · obtain ⟨b, rest, rfl⟩ := List.exists_cons_of_ne_nil hpiece
          have hiff : limit - (b :: rest).length ≤ s₁.bytes.length ↔ limit ≤ s.bytes.length := by
            rw [hbytes, List.length_append]
            omega
          simp only [gatherUpTo, if_neg hlimit, hnext, hgather, hfailure, hiff]
          rw [hbytes, List.take_append, List.take_of_length_le hfits, List.append_assoc,
            List.append_assoc]
        · rw [hleft, hbytes, List.drop_append, List.drop_of_length_le hfits, List.nil_append]

theorem faithful_upTo (buffer : Nat → Nat) : Faithful (upTo buffer) := by
  intro limit s
  obtain ⟨s', hgather, hbytes, hfailure⟩ :=
    exists_gatherUpTo buffer (Nat.le_refl limit) [] s
  refine ⟨s', ?_, hbytes, hfailure⟩
  by_cases henough : limit ≤ s.bytes.length
  · rw [if_pos henough] at hgather
    simp only [upTo, hgather, List.nil_append, List.length_take_of_le henough, if_true,
      if_pos henough]
  · rw [if_neg henough, List.nil_append] at hgather
    rw [if_neg henough, ending]
    cases hsource : s.failure with
    | none =>
      rw [hsource] at hgather
      have hshort : s.bytes.length ≠ limit := by omega
      simp only [upTo, hgather, Option.map_none, Option.getD_none, if_neg hshort]
    | some e =>
      rw [hsource] at hgather
      simp only [upTo, hgather, Option.map_some, Option.getD_some]

theorem faithful_behindFirst : Faithful behindFirst := by
  intro count s
  cases hbytes : s.bytes with
  | nil =>
    obtain ⟨s', hgather, hleft, hfailure⟩ := faithful_exactly count s
    rw [hbytes] at hgather hleft
    refine ⟨s', ?_, hleft, hfailure⟩
    simp only [behindFirst, hbytes, hgather]
  | cons first rest =>
    by_cases hcount : count = 0
    · subst hcount
      refine ⟨s, ?_, hbytes, rfl⟩
      simp only [behindFirst, hbytes, if_true, Nat.zero_le, List.take_zero]
    · obtain ⟨count, rfl⟩ := Nat.exists_eq_succ_of_ne_zero hcount
      obtain ⟨s', hgather, hleft, hfailure⟩ :=
        exists_gather (Nat.le_refl count) [first] { s with bytes := rest }
      have hending : ending { s with bytes := rest } = s.ending := ending_eq_of_failure_eq rfl
      rw [hending] at hgather
      refine ⟨s', ?_, hleft, hfailure⟩
      simp only [behindFirst, hbytes, if_neg hcount, Nat.succ_eq_add_one, Nat.add_sub_cancel,
        List.length_cons, Nat.add_le_add_iff_right, List.take_succ_cons]
      exact hgather

/-- The ways in which decoding asks for bytes. -/
inductive Way where
  | exactly
  | behindFirst
  | upTo (buffer : Nat → Nat)

def Way.ask : Way → Asking
  | exactly => Source.exactly
  | behindFirst => Source.behindFirst
  | upTo buffer => Source.upTo buffer

theorem Way.faithful (way : Way) : Faithful way.ask := by
  cases way with
  | exactly => exact faithful_exactly
  | behindFirst => exact faithful_behindFirst
  | upTo buffer => exact faithful_upTo buffer

end Source

/-! ### Decoding -/

/-- What a stream answers where its bytes in memory give this answer: it reports its own ending in
place of an early end. -/
def Source.inPlaceOf {α : Type} (s : Source) : Except CodecError α → Except CodecError α
  | .error .truncated => .error s.ending
  | answer => answer

/-- Answer the requests of a decoder, each in its own way. -/
def Decoder.readBy {α : Type} (ways : Nat → Source.Way) :
    Decoder α → Nat → Source → EStateM.Result CodecError Source α
  | done a, _, s => .ok a s
  | refuse reason, _, s => .error (.malformed reason) s
  | take count next, request, s =>
    match (ways request).ask count s with
    | (.error e, s) => .error e s
    | (.ok bs, s) =>
      if h : bs.length = count then (next ⟨bs, h⟩).readBy ways (request + 1) s
      else .error .truncated s

namespace Decoder

variable {α : Type}

/-- Filling a buffer for every request. -/
theorem readFrom_eq_readBy (d : Decoder α) (request : Nat) (s : Source) :
    d.readFrom s = d.readBy (fun _ ↦ .exactly) request s := by
  induction d generalizing request s with
  | done a => rfl
  | refuse reason => rfl
  | take count next ih =>
    rw [readFrom, readBy, Source.Way.ask, Source.exactly]
    rcases s.gather count count [] with ⟨e | bs, s'⟩
    · rfl
    · dsimp only
      split
      · exact ih _ _ _
      · rfl

/-- A decoder reads from a stream what it reads from the bytes of the stream in memory, and leaves
the same bytes. -/
theorem exists_readBy (ways : Nat → Source.Way) (d : Decoder α) (request : Nat) (s : Source)
    {answer : Except CodecError α} {rest : Bytes} (h : d.run s.bytes = resultOf answer rest) :
    ∃ s', d.readBy ways request s = resultOf (s.inPlaceOf answer) s' ∧ s'.bytes = rest ∧
      s'.failure = s.failure := by
  induction d generalizing request s with
  | done a =>
    cases answer with
    | error e => cases h
    | ok a' =>
      obtain ⟨rfl, rfl⟩ := EStateM.Result.ok.inj h
      exact ⟨s, rfl, rfl, rfl⟩
  | refuse reason =>
    cases answer with
    | ok a => cases h
    | error e =>
      obtain ⟨rfl, rfl⟩ := EStateM.Result.error.inj h
      exact ⟨s, rfl, rfl, rfl⟩
  | take count next ih =>
    obtain ⟨s₁, hanswer, hbytes, hfailure⟩ := (ways request).faithful count s
    rw [run, split] at h
    by_cases henough : count ≤ s.bytes.length
    · have hlength : (s.bytes.take count).length = count := List.length_take_of_le henough
      rw [if_pos henough] at hanswer
      rw [dif_pos hlength, ← hbytes] at h
      obtain ⟨s', hread, hleft, hsame⟩ := ih _ (request + 1) s₁ h
      refine ⟨s', ?_, hleft, hsame.trans hfailure⟩
      have hplace : s₁.inPlaceOf answer = s.inPlaceOf answer := by
        unfold Source.inPlaceOf
        rw [Source.ending_eq_of_failure_eq hfailure]
      simp only [readBy, hanswer, dif_pos hlength, hread, hplace]
    · have hlength : (s.bytes.take count).length ≠ count := by
        rw [List.length_take]
        omega
      rw [if_neg henough] at hanswer
      rw [dif_neg hlength] at h
      cases answer with
      | ok a => cases h
      | error e =>
        obtain ⟨rfl, rfl⟩ := EStateM.Result.error.inj h
        refine ⟨s₁, ?_, ?_, hfailure⟩
        · simp only [readBy, hanswer]
          rfl
        · rw [hbytes, List.drop_of_length_le (by omega)]

end Decoder

/-! ### Reading records -/

/-- What stands in a stream where its bytes in memory stop in this way: a byte string that is no
record, or else the failure of the stream if it has one. -/
def Source.meeting (s : Source) : Option CodecError → Option CodecError
  | some (.malformed reason) => some (.malformed reason)
  | stop => (s.failure.map fun e ↦ some (.ofRead e)).getD stop

namespace RecordReader

/-- At the end of its bytes a reader finds the failure of the stream, if there is one. -/
theorem exists_next_of_no_bytes {r : RecordReader} (hopen : r.finished = false)
    (hbytes : r.source.bytes = []) :
    ∃ s, r.next = ((r.source.meeting none).map .error, ⟨s, true⟩) ∧ s.bytes = [] := by
  obtain ⟨s, hnext, hleft, -⟩ := Source.exists_next_of_nil 1 hbytes
  refine ⟨s, ?_, hleft⟩
  rw [next, hopen]
  unfold Source.meeting
  cases hfailure : r.source.failure <;> simp only [hnext, hfailure] <;> rfl

/-- Two readers that have the same bytes before them. -/
structure Abreast (r m : RecordReader) : Prop where
  finished : r.finished = m.finished
  bytes : r.source.bytes = m.source.bytes

/-- A call keeps two readers abreast, whatever their streams do behind the last byte. -/
theorem Abreast.next {r m : RecordReader} (h : Abreast r m) : Abreast r.next.2 m.next.2 := by
  cases hfinished : m.finished with
  | true =>
    have hr : r.next = (none, r) := by rw [RecordReader.next, h.finished, hfinished, if_pos rfl]
    have hm : m.next = (none, m) := by rw [RecordReader.next, hfinished, if_pos rfl]
    rwa [hr, hm]
  | false =>
    have hopen : r.finished = false := h.finished.trans hfinished
    by_cases hnil : m.source.bytes = []
    · obtain ⟨s, hr, hs⟩ := exists_next_of_no_bytes hopen (h.bytes.trans hnil)
      obtain ⟨t, hm, ht⟩ := exists_next_of_no_bytes hfinished hnil
      rw [hr, hm]
      exact ⟨rfl, hs.trans ht.symm⟩
    · rcases Decoder.settles_or_starves Decoder.record m.source.bytes with
        ⟨head, tail, answer, hbytes, hsettles⟩ | hstarves
      · obtain ⟨s, hr, hs, -⟩ := exists_next_of_settles hopen hsettles (h.bytes.trans hbytes)
        obtain ⟨t, hm, ht, -⟩ := exists_next_of_settles hfinished hsettles hbytes
        rw [hr, hm]
        exact ⟨rfl, hs.trans ht.symm⟩
      · rw [← h.bytes] at hnil
        obtain ⟨s, hr, hs⟩ := exists_next_of_starves hopen hnil (h.bytes ▸ hstarves)
        rw [h.bytes] at hnil
        obtain ⟨t, hm, ht⟩ := exists_next_of_starves hfinished hnil hstarves
        rw [hr, hm]
        exact ⟨rfl, hs.trans ht.symm⟩

theorem Abreast.after {r m : RecordReader} (h : Abreast r m) (calls : Nat) :
    Abreast (r.after calls) (m.after calls) := by
  induction calls generalizing r m with
  | zero => exact h
  | succ calls ih =>
    rw [after_succ rfl, after_succ rfl]
    exact ih h.next

/-- Decoding a byte string again and again gives records and then stops in one of three ways: at the
end, at an early end or at a byte string that is no record. A reader of a stream of these bytes
gives the same records and stops with what it meets there. -/
theorem exists_yields_meeting {r : RecordReader} (hopen : r.finished = false) :
    ∃ (records : List Record) (stop : Option CodecError),
      Record.scan r.source.bytes = records.map .ok ++ stop.toList.map .error ∧
      (∀ e, stop ≠ some (.io e)) ∧
      r.Yields (records.map .ok ++ (r.source.meeting stop).toList.map .error) := by
  generalize hlength : r.source.bytes.length = n
  induction n using Nat.strongRecOn generalizing r with
  | ind n ih =>
    by_cases hnil : r.source.bytes = []
    · obtain ⟨s, hnext, -⟩ := exists_next_of_no_bytes hopen hnil
      refine ⟨[], none, by rw [hnil, Record.scan_nil]; rfl, nofun, ?_⟩
      cases hmeeting : r.source.meeting none with
      | none =>
        rw [hmeeting] at hnext
        exact (yields_nil_of_finished rfl).nil hnext
      | some e =>
        rw [hmeeting] at hnext
        exact (yields_nil_of_finished rfl).cons hnext
    · rcases Decoder.settles_or_starves Decoder.record r.source.bytes with
        ⟨head, tail, answer, hbytes, hsettles⟩ | hstarves
      · obtain ⟨s, hnext, hleft, hsame⟩ := exists_next_of_settles hopen hsettles hbytes
        have hpos := Record.length_pos_of_settles hsettles
        rcases hsettles.answer_cases with ⟨record, rfl⟩ | ⟨reason, rfl⟩
        · rw [hbytes, List.length_append] at hlength
          obtain ⟨records, stop, hscan, hstop, hyields⟩ := ih tail.length (by omega)
            (r := ⟨s, false⟩) rfl (congrArg List.length hleft)
          have hmeeting : s.meeting stop = r.source.meeting stop := by
            unfold Source.meeting
            rw [hsame]
          rw [hmeeting] at hyields
          refine ⟨record :: records, stop, ?_, hstop, hyields.cons hnext⟩
          rw [hbytes, Record.scan_append hsettles, ← hleft]
          exact congrArg (Except.ok record :: ·) hscan
        · refine ⟨[], some (.malformed reason), ?_, nofun, (yields_nil_of_finished rfl).cons hnext⟩
          rw [hbytes, Record.scan_append hsettles]
          rfl
      · obtain ⟨s, hnext, -⟩ := exists_next_of_starves hopen hnil hstarves
        refine ⟨[], some .truncated, Record.scan_of_starves hnil hstarves, nofun, ?_⟩
        have hmeeting : r.source.meeting (some .truncated) = some r.source.ending := by
          unfold Source.meeting Source.ending
          cases r.source.failure <;> rfl
        rw [hmeeting]
        exact (yields_nil_of_finished rfl).cons hnext

/-- Records that lie wholly in the bytes of a stream are read, and what is behind them is left. -/
theorem next_of_flatten_append {heads : List Bytes} {records : List Record} {tail : Bytes}
    (h : List.Forall₂ (fun head record ↦ Record.decode head = .ok record) heads records)
    {r : RecordReader} (hopen : r.finished = false)
    (hbytes : r.source.bytes = heads.flatten ++ tail) :
    (∀ (i : Nat) record, records[i]? = some record →
      (r.after i).next.1 = some (.ok record)) ∧
      (r.after records.length).source.bytes = tail := by
  induction h generalizing r with
  | nil => exact ⟨nofun, hbytes⟩
  | @cons head record heads records hdecode _ ih =>
    have hsettles := (Record.decode_eq_ok_iff_settles _ _).mp hdecode
    rw [List.flatten_cons, List.append_assoc] at hbytes
    obtain ⟨s, hnext, hleft, -⟩ := exists_next_of_settles hopen hsettles hbytes
    obtain ⟨hanswers, hrest⟩ := ih (r := ⟨s, false⟩) rfl hleft
    refine ⟨fun i later hlater ↦ ?_, ?_⟩
    · cases i with
      | zero =>
        obtain rfl : record = later := Option.some.inj hlater
        exact congrArg Prod.fst hnext
      | succ i =>
        rw [List.getElem?_cons_succ] at hlater
        rw [after_succ hnext]
        exact hanswers i later hlater
    · rw [List.length_cons, after_succ hnext]
      exact hrest

/-- Streams that deliver their bytes in any pieces, after any interruptions, and then end or fail.
In whichever ways its requests are answered, decoding from the stream answers what it answers for
the bytes in memory, an early end apart, and leaves the same bytes. Reading gives the records that
are read in memory and stops once, in the same way if some bytes are no record and else with the
failure of the stream if it has one; every call leaves the same bytes. Records that lie wholly in
the bytes are read whatever the stream does behind them. -/
theorem reads_of_delivery (s : Source) :
    (∃ answer rest, Record.decodeFrom s.bytes = resultOf answer rest ∧
      (∃ s', Record.readFrom s = resultOf (s.inPlaceOf answer) s' ∧ s'.bytes = rest) ∧
      ∀ ways, ∃ s', Decoder.record.readBy ways 0 s = resultOf (s.inPlaceOf answer) s' ∧
        s'.bytes = rest) ∧
    (∃ (records : List Record) (stop : Option CodecError), (∀ e, stop ≠ some (.io e)) ∧
      (ofBytes s.bytes).Yields (records.map .ok ++ stop.toList.map .error) ∧
      (ofSource s).Yields (records.map .ok ++ (s.meeting stop).toList.map .error)) ∧
    (∀ calls, ((ofSource s).after calls).source.bytes =
      ((ofBytes s.bytes).after calls).source.bytes) ∧
    (∀ head tail record, Record.decode head = .ok record → s.bytes = head ++ tail →
      ∃ s', Record.readFrom s = .ok record s' ∧ s'.bytes = tail) ∧
    ∀ heads records tail,
      List.Forall₂ (fun head record ↦ Record.decode head = .ok record) heads records →
      s.bytes = heads.flatten ++ tail →
        (∀ (i : Nat) record, records[i]? = some record →
          ((ofSource s).after i).next.1 = some (.ok record)) ∧
        ((ofSource s).after records.length).source.bytes = tail := by
  refine ⟨?_, ?_, fun calls ↦ ?_, fun head tail record hdecode hbytes ↦ ?_,
    fun heads records tail h hbytes ↦ next_of_flatten_append h rfl hbytes⟩
  · obtain ⟨answer, rest, hrun⟩ :
        ∃ answer rest, Record.decodeFrom s.bytes = resultOf answer rest := by
      cases h : Record.decodeFrom s.bytes with
      | ok record rest => exact ⟨.ok record, rest, rfl⟩
      | error e rest => exact ⟨.error e, rest, rfl⟩
    have hread (ways : Nat → Source.Way) := Decoder.record.exists_readBy ways 0 s hrun
    refine ⟨answer, rest, hrun, ?_, fun ways ↦ ?_⟩
    · obtain ⟨s', hread, hleft, -⟩ := hread fun _ ↦ .exactly
      exact ⟨s', by rw [Record.readFrom, Decoder.readFrom_eq_readBy, hread], hleft⟩
    · obtain ⟨s', hread, hleft, -⟩ := hread ways
      exact ⟨s', hread, hleft⟩
  · obtain ⟨records, stop, hscan, hstop, hyields⟩ := exists_yields_meeting (r := ofSource s) rfl
    have hmemory : (ofBytes s.bytes).Yields (Record.scan s.bytes) := yields_scan rfl rfl
    exact ⟨records, stop, hstop, hscan ▸ hmemory, hyields⟩
  · have habreast : Abreast (ofSource s) (ofBytes s.bytes) := ⟨rfl, rfl⟩
    exact (habreast.after calls).bytes
  · have hsettles := (Record.decode_eq_ok_iff_settles _ _).mp hdecode
    obtain ⟨s', hread, hleft, -⟩ := hsettles.readFrom hbytes
    exact ⟨s', hread, hleft⟩

end RecordReader

end ScriptTrace
