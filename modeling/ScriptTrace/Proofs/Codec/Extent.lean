import ScriptTrace.Codec.Source
import ScriptTrace.Proofs.Act

/-!
How far a decoder reads. A byte string `Settles` a decoder if it is exactly what the decoder asks
for until it has a value or refuses; it `Starves` a decoder that asks for more. Every byte string
does one of the two with some part from its beginning (`settles_or_starves`), and what settles a
decoder settles it whatever comes behind, while everything shorter starves it. So the bytes a
decoder consumes are fixed by its answer, both in byte strings and in streams that deliver them in
pieces (`Settles.readFrom`, `Starves.readFrom`), and a record in memory is read in the same way
from every byte string that goes on behind it (`decodeFrom_extent`).
-/

set_option autoImplicit false
set_option relaxedAutoImplicit false

namespace ScriptTrace

/-- A prefix of two byte strings in a row ends within the first one or goes beyond it. -/
theorem Bytes.length_lt_or_eq_append {p head tail : Bytes} (h : p <+: head ++ tail) :
    p.length < head.length ∨ ∃ q, q <+: tail ∧ p = head ++ q := by
  rcases List.prefix_or_prefix_of_prefix h (List.prefix_append head tail) with hshort | hlong
  · rcases Nat.lt_or_eq_of_le hshort.length_le with hlt | heq
    · exact .inl hlt
    · exact .inr ⟨[], List.nil_prefix, by rw [List.append_nil, hshort.eq_of_length heq]⟩
  · obtain ⟨q, rfl⟩ := hlong
    exact .inr ⟨q, (List.prefix_append_right_inj head).mp h, rfl⟩

namespace Decoder

variable {α : Type}

/-- A byte string is what a decoder asks for until it answers. -/
inductive Settles : Decoder α → Bytes → Except CodecError α → Prop
  | done (a : α) : Settles (done a) [] (.ok a)
  | refuse (reason : Malformed) : Settles (refuse reason) [] (.error (.malformed reason))
  | take {count : Nat} {next : { bs : Bytes // bs.length = count } → Decoder α}
    (head : { bs : Bytes // bs.length = count }) {tail : Bytes} {answer : Except CodecError α}
    (h : Settles (next head) tail answer) : Settles (take count next) (head.val ++ tail) answer

/-- A decoder asks for more than a byte string. -/
inductive Starves : Decoder α → Bytes → Prop
  | short {count : Nat} (next : { bs : Bytes // bs.length = count } → Decoder α) {bs : Bytes}
    (hshort : bs.length < count) : Starves (take count next) bs
  | take {count : Nat} {next : { bs : Bytes // bs.length = count } → Decoder α}
    (head : { bs : Bytes // bs.length = count }) {tail : Bytes} (h : Starves (next head) tail) :
    Starves (take count next) (head.val ++ tail)

theorem settles_or_starves (d : Decoder α) (bs : Bytes) :
    (∃ head tail answer, bs = head ++ tail ∧ d.Settles head answer) ∨ d.Starves bs := by
  induction d generalizing bs with
  | done a => exact .inl ⟨[], bs, _, rfl, .done a⟩
  | refuse reason => exact .inl ⟨[], bs, _, rfl, .refuse reason⟩
  | take count next ih =>
    by_cases hcount : count ≤ bs.length
    · let head : { bs : Bytes // bs.length = count } :=
        ⟨bs.take count, List.length_take_of_le hcount⟩
      have hsplit : bs = head.val ++ bs.drop count := (List.take_append_drop count bs).symm
      rcases ih head (bs.drop count) with ⟨mid, tail, answer, hmid, hsettles⟩ | hstarves
      · rw [hmid, ← List.append_assoc] at hsplit
        exact .inl ⟨head.val ++ mid, tail, answer, hsplit, .take head hsettles⟩
      · rw [hsplit]
        exact .inr (.take head hstarves)
    · exact .inr (.short next (Nat.lt_of_not_le hcount))

theorem Starves.of_prefix {d : Decoder α} {bs p : Bytes} (h : d.Starves bs) (hp : p <+: bs) :
    d.Starves p := by
  induction h generalizing p with
  | short next hshort => exact .short next (Nat.lt_of_le_of_lt hp.length_le hshort)
  | @take count next head tail _ ih =>
    rcases Bytes.length_lt_or_eq_append hp with hlt | ⟨q, hq, rfl⟩
    · exact .short next (head.property ▸ hlt)
    · exact .take head (ih hq)

/-- Less than what settles a decoder starves it. -/
theorem Settles.starves {d : Decoder α} {bs p : Bytes} {answer : Except CodecError α}
    (h : d.Settles bs answer) (hp : p <+: bs) (hlt : p.length < bs.length) : d.Starves p := by
  induction h generalizing p with
  | done a => exact absurd hlt (Nat.not_lt_zero _)
  | refuse reason => exact absurd hlt (Nat.not_lt_zero _)
  | @take count next head tail answer _ ih =>
    rcases Bytes.length_lt_or_eq_append hp with hshort | ⟨q, hq, rfl⟩
    · exact .short next (head.property ▸ hshort)
    · rw [List.length_append, List.length_append, Nat.add_lt_add_iff_left] at hlt
      exact .take head (ih hq hlt)

/-- A decoder that answers says neither that the bytes ended nor that a stream failed. -/
theorem Settles.answer_cases {d : Decoder α} {bs : Bytes} {answer : Except CodecError α}
    (h : d.Settles bs answer) :
    (∃ a, answer = .ok a) ∨ ∃ reason, answer = .error (.malformed reason) := by
  induction h with
  | done a => exact .inl ⟨a, rfl⟩
  | refuse reason => exact .inr ⟨reason, rfl⟩
  | take _ _ ih => exact ih

/-! ### Byte strings -/

theorem Settles.run_eq {d : Decoder α} {head : Bytes} {answer : Except CodecError α}
    (h : d.Settles head answer) (tail : Bytes) : d.run (head ++ tail) = resultOf answer tail := by
  induction h with
  | done a => rfl
  | refuse reason => rfl
  | take head _ ih =>
    obtain ⟨head, rfl⟩ := head
    simp only [List.append_assoc, run, split, List.take_left, List.drop_left, dite_true, ih]

theorem Starves.run_eq {d : Decoder α} {bs : Bytes} (h : d.Starves bs) :
    d.run bs = .error .truncated [] := by
  induction h with
  | @short count next bs hshort =>
    have hne : (bs.take count).length ≠ count := by
      rw [List.length_take]
      omega
    simp only [run, split, dif_neg hne]
  | take head _ ih =>
    obtain ⟨head, rfl⟩ := head
    simp only [run, split, List.take_left, List.drop_left, dite_true, ih]

end Decoder

/-! ### Streams -/

namespace Source

/-- What a read of at most `want` bytes is answered with, once it is not interrupted. -/
def deliver (want : Nat) (s : Source) : Except IoError Bytes × Source :=
  let answered := { s with turn := s.turn + 1, suffered := 0 }
  match s.bytes, s.failure with
  | [], some e => (.error e, answered)
  | [], none => (.ok [], answered)
  | bs, _ =>
    let size := min want ((s.plan s.turn).size + 1)
    (.ok (bs.take size), { answered with bytes := bs.drop size })

/-- What a stream says after its last byte to a decoder that asks for more. -/
def ending (s : Source) : CodecError :=
  match s.failure with
  | none => .truncated
  | some e => .ofRead e

theorem persist_eq_deliver {want tries : Nat} {s : Source}
    (h : (s.plan s.turn).interruptions - s.suffered < tries) :
    s.persist want tries = s.deliver want := by
  induction tries generalizing s with
  | zero => exact absurd h (Nat.not_lt_zero _)
  | succ tries ih =>
    by_cases hinterrupted : s.suffered < (s.plan s.turn).interruptions
    · have hrest := ih (s := { s with suffered := s.suffered + 1 }) (by dsimp only; omega)
      simp only [persist, read, if_pos hinterrupted, hrest]
      rfl
    · simp only [persist, read, if_neg hinterrupted, deliver]
      cases hbytes : s.bytes with
      | nil => cases hfailure : s.failure <;> rfl
      | cons b rest => rfl

theorem next_eq_deliver (want : Nat) (s : Source) : s.next want = s.deliver want :=
  persist_eq_deliver (Nat.lt_succ_self _)

/-- A read of a stream with bytes left gets some of them, from the first one on. -/
theorem exists_next_of_ne_nil {want : Nat} (hwant : 0 < want) {s : Source} (hs : s.bytes ≠ []) :
    ∃ piece s', piece ≠ [] ∧ piece.length ≤ want ∧ s.bytes = piece ++ s'.bytes ∧
      s.next want = (.ok piece, s') ∧ s'.failure = s.failure := by
  obtain ⟨b, rest, hbytes⟩ := List.exists_cons_of_ne_nil hs
  let size := min want ((s.plan s.turn).size + 1)
  have hsize : 0 < size := by omega
  refine ⟨s.bytes.take size,
    { s with bytes := s.bytes.drop size, turn := s.turn + 1, suffered := 0 }, ?_, ?_,
    (List.take_append_drop size s.bytes).symm, ?_, rfl⟩
  · simp [List.take_eq_nil_iff, hs, Nat.ne_of_gt hsize]
  · exact Nat.le_trans (List.length_take_le size s.bytes) (Nat.min_le_left _ _)
  · rw [next_eq_deliver]
    simp only [deliver, hbytes, size]

/-- A read after the last byte finds the end or the failure of the stream. -/
theorem exists_next_of_nil (want : Nat) {s : Source} (hs : s.bytes = []) :
    ∃ s', s.next want = ((s.failure.map Except.error).getD (.ok []), s') ∧ s'.bytes = [] ∧
      s'.failure = s.failure := by
  refine ⟨{ s with turn := s.turn + 1, suffered := 0 }, ?_, hs, rfl⟩
  rw [next_eq_deliver]
  cases hfailure : s.failure <;> simp only [deliver, hs, hfailure] <;> rfl

/-- Gathering takes bytes in order, however they are delivered, and finds the end of the stream
if there are too few. -/
theorem exists_gather {rounds want : Nat} (hrounds : want ≤ rounds) (seen : Bytes) (s : Source) :
    ∃ s', s.gather rounds want seen =
        (if want ≤ s.bytes.length then .ok (seen ++ s.bytes.take want) else .error s.ending, s') ∧
      s'.bytes = s.bytes.drop want ∧ s'.failure = s.failure := by
  induction rounds generalizing want seen s with
  | zero =>
    obtain rfl : want = 0 := Nat.le_zero.mp hrounds
    exact ⟨s, by simp [gather], rfl, rfl⟩
  | succ rounds ih =>
    by_cases hwant : want = 0
    · subst hwant
      exact ⟨s, by simp [gather], rfl, rfl⟩
    · by_cases hnil : s.bytes = []
      · obtain ⟨s', hnext, hbytes, hfailure⟩ := exists_next_of_nil want hnil
        refine ⟨s', ?_, by rw [hbytes, hnil, List.drop_nil], hfailure⟩
        have hshort : ¬want ≤ s.bytes.length := by
          rw [hnil]
          exact fun hle ↦ hwant (Nat.le_zero.mp hle)
        rw [if_neg hshort]
        cases hsource : s.failure <;>
          simp only [gather, if_neg hwant, hnext, hsource, ending] <;> rfl
      · obtain ⟨piece, s₁, hpiece, hle, hbytes, hnext, hfailure⟩ :=
          exists_next_of_ne_nil (Nat.pos_of_ne_zero hwant) hnil
        have hpos : 0 < piece.length := List.length_pos_iff.mpr hpiece
        have hless : want - piece.length ≤ rounds := by omega
        obtain ⟨s', hgather, hleft, hsame⟩ := ih hless (seen ++ piece) s₁
        refine ⟨s', ?_, ?_, hsame.trans hfailure⟩
        · obtain ⟨b, rest, rfl⟩ := List.exists_cons_of_ne_nil hpiece
          have hending : s₁.ending = s.ending := by rw [ending, ending, hfailure]
          have hiff : want - (b :: rest).length ≤ s₁.bytes.length ↔ want ≤ s.bytes.length := by
            rw [hbytes, List.length_append]
            omega
          simp only [gather, if_neg hwant, hnext, hgather, hending, hiff]
          rw [hbytes, List.take_append, List.take_of_length_le hle, List.append_assoc]
        · rw [hleft, hbytes, List.drop_append, List.drop_of_length_le hle, List.nil_append]

end Source

namespace Decoder

variable {α : Type} {d : Decoder α}

/-- Reading what stands at the front of a stream. -/
theorem exists_readFrom_take {count : Nat} (next : { bs : Bytes // bs.length = count } → Decoder α)
    (head : { bs : Bytes // bs.length = count }) {s : Source} {tail : Bytes}
    (hs : s.bytes = head.val ++ tail) :
    ∃ s', (take count next).readFrom s = (next head).readFrom s' ∧ s'.bytes = tail ∧
      s'.failure = s.failure := by
  obtain ⟨head, rfl⟩ := head
  obtain ⟨s', hgather, hbytes, hfailure⟩ := Source.exists_gather (Nat.le_refl head.length) [] s
  have hlength : head.length ≤ s.bytes.length := by
    rw [hs, List.length_append]
    exact Nat.le_add_right _ _
  rw [if_pos hlength, hs, List.take_left, List.nil_append] at hgather
  refine ⟨s', ?_, by rw [hbytes, hs, List.drop_left], hfailure⟩
  simp only [Decoder.readFrom, hgather, dif_pos]

/-- What settles a decoder in front of a stream is read from it, and nothing more. -/
theorem Settles.readFrom {head : Bytes} {answer : Except CodecError α}
    (h : d.Settles head answer) {s : Source} {tail : Bytes} (hs : s.bytes = head ++ tail) :
    ∃ s', d.readFrom s = resultOf answer s' ∧ s'.bytes = tail ∧ s'.failure = s.failure := by
  induction h generalizing s with
  | done a => exact ⟨s, rfl, hs, rfl⟩
  | refuse reason => exact ⟨s, rfl, hs, rfl⟩
  | @take count next head rest answer _ ih =>
    rw [List.append_assoc] at hs
    obtain ⟨s₁, htake, hbytes, hfailure⟩ := exists_readFrom_take next head hs
    obtain ⟨s', hread, hleft, hsame⟩ := ih hbytes
    exact ⟨s', htake.trans hread, hleft, hsame.trans hfailure⟩

/-- A decoder that asks for more than a stream has finds how the stream ends. -/
theorem Starves.readFrom {s : Source} (h : d.Starves s.bytes) :
    ∃ s', d.readFrom s = .error s.ending s' ∧ s'.bytes = [] ∧ s'.failure = s.failure := by
  generalize hbytes : s.bytes = bs at h
  induction h generalizing s with
  | @short count next bs hshort =>
    obtain ⟨s', hgather, hleft, hfailure⟩ := Source.exists_gather (Nat.le_refl count) [] s
    rw [← hbytes] at hshort
    refine ⟨s', ?_, hleft.trans (List.drop_of_length_le (Nat.le_of_lt hshort)), hfailure⟩
    rw [if_neg (Nat.not_le_of_lt hshort)] at hgather
    simp only [Decoder.readFrom, hgather]
  | @take count next head tail _ ih =>
    obtain ⟨s₁, htake, htail, hfailure⟩ := exists_readFrom_take next head hbytes
    obtain ⟨s', hread, hleft, hsame⟩ := ih htail
    have hending : s₁.ending = s.ending := by rw [Source.ending, Source.ending, hfailure]
    exact ⟨s', by rw [htake, hread, hending], hleft, hsame.trans hfailure⟩

end Decoder

/-! ### Records in memory -/

namespace Record

/-- Decoding the start of a byte string gives an answer and consumes so many bytes. -/
structure Decodes (bs : Bytes) (answer : Except CodecError Record) (consumed : Nat) : Prop where
  consumed_le : consumed ≤ bs.length
  eq : decodeFrom bs = resultOf answer (bs.drop consumed)

/-- The bytes in front settle the decoder of records. -/
theorem decodes_of_settles {head : Bytes} {answer : Except CodecError Record}
    (h : Decoder.record.Settles head answer) (tail : Bytes) :
    Decodes (head ++ tail) answer head.length where
  consumed_le := by
    rw [List.length_append]
    exact Nat.le_add_right _ _
  eq := by rw [decodeFrom, h.run_eq, List.drop_left]

theorem decodes_of_starves {bs : Bytes} (h : Decoder.record.Starves bs) :
    Decodes bs (.error .truncated) bs.length where
  consumed_le := Nat.le_refl _
  eq := by rw [decodeFrom, h.run_eq, List.drop_length, resultOf]

/-- A whole byte string is decoded like its beginning, unless bytes are left after a record. -/
theorem Decodes.decode_eq {bs : Bytes} {answer : Except CodecError Record} {consumed : Nat}
    (h : Decodes bs answer consumed) :
    decode bs = answer.bind fun r ↦
      if consumed = bs.length then .ok r
      else .error (.malformed (.trailing (bs.length - consumed))) := by
  have hle := h.consumed_le
  unfold decode
  rw [h.eq]
  cases answer with
  | error e => rfl
  | ok r =>
    by_cases hwhole : consumed = bs.length
    · simp only [hwhole, List.drop_length, resultOf, Except.bind, if_true]
    · have hleft : bs.drop consumed ≠ [] := by
        refine List.ne_nil_of_length_pos ?_
        rw [List.length_drop]
        omega
      obtain ⟨b, rest, hrest⟩ := List.exists_cons_of_ne_nil hleft
      have hlength := congrArg List.length hrest
      rw [List.length_drop] at hlength
      simp only [hrest, resultOf, Except.bind, if_neg hwhole, hlength]

theorem decode_eq_ok_iff_settles (bs : Bytes) (r : Record) :
    decode bs = .ok r ↔ Decoder.record.Settles bs (.ok r) := by
  constructor
  · intro h
    rcases Decoder.settles_or_starves Decoder.record bs with
      ⟨head, tail, answer, rfl, hsettles⟩ | hstarves
    · rw [(decodes_of_settles hsettles tail).decode_eq] at h
      cases answer with
      | error e => cases h
      | ok r' =>
        rw [Except.bind] at h
        split at h
        · rename_i hwhole
          rw [List.length_append, Nat.left_eq_add, List.length_eq_zero_iff] at hwhole
          rw [hwhole, List.append_nil, ← Except.ok.inj h]
          exact hsettles
        · cases h
    · rw [(decodes_of_starves hstarves).decode_eq] at h
      cases h
  · intro h
    have hdecodes := decodes_of_settles h []
    rw [List.append_nil] at hdecodes
    rw [hdecodes.decode_eq, Except.bind, if_pos rfl]

theorem decode_ne_io (bs : Bytes) (e : IoError) : decode bs ≠ .error (.io e) := by
  rcases Decoder.settles_or_starves Decoder.record bs with
    ⟨head, tail, answer, rfl, hsettles⟩ | hstarves
  · rw [(decodes_of_settles hsettles tail).decode_eq]
    rcases hsettles.answer_cases with ⟨a, rfl⟩ | ⟨reason, rfl⟩
    · rw [Except.bind]
      split <;> exact nofun
    · exact nofun
  · rw [(decodes_of_starves hstarves).decode_eq]
    exact nofun

/-- No byte string that is accepted goes on to another one. -/
theorem eq_of_prefix_of_decode {bs cs : Bytes} {r s : Record} (hbs : decode bs = .ok r)
    (hcs : decode cs = .ok s) (hbegins : bs <+: cs) : cs = bs := by
  rcases Nat.lt_or_eq_of_le hbegins.length_le with hlt | heq
  · rw [decode_eq_ok_iff_settles] at hcs
    rw [(decodes_of_starves (hcs.starves hbegins hlt)).decode_eq] at hbs
    cases hbs
  · exact (hbegins.eq_of_length heq).symm

/-- Decoding from a byte string in memory. Unless the byte string ends too early, the answer takes a
number of bytes that every byte string with the same beginning gives it, and every shorter one ends
too early; if it does end too early, so does all that stands in front of its end. Decoding a whole
byte string only refuses, in addition, what is left behind a record. No byte string in memory fails,
and none that is accepted goes on to another one. -/
theorem decodeFrom_extent (bs : Bytes) :
    ∃ answer consumed, Decodes bs answer consumed ∧
      (∃ s, readFrom (.ofBytes bs) = resultOf answer s ∧ s.bytes = bs.drop consumed) ∧
      (answer ≠ .error .truncated →
        (∀ p, p <+: bs → p.length < consumed → ∃ n, Decodes p (.error .truncated) n) ∧
        (∀ p, p <+: bs → consumed ≤ p.length → Decodes p answer consumed) ∧
        ∀ more, Decodes (bs ++ more) answer consumed) ∧
      (answer = .error .truncated → ∀ p, p <+: bs → ∃ n, Decodes p (.error .truncated) n) ∧
      (decode bs = answer.bind fun r ↦
        if consumed = bs.length then .ok r
        else .error (.malformed (.trailing (bs.length - consumed)))) ∧
      (∀ e, answer ≠ .error (.io e) ∧ decode bs ≠ .error (.io e)) ∧
      ∀ r, decode bs = .ok r → ∀ cs s, bs <+: cs → decode cs = .ok s → cs = bs := by
  have hfree (r : Record) (hr : decode bs = .ok r) (cs : Bytes) (s : Record) (hbegins : bs <+: cs)
      (hs : decode cs = .ok s) : cs = bs := eq_of_prefix_of_decode hr hs hbegins
  rcases Decoder.settles_or_starves Decoder.record bs with
    ⟨head, tail, answer, rfl, hsettles⟩ | hstarves
  · have hdecodes := decodes_of_settles hsettles tail
    obtain ⟨s, hread, hbytes, -⟩ := hsettles.readFrom (s := .ofBytes (head ++ tail)) rfl
    refine ⟨answer, head.length, hdecodes, ⟨s, hread, by rw [hbytes, List.drop_left]⟩,
      fun _ ↦ ⟨?_, ?_, ?_⟩, ?_, hdecodes.decode_eq, fun e ↦ ⟨?_, decode_ne_io _ e⟩, hfree⟩
    · intro p hp hlt
      have hshort : p <+: head :=
        List.prefix_of_prefix_length_le hp (List.prefix_append head tail) (Nat.le_of_lt hlt)
      exact ⟨_, decodes_of_starves (hsettles.starves hshort hlt)⟩
    · intro p hp hle
      obtain ⟨q, rfl⟩ := List.prefix_of_prefix_length_le (List.prefix_append head tail) hp hle
      exact decodes_of_settles hsettles q
    · intro more
      rw [List.append_assoc]
      exact decodes_of_settles hsettles (tail ++ more)
    · intro htruncated
      rcases hsettles.answer_cases with ⟨a, rfl⟩ | ⟨reason, rfl⟩ <;> cases htruncated
    · rcases hsettles.answer_cases with ⟨a, rfl⟩ | ⟨reason, rfl⟩ <;> exact nofun
  · have hdecodes := decodes_of_starves hstarves
    obtain ⟨s, hread, hbytes, -⟩ := hstarves.readFrom (s := .ofBytes bs)
    refine ⟨.error .truncated, bs.length, hdecodes, ⟨s, hread, by rw [hbytes, List.drop_length]⟩,
      fun hne ↦ absurd rfl hne, fun _ p hp ↦ ?_, hdecodes.decode_eq,
      fun e ↦ ⟨nofun, decode_ne_io bs e⟩, hfree⟩
    exact ⟨_, decodes_of_starves (hstarves.of_prefix hp)⟩

end Record

end ScriptTrace
