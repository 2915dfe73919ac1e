import ScriptTrace.Proofs.Storage.Lawful
import ScriptTrace.Proofs.Trace.Room

/-!
Sessions that append their records to one file. Each of them opens the file at its end, writes
records through a new sink and gives the stream up; its stream may run out of room after any number
of bytes (`Storage.Appends`, and `MemoryStore.appends` for files in memory). A session whose stream
stops inside an encoding leaves a part of a record behind, and nothing marks where the next record
begins. So the records acknowledged are read back, in the order in which they were written, up to
and including the first session that leaves such a part (`Storage.visits_read_back`), and those of
later sessions may be lost (`MemoryStore.visits_of_torn`).
-/

set_option autoImplicit false
set_option relaxedAutoImplicit false

namespace ScriptTrace

/-! ### Sessions -/

/-- The content of a file, which is empty where there is no file. -/
def Storage.content {τ : Type} (fs : Storage τ) (path : String) (t : τ) : Bytes :=
  (fs.read path t).toOption.getD []

/-- An operation of a sink that has written nothing yet. -/
def BinarySink.fresh {ε τ α : Type} (x : EStateM ε (BinarySink τ) α) : EStateM ε τ α := fun t ↦
  match x ⟨t, 0⟩ with
  | .ok a s => .ok a s.inner
  | .error e s => .error e s.inner

/-- Open a file at its end, write records to it and give the stream up. -/
def Storage.session {τ : Type} (fs : Storage τ) (path : String) (records : List Record) :
    EStateM TracerError τ (List (Except TracerError Unit)) := do
  let h ← failingWith (TracerError.ioFailure path) (fs.openAppend path)
  let answers ← BinarySink.fresh (BinarySink.writeEach (fs.writer h) records)
  modify (fs.release h)
  return answers

/-- What is seen of a session. -/
structure Visit where
  records : List Record
  /-- The answers to the writes, none if the file could not be opened. -/
  answers : List (Except TracerError Unit)
  /-- The content of the file afterwards. -/
  left : Bytes

/-- The records whose writes were answered without an error. -/
def Visit.acknowledged (v : Visit) : List Record := Record.acknowledged v.records v.answers

/-- A session that finds `before` in its file adds the encodings of the records it acknowledges and
a part of one more. -/
structure Visit.Adds (v : Visit) (before : Bytes) (pieces : List Bytes) (part : Bytes) : Prop where
  encoded : List.Forall₂ (fun record bs ↦ record.encode = .ok bs) v.acknowledged pieces
  left_eq : v.left = before ++ (pieces.flatten ++ part)
  scan_part : Record.scan part = if part = [] then [] else [.error .truncated]

namespace Visit.Adds

variable {v : Visit} {before : Bytes} {pieces : List Bytes} {part : Bytes}
  (h : v.Adds before pieces part) {found : List Record}
  (hfound : Record.readAll before = .ok found)
include h hfound

/-- Whatever comes behind a session, its records are read first. -/
theorem scan_left_append (behind : Bytes) : Record.scan (v.left ++ behind) =
    (found ++ v.acknowledged).map .ok ++ Record.scan (part ++ behind) := by
  rw [Record.readAll_eq_ok_iff] at hfound
  rw [h.left_eq, List.append_assoc, List.append_assoc, Record.scan_append_of_scan_eq hfound,
    Record.scan_flatten_append h.encoded, List.map_append, List.append_assoc]

/-- A session that leaves whole records leaves no part of another one. -/
theorem readAll_left (hwhole : ∃ whole, Record.readAll v.left = .ok whole) :
    Record.readAll v.left = .ok (found ++ v.acknowledged) := by
  obtain ⟨whole, hread⟩ := hwhole
  have hscan := h.scan_left_append hfound []
  rw [List.append_nil, List.append_nil, h.scan_part] at hscan
  rw [Record.readAll_eq_ok_iff] at hread ⊢
  split_ifs at hscan with hnil
  · rwa [List.append_nil] at hscan
  · have hmem : Except.error CodecError.truncated ∈ whole.map Except.ok := by
      rw [← hread, hscan]
      simp
    simp at hmem

end Visit.Adds

/-- One session, watched. -/
def Storage.visit {τ : Type} (fs : Storage τ) (path : String) (records : List Record) :
    EStateM TracerError τ Visit := do
  let answers ← attempt (fs.session path records)
  let t ← get
  return ⟨records, answers.toOption.getD [], fs.content path t⟩

/-- Sessions one after the other. -/
def Storage.visits {τ : Type} (fs : Storage τ) (path : String) (sessions : List (List Record)) :
    EStateM TracerError τ (List Visit) :=
  sessions.mapM (fs.visit path)

/-- Streams opened at the end of a file take bytes behind its content until they have no more room.
-/
structure Storage.Appends {τ : Type} (fs : Storage τ) (path : String)
    (ready : Handle → τ → Prop) (taken : τ → Bytes) (room : Handle → τ → Option Nat) : Prop where
  openAppend : ∀ t, Ends (fs.openAppend path) t
    (fun h t' ↦ ready h t' ∧ taken t' = fs.content path t)
    fun _ t' ↦ fs.content path t' = fs.content path t
  writer : ∀ h, (fs.writer h).Bounded (ready h) taken (room h)
  release : ∀ h t, ready h t → fs.content path (fs.release h t) = taken t

namespace Storage

variable {τ : Type} {fs : Storage τ} {path : String} {ready : Handle → τ → Prop}
  {taken : τ → Bytes} {room : Handle → τ → Option Nat}

theorem visit_of_session {records : List Record} {t t' : τ}
    {outcome : Except TracerError (List (Except TracerError Unit))}
    (h : fs.session path records t = resultOf outcome t') :
    fs.visit path records t =
      .ok ⟨records, outcome.toOption.getD [], fs.content path t'⟩ t' := by
  have hattempt : (attempt (fs.session path records) :
      EStateM TracerError τ (Except TracerError (List (Except TracerError Unit)))) t =
        .ok outcome t' := by
    rw [attempt, h]
    cases outcome <;> rfl
  rw [visit, bind_ok hattempt]
  rfl

/-- A session whose stream can be opened fills the room of the stream with encodings. -/
theorem exists_session (hfs : fs.Appends path ready taken room) (records : List Record) {t t₁ : τ}
    {h : Handle} (hrun : fs.openAppend path t = .ok h t₁) :
    ∃ left answers t', fs.session path records t = .ok answers t' ∧
      fs.content path t' =
        fs.content path t ++ (Record.encodings records).flatten.take left ∧
      Record.acknowledged records answers =
        (Record.encodable records).take (Bytes.fitting left (Record.encodings records)) := by
  obtain ⟨hready, htaken₁⟩ := (hfs.openAppend t).of_ok hrun
  obtain ⟨left, hroom⟩ : ∃ left, room h t₁ = some left ∨
      room h t₁ = none ∧ (Record.encodings records).flatten.length ≤ left := by
    cases room h t₁ with
    | none => exact ⟨_, .inr ⟨rfl, Nat.le_refl _⟩⟩
    | some left => exact ⟨left, .inl rfl⟩
  obtain ⟨answers, s, hwrites, hready', hfills⟩ :=
    BinarySink.exists_writeEach (hfs.writer h) records ⟨t₁, 0⟩ hready hroom
  refine ⟨left, answers, fs.release h s.inner, ?_, ?_, hfills.acknowledged⟩
  · have hopened : failingWith (TracerError.ioFailure path) (fs.openAppend path) t = .ok h t₁ := by
      simp only [failingWith, hrun]
    have hwritten : BinarySink.fresh (BinarySink.writeEach (fs.writer h) records) t₁ =
        .ok answers s.inner := by
      simp only [BinarySink.fresh, hwrites]
    rw [session, bind_ok hopened, bind_ok hwritten]
    rfl
  · rw [hfs.release h _ hready', hfills.taken, htaken₁]

theorem exists_visit (hfs : fs.Appends path ready taken room) (records : List Record) (t : τ) :
    ∃ (v : Visit) (t' : τ), fs.visit path records t = .ok v t' ∧ v.records = records ∧
      v.left = fs.content path t' ∧ ∃ pieces part, v.Adds (fs.content path t) pieces part := by
  cases hrun : fs.openAppend path t with
  | error e t₁ =>
    have hopened : failingWith (TracerError.ioFailure path) (fs.openAppend path) t =
        .error (.ioFailure path e) t₁ := by
      simp only [failingWith, hrun]
    have hsession : fs.session path records t = resultOf (.error (.ioFailure path e)) t₁ := by
      rw [session, bind_error hopened, resultOf]
    refine ⟨_, t₁, visit_of_session hsession, rfl, rfl, [], [], ?_, ?_, ?_⟩
    · cases records <;> exact .nil
    · change fs.content path t₁ = _
      rw [(hfs.openAppend t).of_error hrun]
      exact (List.append_nil _).symm
    · rw [Record.scan_nil, if_pos rfl]
  | ok h t₁ =>
    obtain ⟨left, answers, t', hsession, hcontent, hacknowledged⟩ := exists_session hfs records hrun
    obtain ⟨part, htake, hpart⟩ := Bytes.exists_take_flatten left (Record.encodings records)
    have houtcome : fs.session path records t = resultOf (.ok answers) t' := hsession
    refine ⟨_, t', visit_of_session houtcome, rfl, rfl,
      (Record.encodings records).take (Bytes.fitting left (Record.encodings records)), part, ?_,
      ?_, Record.scan_of_part hpart⟩
    · change List.Forall₂ _ (Record.acknowledged records answers) _
      rw [hacknowledged]
      exact List.forall₂_take _ (Record.forall₂_encodings records)
    · change fs.content path t' = _
      rw [hcontent, htake]

/-- Sessions go on behind what they find. As long as what was left before a session is whole, the
records that the session acknowledges are read behind those in front of it. -/
theorem exists_visits (hfs : fs.Appends path ready taken room) (sessions : List (List Record))
    (t : τ) :
    ∃ (vs : List Visit) (t' : τ), fs.visits path sessions t = .ok vs t' ∧
      vs.map (·.records) = sessions ∧ fs.content path t <+: fs.content path t' ∧
      ∀ found, Record.readAll (fs.content path t) = .ok found →
        (∀ k < vs.length, (∀ v ∈ vs.take k, ∃ whole, Record.readAll v.left = .ok whole) →
          ∃ rest, Record.scan (fs.content path t') =
            (found ++ (vs.take (k + 1)).flatMap Visit.acknowledged).map .ok ++ rest) ∧
        ((∀ v ∈ vs, ∃ whole, Record.readAll v.left = .ok whole) →
          Record.readAll (fs.content path t') = .ok (found ++ vs.flatMap Visit.acknowledged)) := by
  induction sessions generalizing t with
  | nil =>
    refine ⟨[], t, rfl, rfl, List.prefix_rfl, fun found hfound ↦ ⟨nofun, fun _ ↦ ?_⟩⟩
    rw [hfound, List.flatMap_nil, List.append_nil]
  | cons records sessions ih =>
    obtain ⟨v, t₁, hvisit, hrecords, hleft, pieces, part, hadds⟩ := exists_visit hfs records t
    obtain ⟨vs, t', hvisits, hsessions, ⟨more, hmore⟩, hrest⟩ := ih t₁
    rw [← hleft] at hmore hrest
    have hrun : fs.visits path (records :: sessions) t = .ok (v :: vs) t' := by
      rw [visits, List.mapM_cons, bind_ok hvisit]
      change (fs.visits path sessions >>= fun others ↦ pure (v :: others)) t₁ = _
      rw [bind_ok hvisits]
      rfl
    refine ⟨v :: vs, t', hrun, by rw [List.map_cons, hrecords, hsessions], ?_, fun found hfound ↦
      ⟨fun k hk hbefore ↦ ?_, fun hall ↦ ?_⟩⟩
    · rw [← hmore, hadds.left_eq, List.append_assoc]
      exact List.prefix_append _ _
    · cases k with
      | zero =>
        refine ⟨Record.scan (part ++ more), ?_⟩
        rw [← hmore, hadds.scan_left_append hfound]
        simp
      | succ k =>
        have hwhole := hadds.readAll_left hfound (hbefore v (by simp))
        obtain ⟨rest, hlater⟩ := (hrest _ hwhole).1 k (Nat.lt_of_succ_lt_succ hk)
          fun other hother ↦ hbefore other (by simp [hother])
        refine ⟨rest, ?_⟩
        rw [hlater, List.take_succ_cons, List.flatMap_cons, List.append_assoc]
    · have hwhole := hadds.readAll_left hfound (hall v (by simp))
      have hlater := (hrest _ hwhole).2 fun other hother ↦ hall other (by simp [hother])
      rw [hlater, List.flatMap_cons, List.append_assoc]

end Storage

/-! ### Files in memory -/

namespace MemoryStore

theorem content_eq (path : String) (s : MemoryStore) :
    storage.content path s = (s.files.get? path).getD [] := by
  change (read path s).toOption.getD [] = _
  rw [read]
  cases s.files.get? path <;> rfl

/-- A stream is open to a file that is there. -/
def Ready (path : String) (h : Handle) (s : MemoryStore) : Prop :=
  ∃ stream, s.streams[h]? = some stream ∧ stream.path = path ∧ (s.files.get? path).isSome

/-- The room of a stream is what is left of its quota. -/
def roomOf (h : Handle) (s : MemoryStore) : Option Nat :=
  s.streams[h]?.bind fun stream ↦ Quota.room stream.quota

/-- A call leaves files and streams alone, whether or not a fault makes it fail. -/
theorem call_same (point : FaultPoint) (path : String) (s : MemoryStore) :
    Ends (call point path) s (fun _ s' ↦ s'.files = s.files ∧ s'.streams = s.streams)
      fun _ s' ↦ s'.files = s.files ∧ s'.streams = s.streams := by
  unfold Ends call
  cases htrigger : trigger point path s.rules with
  | mk found rules => cases found <;> simp only [htrigger, and_self]

theorem openStream_ok (path : String) {s : MemoryStore} (hfile : (s.files.get? path).isSome) :
    ∃ s', openStream path s = .ok s.streams.length s' ∧ s'.files = s.files ∧
      Ready path s.streams.length s' :=
  ⟨_, rfl, rfl, _, List.getElem?_concat_length, rfl, hfile⟩

theorem openAppend_ends (path : String) (s : MemoryStore) :
    Ends (openAppend path) s
      (fun h s' ↦ Ready path h s' ∧ storage.content path s' = storage.content path s)
      fun _ s' ↦ storage.content path s' = storage.content path s := by
  refine ((call_same .openAppend path s).mono_error fun _ s' h ↦ ?_).bind
    fun _ s₁ ⟨hfiles, _⟩ ↦ .get_bind ?_
  · rw [content_eq, content_eq, h.1]
  · by_cases hcontains : s₁.files.contains path = true
    · rw [if_pos hcontains]
      obtain ⟨s', hopen, hsame, hready⟩ := openStream_ok path hcontains
      refine Ends.of_succeeds ⟨_, s', hopen, hready, ?_⟩
      rw [content_eq, content_eq, hsame, hfiles]
    · rw [if_neg hcontains]
      have hfile : (({ s₁ with files := s₁.files.set path [] } : MemoryStore).files.get?
          path).isSome := by
        rw [Table.get?_set, if_pos rfl]
        rfl
      obtain ⟨s', hopen, hsame, hready⟩ := openStream_ok path hfile
      refine Ends.of_succeeds ⟨_, s', hopen, hready, ?_⟩
      rw [Table.contains, hfiles, Bool.not_eq_true, Option.isSome_eq_false_iff,
        Option.isNone_iff_eq_none] at hcontains
      rw [content_eq, content_eq, hsame, hcontains]
      change (Table.get? (Table.set _ _ _) _).getD [] = _
      rw [Table.get?_set, if_pos rfl]
      rfl

/-- Writing to a stream, in terms of what its quota grants. -/
theorem write_of_grant {path : String} {h : Handle} {s : MemoryStore} {bs part : Bytes}
    {stream : MemoryStream} {quota : Option Quota} {failure : Option IoError}
    (hstream : s.streams[h]? = some stream) (hpath : stream.path = path)
    (hfile : (s.files.get? path).isSome)
    (hgrant : Quota.grant stream.quota bs = (part, quota, failure)) :
    ∃ s', write h bs s = resultOf (failure.elim (.ok ()) .error) s' ∧ Ready path h s' ∧
      storage.content path s' = storage.content path s ++ part ∧
      roomOf h s' = Quota.room quota := by
  subst hpath
  obtain ⟨content, hcontent⟩ := Option.isSome_iff_exists.mp hfile
  have hlt := (List.getElem?_eq_some_iff.mp hstream).1
  have hnew : (s.streams.set h { stream with quota := quota })[h]? =
      some { stream with quota := quota } := List.getElem?_set_self hlt
  have hget : (s.files.set stream.path (content ++ part)).get? stream.path =
      some (content ++ part) := by
    rw [Table.get?_set, if_pos rfl]
  refine ⟨s.took h { stream with quota := quota } (content ++ part), ?_,
    ⟨_, hnew, rfl, by rw [took, hget]; rfl⟩, ?_, ?_⟩
  · simp only [write, hstream, hgrant, append, hcontent, took]
    cases failure <;> rfl
  · rw [content_eq, content_eq, took, hget, hcontent]
    rfl
  · rw [roomOf, took, hnew]
    rfl

/-- Files in memory take appended bytes until a fault on writes cuts a stream off. -/
theorem appends (path : String) :
    storage.Appends path (Ready path) (storage.content path) roomOf where
  openAppend s := openAppend_ends path s
  writer h := {
    fits := by
      rintro bs s ⟨stream, hstream, hpath, hfile⟩ hfits
      have hroom : roomOf h s = Quota.room stream.quota := by
        rw [roomOf, hstream]
        rfl
      rw [hroom] at hfits ⊢
      obtain ⟨quota, hgrant, hleft⟩ := Quota.grant_of_fits hfits
      obtain ⟨s', hwrite, hready, hcontent, hroom'⟩ := write_of_grant hstream hpath hfile hgrant
      exact ⟨s', hwrite, hready, hcontent, hroom'.trans hleft⟩
    exceeds := by
      rintro bs s left ⟨stream, hstream, hpath, hfile⟩ hroom hlt
      rw [roomOf, hstream] at hroom
      obtain ⟨quota, e, hgrant, hzero⟩ := Quota.grant_of_exceeds hroom hlt
      obtain ⟨s', hwrite, hready, hcontent, hroom'⟩ := write_of_grant hstream hpath hfile hgrant
      exact ⟨e, s', hwrite, hready, hcontent, hroom'.trans hzero⟩ }
  release _ _ _ := rfl

end MemoryStore

/-! ### What is read back -/

/-- Assumes: streams take what they have room for, behind the content of a file that is empty at
first. Sessions one after the other open it at its end, write their records and give it up. As long
as every session left a file that is read to its end, the records acknowledged by all sessions up to
the next one are read back first, in the order in which they were written, whatever that session and
later ones leave behind them; and if every session did, exactly the records acknowledged are. -/
theorem Storage.visits_read_back {τ : Type} {fs : Storage τ} {path : String}
    {ready : Handle → τ → Prop} {taken : τ → Bytes} {room : Handle → τ → Option Nat}
    (hfs : fs.Appends path ready taken room) (sessions : List (List Record)) {t : τ}
    (hempty : fs.content path t = []) :
    ∃ (vs : List Visit) (t' : τ), fs.visits path sessions t = .ok vs t' ∧
      vs.map (·.records) = sessions ∧
      (∀ k < vs.length, (∀ v ∈ vs.take k, ∃ whole, Record.readAll v.left = .ok whole) →
        ∃ rest, (RecordReader.ofBytes (fs.content path t')).Yields
          (((vs.take (k + 1)).flatMap Visit.acknowledged).map .ok ++ rest)) ∧
      ((∀ v ∈ vs, ∃ whole, Record.readAll v.left = .ok whole) →
        Record.readAll (fs.content path t') = .ok (vs.flatMap Visit.acknowledged)) := by
  obtain ⟨vs, t', hrun, hsessions, -, hfound⟩ := exists_visits hfs sessions t
  have hnothing : Record.readAll (fs.content path t) = .ok [] := by
    rw [hempty]
    rfl
  obtain ⟨hfront, hwhole⟩ := hfound [] hnothing
  refine ⟨vs, t', hrun, hsessions, fun k hk hbefore ↦ ?_, hwhole⟩
  obtain ⟨rest, hscan⟩ := hfront k hk hbefore
  have hyields : (RecordReader.ofBytes (fs.content path t')).Yields _ :=
    RecordReader.yields_scan rfl rfl
  rw [List.nil_append] at hscan
  exact ⟨rest, hscan ▸ hyields⟩

namespace MemoryStore

/-- The first stream opened is cut off inside its second record. What it acknowledged is read back
although another session appends to it. -/
theorem visits_read_back_of_cut :
    let s := ofFiles [] [⟨.write, "", ⟨.storageFull, "full"⟩, 20, some 1⟩]
    storage.content "run.trace" s = [] ∧
      ∃ v w s' rest, storage.visits "run.trace" [[.settings 7 53, .fault "x"], [.fault "y"]] s =
          .ok [v, w] s' ∧
        v.acknowledged = [.settings 7 53] ∧ w.acknowledged = [.fault "y"] ∧
        (RecordReader.ofBytes (storage.content "run.trace" s')).Yields
          (.ok (.settings 7 53) :: rest) := by
  intro s
  obtain ⟨vs, s', hrun, -, hfront, -⟩ := Storage.visits_read_back (appends "run.trace")
    [[.settings 7 53, .fault "x"], [.fault "y"]] (t := s) rfl
  obtain ⟨v, w, s'', hcomputed, hv, hw⟩ : ∃ v w s'',
      storage.visits "run.trace" [[.settings 7 53, .fault "x"], [.fault "y"]] s =
        .ok [v, w] s'' ∧ v.acknowledged = [.settings 7 53] ∧ w.acknowledged = [.fault "y"] :=
    ⟨_, _, _, rfl, rfl, rfl⟩
  obtain ⟨rfl, rfl⟩ := EStateM.Result.ok.inj (hcomputed.symm.trans hrun)
  obtain ⟨rest, hyields⟩ := hfront 0 (by simp) nofun
  refine ⟨rfl, v, w, s'', rest, hcomputed, hv, hw, ?_⟩
  rwa [List.take_succ_cons, List.take_zero, List.flatMap_singleton, hv] at hyields

/-- A stream that takes one byte and then fails, and a healthy one after it: the record that the
second session acknowledges is not read back, because the byte that the first one left in front of
it counts as the beginning of a record. -/
theorem visits_of_torn :
    let s := ofFiles [] [⟨.write, "", ⟨.storageFull, "full"⟩, 1, some 1⟩]
    let record := Record.settings 7 53
    ∃ v w s', storage.visits "run.trace" [[record], [record]] s = .ok [v, w] s' ∧
      v.left = [2] ∧ w.answers = [.ok ()] ∧ w.acknowledged = [record] ∧
      (RecordReader.ofBytes (storage.content "run.trace" s')).Yields
        [.error (.malformed (.container 514))] := by
  intro s record
  obtain ⟨v, w, s', hrun, hleft, hanswers, hacknowledged, hcontent⟩ : ∃ v w s',
      storage.visits "run.trace" [[record], [record]] s = .ok [v, w] s' ∧
      v.left = [2] ∧ w.answers = [.ok ()] ∧ w.acknowledged = [record] ∧
      storage.content "run.trace" s' =
        [2, 2, 0, 0, 0, 7, 0, 0, 0, 2, 0, 0, 0, 7, 0, 0, 0, 53] :=
    ⟨_, _, _, rfl, rfl, rfl, rfl, by decide⟩
  obtain ⟨r, hnext, hfinished⟩ : ∃ r : RecordReader, (RecordReader.ofBytes
      [2, 2, 0, 0, 0, 7, 0, 0, 0, 2, 0, 0, 0, 7, 0, 0, 0, 53]).next =
        (some (.error (.malformed (.container 514))), r) ∧ r.finished = true := ⟨_, rfl, rfl⟩
  refine ⟨v, w, s', hrun, hleft, hanswers, hacknowledged, ?_⟩
  rw [hcontent]
  exact (RecordReader.yields_nil_of_finished hfinished).cons hnext

end MemoryStore

end ScriptTrace
