import Mathlib.Data.Set.Insert
import ScriptTrace.Proofs.Act
import ScriptTrace.Storage.Memory

/-!
Storages that may fail but keep their word. A file is made only where there was none, a stream takes
its bytes in order and up to any point, and a failure changes nothing else. Files in memory are such
a storage whatever faults are asked for, as long as files can be removed and no fault pretends that
a path is taken (`MemoryStore.lawful`).
-/

set_option autoImplicit false
set_option relaxedAutoImplicit false

namespace ScriptTrace

variable {τ Λ : Type}

/-- What is known of the states of a storage. Several paths may lead to one place, and bytes that a
stream took may be missing from its file until the stream is flushed. -/
structure FileView (τ Λ : Type) where
  /-- The states the storage can be in. -/
  sound : τ → Prop
  place : String → Λ
  /-- The content of the file at a place. -/
  file : τ → Λ → Option Bytes
  /-- The place a stream writes to and the bytes it has taken. -/
  stream : τ → Handle → Option (Λ × Bytes)

namespace FileView

variable (v : FileView τ Λ)

/-- A stream is open to a file and has taken some bytes. -/
structure Open (h : Handle) (p : Λ) (taken : Bytes) (t : τ) : Prop where
  stream : v.stream t h = some (p, taken)
  file : (v.file t p).isSome

/-- The places without a file. -/
def free (t : τ) : Set Λ := { p | v.file t p = none }

/-- Files and streams differ at most at some places. -/
structure Within (ps : Set Λ) (t t' : τ) : Prop where
  sound : v.sound t'
  file : ∀ p, p ∉ ps → v.file t' p = v.file t p
  stream : ∀ h p taken, p ∉ ps → v.stream t h = some (p, taken) → v.stream t' h = some (p, taken)

variable {v} {ps qs : Set Λ} {t t' t'' : τ}

theorem notMem_free {p : Λ} (hfile : (v.file t p).isSome) : p ∉ v.free t :=
  Option.isSome_iff_ne_none.mp hfile

theorem Within.refl (h : v.sound t) : v.Within ps t t :=
  ⟨h, fun _ _ ↦ rfl, fun _ _ _ _ hstream ↦ hstream⟩

theorem Within.mono (h : v.Within ps t t') (hsub : ps ⊆ qs) : v.Within qs t t' :=
  ⟨h.sound, fun p hp ↦ h.file p fun hmem ↦ hp (hsub hmem),
    fun k p taken hp ↦ h.stream k p taken fun hmem ↦ hp (hsub hmem)⟩

theorem Within.trans (h : v.Within ps t t') (h' : v.Within ps t' t'') : v.Within ps t t'' :=
  ⟨h'.sound, fun p hp ↦ (h'.file p hp).trans (h.file p hp),
    fun k p taken hp hstream ↦ h'.stream k p taken hp (h.stream k p taken hp hstream)⟩

theorem Within.open {h : Handle} {p : Λ} {taken : Bytes} (hwithin : v.Within ps t t')
    (hp : p ∉ ps) (hopen : v.Open h p taken t) : v.Open h p taken t' :=
  ⟨hwithin.stream h p taken hp hopen.stream, hwithin.file p hp ▸ hopen.file⟩

end FileView

/-- What a storage promises of its operations. Every one of them may fail, but a file that is there
can be removed. -/
structure Storage.Lawful (fs : Storage τ) (v : FileView τ Λ) : Prop where
  createDirectory : ∀ path t, v.sound t → Ends (fs.createDirectory path) t
    (fun _ t' ↦ v.Within ∅ t t') fun _ t' ↦ v.Within ∅ t t'
  /-- A new file is made where there was none, and is said to exist only where there is one. -/
  createNew : ∀ path t, v.sound t → Ends (fs.createNew path) t
    (fun h t' ↦ v.file t (v.place path) = none ∧ v.Within {v.place path} t t' ∧
      v.Open h (v.place path) [] t')
    fun e t' ↦ v.Within ∅ t t' ∧ (e.kind = .alreadyExists → (v.file t (v.place path)).isSome)
  /-- A write that fails may have taken any part of its bytes. -/
  write : ∀ h bs p taken t, v.sound t → v.Open h p taken t → Ends (fs.write h bs) t
    (fun _ t' ↦ v.Within {p} t t' ∧ v.Open h p (taken ++ bs) t')
    fun _ t' ↦ v.Within {p} t t' ∧ ∃ part, part <+: bs ∧ v.Open h p (taken ++ part) t'
  /-- After a flush the file has what its stream took. -/
  flush : ∀ h p taken t, v.sound t → v.Open h p taken t → Ends (fs.flush h) t
    (fun _ t' ↦ v.Within {p} t t' ∧ v.Open h p taken t' ∧ v.file t' p = some taken)
    fun _ t' ↦ v.Within {p} t t' ∧ v.Open h p taken t'
  /-- A stream that is given up may still pass on what it took. -/
  release : ∀ h p taken t, v.sound t → v.Open h p taken t →
    v.Within {p} t (fs.release h t) ∧ (v.file (fs.release h t) p).isSome ∧
      (v.file t p = some taken → v.file (fs.release h t) p = some taken)
  removeFile : ∀ path t, v.sound t → (v.file t (v.place path)).isSome →
    Succeeds (fs.removeFile path) t fun _ t' ↦
      v.Within {v.place path} t t' ∧ v.file t' (v.place path) = none

namespace MemoryStore

/-- No fault keeps a file from being removed, and none pretends that a path is taken. -/
def Fair (s : MemoryStore) : Prop :=
  ∀ r ∈ s.rules, r.point ≠ .removeFile ∧ (r.point = .createNew → r.error.kind ≠ .alreadyExists)

/-- Files and streams as their paths and contents say. -/
def view : FileView MemoryStore String where
  sound := Fair
  place := id
  file s := s.files.get?
  stream s h := s.streams[h]?.bind fun stream ↦
    (s.files.get? stream.path).map fun content ↦ (stream.path, content)

/-! ### Faults -/

/-- Applying a rule changes only how often it still applies. -/
theorem exists_of_mem_trigger {point : FaultPoint} {path : String} {rules : List FaultRule}
    {r : FaultRule} (hr : r ∈ (trigger point path rules).2) :
    ∃ r₀ ∈ rules, r.point = r₀.point ∧ r.error = r₀.error := by
  induction rules with
  | nil => cases hr
  | cons r₁ rest ih =>
    rw [trigger] at hr
    split at hr
    · rcases List.mem_cons.mp hr with rfl | hrest
      · exact ⟨r₁, List.mem_cons_self, rfl, rfl⟩
      · exact ⟨r, .tail _ hrest, rfl, rfl⟩
    · rcases List.mem_cons.mp hr with rfl | hrest
      · exact ⟨r, List.mem_cons_self, rfl, rfl⟩
      · obtain ⟨r₀, hmem, hsame⟩ := ih hrest
        exact ⟨r₀, .tail _ hmem, hsame⟩

/-- A rule that is found is one of those for the call. -/
theorem mem_of_trigger {point : FaultPoint} {path : String} {rules : List FaultRule}
    {r : FaultRule} (hr : (trigger point path rules).1 = some r) :
    r ∈ rules ∧ r.point = point := by
  induction rules with
  | nil => cases hr
  | cons r₁ rest ih =>
    rw [trigger] at hr
    split at hr
    · rename_i happlies
      obtain rfl := Option.some.inj hr
      simp only [applies, Bool.and_eq_true, beq_iff_eq] at happlies
      exact ⟨List.mem_cons_self, happlies.1.1⟩
    · exact ⟨.tail _ (ih hr).1, (ih hr).2⟩

theorem Fair.trigger {s : MemoryStore} (hs : s.Fair) (point : FaultPoint) (path : String) :
    ∀ r ∈ (trigger point path s.rules).2,
      r.point ≠ .removeFile ∧ (r.point = .createNew → r.error.kind ≠ .alreadyExists) := by
  intro r hr
  obtain ⟨r₀, hmem, hpoint, herror⟩ := exists_of_mem_trigger hr
  rw [hpoint, herror]
  exact hs r₀ hmem

/-- A call that is noted, whether or not a fault makes it fail, leaves files and streams alone. -/
theorem call_ends {s : MemoryStore} (hs : s.Fair) (point : FaultPoint) (path : String) :
    Ends (call point path) s
      (fun _ s' ↦ s'.Fair ∧ s'.files = s.files ∧ s'.streams = s.streams)
      fun e s' ↦ s'.Fair ∧ s'.files = s.files ∧ s'.streams = s.streams ∧
        ∃ r ∈ s.rules, r.point = point ∧ r.error = e := by
  have hfair := hs.trigger point path
  unfold Ends call
  cases htrigger : MemoryStore.trigger point path s.rules with
  | mk found rules =>
    rw [htrigger] at hfair
    cases found with
    | none =>
      simp only [htrigger]
      exact ⟨hs, trivial, trivial⟩
    | some r =>
      simp only [htrigger]
      have hfound := mem_of_trigger (congrArg Prod.fst htrigger)
      exact ⟨hfair, trivial, trivial, r, hfound.1, hfound.2, rfl⟩

/-! ### Files and streams -/

theorem stream_eq_some {s : MemoryStore} {h : Handle} {path : String} {bs : Bytes} :
    view.stream s h = some (path, bs) ↔
      ∃ stream, s.streams[h]? = some stream ∧ stream.path = path ∧
        s.files.get? path = some bs := by
  simp only [view, Option.bind_eq_some_iff, Option.map_eq_some_iff, Prod.mk.injEq]
  constructor
  · rintro ⟨stream, hstream, _, hfile, rfl, rfl⟩
    exact ⟨stream, hstream, rfl, hfile⟩
  · rintro ⟨stream, hstream, rfl, hfile⟩
    exact ⟨stream, hstream, bs, hfile, rfl, rfl⟩

theorem within_of_eq {s s' : MemoryStore} {ps : Set String} (hfair : s'.Fair)
    (hfiles : s'.files = s.files) (hstreams : s'.streams = s.streams) : view.Within ps s s' where
  sound := hfair
  file _ _ := congrArg (Table.get? · _) hfiles
  stream h _ _ _ hstream := by
    rw [stream_eq_some] at hstream ⊢
    rwa [hfiles, hstreams]

/-- Assumes: the streams keep their paths, and files at other paths their contents. -/
theorem within_singleton {s s' : MemoryStore} {path : String} (hfair : s'.Fair)
    (hfile : ∀ other, path ≠ other → s'.files.get? other = s.files.get? other)
    (hstreams : ∀ (h : Handle) stream, s.streams[h]? = some stream →
      ∃ stream' : MemoryStream, s'.streams[h]? = some stream' ∧ stream'.path = stream.path) :
    view.Within {path} s s' where
  sound := hfair
  file p hp := hfile p (Ne.symm hp)
  stream h p bs hp hstream := by
    rw [stream_eq_some] at hstream ⊢
    obtain ⟨stream, hget, rfl, hcontent⟩ := hstream
    obtain ⟨stream', hget', hpath⟩ := hstreams h stream hget
    exact ⟨stream', hget', hpath, (hfile stream.path (Ne.symm hp)).trans hcontent⟩

theorem open_iff {s : MemoryStore} {h : Handle} {path : String} {taken : Bytes} :
    view.Open h path taken s ↔
      ∃ stream, s.streams[h]? = some stream ∧ stream.path = path ∧
        s.files.get? path = some taken := by
  rw [← stream_eq_some]
  refine ⟨FileView.Open.stream, fun hstream ↦ ⟨hstream, ?_⟩⟩
  obtain ⟨_, _, _, hfile⟩ := stream_eq_some.mp hstream
  exact Option.isSome_iff_exists.mpr ⟨taken, hfile⟩

theorem createNew_ends {s : MemoryStore} (hs : s.Fair) (path : String) :
    Ends (createNew path) s
      (fun h s' ↦ view.file s path = none ∧ view.Within {path} s s' ∧ view.Open h path [] s')
      fun e s' ↦ view.Within ∅ s s' ∧ (e.kind = .alreadyExists → (view.file s path).isSome) := by
  refine ((call_ends hs .createNew path).mono_error ?_).bind ?_
  · rintro _ s' ⟨hfair, hfiles, hstreams, r, hr, hpoint, rfl⟩
    exact ⟨within_of_eq hfair hfiles hstreams, fun hkind ↦ absurd hkind ((hs r hr).2 hpoint)⟩
  · rintro _ s₁ ⟨hfair, hfiles, hstreams⟩
    apply Ends.get_bind
    by_cases hcontains : s₁.files.contains path = true
    · rw [if_pos hcontains]
      refine .throw ⟨within_of_eq hfair hfiles hstreams, fun _ ↦ ?_⟩
      rwa [Table.contains, hfiles] at hcontains
    · rw [if_neg hcontains]
      rw [Table.contains, hfiles, Bool.not_eq_true, Option.isSome_eq_false_iff,
        Option.isNone_iff_eq_none] at hcontains
      refine ⟨hcontains, within_singleton (hfair.trigger .write path) ?_ ?_, open_iff.mpr ?_⟩
      · intro other hne
        change Table.get? (Table.set _ _ _) _ = _
        rw [Table.get?_set, if_neg hne, hfiles]
      · intro h stream hget
        have hlt := (List.getElem?_eq_some_iff.mp hget).1
        refine ⟨stream, ?_, rfl⟩
        change (s₁.streams ++ _)[h]? = _
        rw [hstreams, List.getElem?_append_left hlt, hget]
      · refine ⟨_, List.getElem?_concat_length, rfl, ?_⟩
        change Table.get? (Table.set _ _ _) _ = _
        rw [Table.get?_set, if_pos rfl]

/-- A stream takes all of its bytes, or a part and then fails. -/
theorem grant_spec (quota : Option Quota) (bs : Bytes) :
    ∃ part quota' failure, Quota.grant quota bs = (part, quota', failure) ∧ part <+: bs ∧
      (failure = none → part = bs) := by
  cases quota with
  | none => exact ⟨bs, none, none, rfl, List.prefix_rfl, fun _ ↦ rfl⟩
  | some q =>
    rw [Quota.grant]
    split
    · exact ⟨bs, _, none, rfl, List.prefix_rfl, fun _ ↦ rfl⟩
    · exact ⟨bs.take q.left, _, some q.error, rfl, List.take_prefix _ _, fun h ↦ nomatch h⟩

/-- The files after a stream took bytes. -/
def took (s : MemoryStore) (h : Handle) (stream : MemoryStream) (content : Bytes) :
    MemoryStore :=
  { s with streams := s.streams.set h stream, files := s.files.set stream.path content }

section Took

variable {s : MemoryStore} {h : Handle} {stream : MemoryStream}
  (hstream : (s.streams[h]?.map (·.path)) = some stream.path) (content : Bytes)
include hstream

theorem within_took (hs : s.Fair) : view.Within {stream.path} s (s.took h stream content) := by
  refine within_singleton hs (fun other hne ↦ ?_) fun k other hother ↦ ?_
  · rw [took, Table.get?_set, if_neg hne]
  · by_cases hk : h = k
    · subst hk
      rw [hother, Option.map_some, Option.some.injEq] at hstream
      exact ⟨stream, List.getElem?_set_self (List.getElem?_eq_some_iff.mp hother).1, hstream.symm⟩
    · exact ⟨other, (List.getElem?_set_ne hk).trans hother, rfl⟩

theorem open_took : view.Open h stream.path content (s.took h stream content) := by
  obtain ⟨old, hold, -⟩ := Option.map_eq_some_iff.mp hstream
  refine open_iff.mpr ⟨stream, ?_, rfl, ?_⟩
  · exact List.getElem?_set_self (List.getElem?_eq_some_iff.mp hold).1
  · rw [took, Table.get?_set, if_pos rfl]

end Took

theorem write_ends {s : MemoryStore} (hs : s.Fair) {h : Handle} {path : String} {taken : Bytes}
    (hopen : view.Open h path taken s) (bs : Bytes) :
    Ends (write h bs) s (fun _ s' ↦ view.Within {path} s s' ∧ view.Open h path (taken ++ bs) s')
      fun _ s' ↦ view.Within {path} s s' ∧
        ∃ part, part <+: bs ∧ view.Open h path (taken ++ part) s' := by
  obtain ⟨stream, hstream, rfl, hfile⟩ := open_iff.mp hopen
  obtain ⟨part, quota, failure, hgrant, hpart, hall⟩ := grant_spec stream.quota bs
  have hpath : s.streams[h]?.map (·.path) = some { stream with quota := quota }.path := by
    rw [hstream, Option.map_some]
  have hwithin := within_took hpath (taken ++ part) hs
  have hopen' := open_took hpath (taken ++ part)
  have hrun : write h bs s =
      resultOf (failure.elim (.ok ()) .error)
        (s.took h { stream with quota := quota } (taken ++ part)) := by
    simp only [write, hstream, hgrant, append, hfile, took]
    cases failure <;> rfl
  rw [Ends, hrun]
  cases failure with
  | none =>
    obtain rfl := hall rfl
    exact ⟨hwithin, hopen'⟩
  | some e => exact ⟨hwithin, part, hpart, hopen'⟩

theorem flush_ends {s : MemoryStore} (hs : s.Fair) {h : Handle} {path : String} {taken : Bytes}
    (hopen : view.Open h path taken s) :
    Ends (flush h) s
      (fun _ s' ↦ view.Within {path} s s' ∧ view.Open h path taken s' ∧
        view.file s' path = some taken)
      fun _ s' ↦ view.Within {path} s s' ∧ view.Open h path taken s' := by
  obtain ⟨stream, hstream, rfl, hfile⟩ := open_iff.mp hopen
  have hcall : flush h s = call .flush stream.path s := by simp only [flush, hstream]
  rw [Ends, hcall]
  refine (call_ends hs .flush stream.path).mono ?_ ?_
  · rintro _ s' ⟨hfair, hfiles, hstreams⟩
    refine ⟨within_of_eq hfair hfiles hstreams, open_iff.mpr ⟨stream, ?_, rfl, ?_⟩, ?_⟩
    · rw [hstreams, hstream]
    · rw [hfiles, hfile]
    · change s'.files.get? _ = _
      rw [hfiles, hfile]
  · rintro _ s' ⟨hfair, hfiles, hstreams, -⟩
    refine ⟨within_of_eq hfair hfiles hstreams, open_iff.mpr ⟨stream, ?_, rfl, ?_⟩⟩
    · rw [hstreams, hstream]
    · rw [hfiles, hfile]

theorem removeFile_succeeds {s : MemoryStore} (hs : s.Fair) {path : String}
    (hfile : (view.file s path).isSome) :
    Succeeds (removeFile path) s fun _ s' ↦
      view.Within {path} s s' ∧ view.file s' path = none := by
  have hcall := call_ends hs .removeFile path
  unfold Ends at hcall
  unfold removeFile
  cases hrun : call .removeFile path s with
  | error e s₁ =>
    rw [hrun] at hcall
    obtain ⟨-, -, -, r, hr, hpoint, -⟩ := hcall
    exact absurd hpoint (hs r hr).1
  | ok _ s₁ =>
    rw [hrun] at hcall
    obtain ⟨hfair, hfiles, hstreams⟩ := hcall
    have hcontains : s₁.files.contains path = true := by rwa [Table.contains, hfiles]
    refine ⟨⟨⟩, { s₁ with files := s₁.files.erase path }, ?_, within_singleton hfair ?_ ?_, ?_⟩
    · rw [bind_ok hrun]
      change (if s₁.files.contains path = true then _ else _ : IoAct MemoryStore Unit) _ = _
      rw [if_pos hcontains]
      rfl
    · intro other hne
      rw [Table.get?_erase, if_neg hne, hfiles]
    · intro h stream hget
      exact ⟨stream, by rw [hstreams, hget], rfl⟩
    · change Table.get? (Table.erase _ _) _ = _
      rw [Table.get?_erase, if_pos rfl]

/-- Files in memory keep their word, whatever faults are asked for. -/
theorem lawful : storage.Lawful view where
  createDirectory path _ hs := (call_ends hs .createDirectory path).mono
    (fun _ _ h ↦ within_of_eq h.1 h.2.1 h.2.2) fun _ _ h ↦ within_of_eq h.1 h.2.1 h.2.2.1
  createNew path _ hs := createNew_ends hs path
  write _ bs _ _ _ hs hopen := write_ends hs hopen bs
  flush _ _ _ _ hs hopen := flush_ends hs hopen
  release _ _ _ _ hs hopen := ⟨.refl hs, hopen.file, id⟩
  removeFile _ _ hs hfile := removeFile_succeeds hs hfile

end MemoryStore

end ScriptTrace
