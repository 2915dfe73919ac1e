import Mathlib.Data.List.Nodup
import Mathlib.Logic.Function.Basic
import ScriptTrace.Proofs.Act
import ScriptTrace.Storage.Memory

/-!
Storages that do not fail. Such a storage opens a new stream unless the path is taken, and a stream
takes every write behind what it took before, whatever becomes of the others. Files in memory are
one as long as no fault is asked for (`MemoryStore.reliable`).
-/

set_option autoImplicit false
set_option relaxedAutoImplicit false

namespace ScriptTrace

/-- A storage does not fail in sound states, which it does not leave. `content` is what an open
stream has taken so far. The only error is that of a new file whose path is taken. -/
structure Storage.Reliable {τ : Type} (fs : Storage τ) (sound : τ → Prop)
    (content : τ → Handle → Option Bytes) : Prop where
  createDirectory : ∀ path t, sound t → ∃ t', fs.createDirectory path t = .ok () t' ∧ sound t' ∧
    content t' = content t
  createNew : ∀ path t, sound t →
    (∃ h t', fs.createNew path t = .ok h t' ∧ sound t' ∧ content t h = none ∧
      content t' = Function.update (content t) h (some [])) ∨
    ∃ e t', fs.createNew path t = .error e t' ∧ e.kind = .alreadyExists ∧ sound t' ∧
      content t' = content t
  write : ∀ h bs before t, sound t → content t h = some before → ∃ t', fs.write h bs t = .ok () t' ∧
    sound t' ∧ content t' = Function.update (content t) h (some (before ++ bs))
  flush : ∀ h t, sound t → (content t h).isSome → ∃ t', fs.flush h t = .ok () t' ∧ sound t' ∧
    content t' = content t
  release : ∀ h t, sound t → sound (fs.release h t) ∧
    ∀ k, k ≠ h → content (fs.release h t) k = content t k

namespace MemoryStore

/-- No fault is asked for, and the streams are of different files. -/
structure Sound (s : MemoryStore) : Prop where
  rules : s.rules = []
  quota : ∀ stream ∈ s.streams, stream.quota = none
  file : ∀ stream ∈ s.streams, (s.files.get? stream.path).isSome
  nodup : (s.streams.map (·.path)).Nodup

/-- The content of the file behind a stream. -/
def content (s : MemoryStore) (h : Handle) : Option Bytes :=
  s.streams[h]?.bind fun stream ↦ s.files.get? stream.path

/-- A storage without streams and faults. -/
theorem sound_ofFiles (files : List (String × Bytes)) : (ofFiles files []).Sound where
  rules := rfl
  quota _ hmem := absurd hmem List.not_mem_nil
  file _ hmem := absurd hmem List.not_mem_nil
  nodup := List.nodup_nil

theorem Sound.noted {s : MemoryStore} (hs : s.Sound) (noted : List String) :
    Sound { s with noted := noted } :=
  ⟨hs.rules, hs.quota, hs.file, hs.nodup⟩

theorem call_ok {s : MemoryStore} (hs : s.Sound) (point : FaultPoint) (path : String) :
    call point path s = .ok () { s with noted := (point.name ++ " " ++ path) :: s.noted } := by
  simp only [call, hs.rules, trigger]

/-- A file without a stream changes behind the streams. -/
theorem content_set_of_notMem {s : MemoryStore} {path : String}
    (hpath : path ∉ s.streams.map (·.path)) (bs : Bytes) :
    content { s with files := s.files.set path bs } = content s := by
  funext h
  unfold content
  cases hstream : s.streams[h]? with
  | none => rfl
  | some stream =>
    have hne : path ≠ stream.path := by
      rintro rfl
      exact hpath (List.mem_map_of_mem (List.mem_of_getElem? hstream))
    rw [Option.bind_some, Option.bind_some, Table.get?_set, if_neg hne]

/-- The files with one more, which is empty and has a stream. -/
def opened (s : MemoryStore) (path : String) : MemoryStore :=
  { s with
    files := s.files.set path []
    streams := s.streams ++ [⟨path, none⟩]
    noted := ("create " ++ path) :: s.noted }

section Free

variable {s : MemoryStore} (hs : s.Sound) {path : String} (hfree : s.files.get? path = none)
include hs hfree

/-- No stream goes to a path without a file. -/
theorem Sound.notMem : path ∉ s.streams.map (·.path) := by
  intro hmem
  obtain ⟨stream, hstream, rfl⟩ := List.mem_map.mp hmem
  have hfile := hs.file stream hstream
  rw [hfree] at hfile
  exact Bool.noConfusion hfile

theorem createNew_of_free : createNew path s = .ok s.streams.length (s.opened path) := by
  have hcontains : s.files.contains path = false := by rw [Table.contains, hfree]; rfl
  unfold createNew
  rw [bind_ok (call_ok hs .createNew path)]
  change (if s.files.contains path = true then _ else _ : IoAct MemoryStore Handle) _ = _
  rw [if_neg (by simp [hcontains])]
  change openStream path _ = _
  simp only [openStream, opened, hs.rules, trigger, Option.map_none]
  rfl

theorem Sound.opened : (s.opened path).Sound where
  rules := hs.rules
  quota stream hstream := by
    rcases List.mem_append.mp hstream with hold | hnew
    · exact hs.quota stream hold
    · rw [List.mem_singleton.mp hnew]
  file stream hstream := by
    rw [MemoryStore.opened, Table.get?_set]
    split
    · rfl
    · rename_i hne
      rcases List.mem_append.mp hstream with hold | hnew
      · exact hs.file stream hold
      · exact absurd (congrArg MemoryStream.path (List.mem_singleton.mp hnew)).symm hne
  nodup := by
    rw [MemoryStore.opened, List.map_append]
    exact List.Nodup.append hs.nodup (List.nodup_singleton _)
      (List.disjoint_singleton.mpr (hs.notMem hfree))

theorem content_opened :
    content (s.opened path) = Function.update (content s) s.streams.length (some []) := by
  funext h
  have hold := congrFun (content_set_of_notMem (hs.notMem hfree) []) h
  rcases Nat.lt_trichotomy h s.streams.length with hlt | rfl | hgt
  · rw [Function.update_of_ne (Nat.ne_of_lt hlt), ← hold]
    simp only [content, opened, List.getElem?_append_left hlt]
  · simp [content, opened]
  · rw [Function.update_of_ne (Nat.ne_of_gt hgt), ← hold]
    simp only [content, opened]
    rw [List.getElem?_eq_none (by rw [List.length_append]; exact hgt),
      List.getElem?_eq_none (Nat.le_of_lt hgt)]

end Free

theorem content_length (s : MemoryStore) : content s s.streams.length = none := by
  rw [content, List.getElem?_eq_none (Nat.le_refl _)]
  rfl

/-- A path with a file is taken. -/
theorem createNew_of_taken {s : MemoryStore} (hs : s.Sound) {path : String} {bs : Bytes}
    (htaken : s.files.get? path = some bs) :
    createNew path s = .error ⟨.alreadyExists, "exists"⟩
      { s with noted := ("create " ++ path) :: s.noted } := by
  have hcontains : s.files.contains path = true := by rw [Table.contains, htaken]; rfl
  unfold createNew
  rw [bind_ok (call_ok hs .createNew path)]
  change (if s.files.contains path = true then _ else _ : IoAct MemoryStore Handle) _ = _
  rw [if_pos hcontains]
  rfl

theorem write_ok {s : MemoryStore} (hs : s.Sound) {h : Handle} {before : Bytes} (bs : Bytes)
    (hbefore : content s h = some before) :
    ∃ s', write h bs s = .ok () s' ∧ s'.Sound ∧
      content s' = Function.update (content s) h (some (before ++ bs)) := by
  obtain ⟨stream, hstream, hfile⟩ := Option.bind_eq_some_iff.mp hbefore
  have hmem := List.mem_of_getElem? hstream
  have hgranted : Quota.grant stream.quota bs = (bs, none, none) := by
    rw [hs.quota stream hmem, Quota.grant]
  have hstreams : s.streams.set h { stream with quota := none } = s.streams := by
    have hself : { stream with quota := none } = stream := by rw [← hs.quota stream hmem]
    obtain ⟨hlt, hget⟩ := List.getElem?_eq_some_iff.mp hstream
    rw [hself, ← hget, List.set_getElem_self]
  refine ⟨{ s with files := s.files.set stream.path (before ++ bs) }, ?_,
    ⟨hs.rules, hs.quota, fun other hother ↦ ?_, hs.nodup⟩, ?_⟩
  · simp only [write, hstream, hgranted, hstreams, append, hfile]
  · rw [Table.get?_set]
    split
    · rfl
    · exact hs.file other hother
  · funext k
    by_cases hk : k = h
    · subst hk
      simp [content, hstream]
    · rw [Function.update_of_ne hk]
      unfold content
      cases hother : s.streams[k]? with
      | none => rfl
      | some other =>
        have hne : stream.path ≠ other.path := by
          intro heq
          obtain ⟨hlt, -⟩ := List.getElem?_eq_some_iff.mp hother
          refine hk ((List.getElem?_inj (by rwa [List.length_map]) hs.nodup).mp ?_)
          rw [List.getElem?_map, List.getElem?_map, hother, hstream, Option.map_some,
            Option.map_some, heq]
        rw [Option.bind_some, Option.bind_some, Table.get?_set, if_neg hne]

/-- Files in memory are reliable as long as no fault is asked for. -/
theorem reliable : storage.Reliable Sound content where
  createDirectory path s hs := ⟨_, call_ok hs _ path, hs.noted _, rfl⟩
  createNew path s hs := by
    cases hfile : s.files.get? path with
    | none =>
      exact .inl ⟨_, _, createNew_of_free hs hfile, hs.opened hfile, content_length s,
        content_opened hs hfile⟩
    | some bs => exact .inr ⟨_, _, createNew_of_taken hs hfile, rfl, hs.noted _, rfl⟩
  write _ bs _ _ hs hbefore := write_ok hs bs hbefore
  flush h s hs hsome := by
    obtain ⟨before, hbefore⟩ := Option.isSome_iff_exists.mp hsome
    obtain ⟨stream, hstream, -⟩ := Option.bind_eq_some_iff.mp hbefore
    refine ⟨_, ?_, hs.noted (("flush " ++ stream.path) :: s.noted), rfl⟩
    simp only [storage, flush, hstream]
    exact call_ok hs .flush stream.path
  release _ _ hs := ⟨hs, fun _ _ ↦ rfl⟩

end MemoryStore

end ScriptTrace
