import ScriptTrace.Proofs.Storage.Room
import ScriptTrace.Storage.Memory

/-!
One stream of a storage of which nothing else is promised. `Storage.Confines` says that a stream has
room for so many bytes and takes bytes only when it is written to, and `StreamView.Takes` what some
writes to it come to, whether or not they find room. In memory the stream of a new file is like this
under every list of faults (`MemoryStore.confines`).
-/

set_option autoImplicit false
set_option relaxedAutoImplicit false

namespace ScriptTrace

namespace Bytes

/-- So many bytes from the front, or all of them if there is no end. -/
def upTo (room : Option Nat) (bs : Bytes) : Bytes :=
  match room with
  | none => bs
  | some left => bs.take left

/-- So many bytes find room. -/
def Fits (room : Option Nat) (size : Nat) : Prop := ∀ left ∈ room, size ≤ left

theorem upTo_of_fits {room : Option Nat} {bs : Bytes} (h : Fits room bs.length) :
    upTo room bs = bs := by
  cases room with
  | none => rfl
  | some left => exact List.take_of_length_le (h left rfl)

/-- The front of two byte strings in a row. -/
theorem upTo_append (room : Option Nat) (bs cs : Bytes) :
    upTo room (bs ++ cs) = upTo room bs ++ upTo (room.map (· - bs.length)) cs := by
  cases room with
  | none => rfl
  | some left => exact List.take_append

theorem upTo_nil (room : Option Nat) : upTo room [] = [] := by
  cases room <;> simp [upTo]

theorem fits_append {room : Option Nat} {bs cs : Bytes} :
    Fits room (bs ++ cs).length ↔
      Fits room bs.length ∧ Fits (room.map (· - bs.length)) cs.length := by
  cases room with
  | none => simp [Fits]
  | some left =>
    simp only [Fits, List.length_append, Option.mem_def, Option.map_some, Option.some.injEq,
      forall_eq']
    omega

/-- Something more fits behind others. -/
theorem fits_map_sub_iff {room : Option Nat} {size more : Nat} (hmore : 0 < more) :
    Fits (room.map (· - size)) more ↔ Fits room (size + more) := by
  cases room with
  | none => simp [Fits]
  | some left =>
    simp only [Fits, Option.mem_def, Option.map_some, Option.some.injEq, forall_eq']
    omega

/-- What does not fit leaves no room for what comes after it. -/
theorem upTo_append_of_not_fits {room : Option Nat} {bs : Bytes} (h : ¬ Fits room bs.length)
    (cs : Bytes) : upTo room (bs ++ cs) = upTo room bs ∧
      room.map (· - (bs ++ cs).length) = room.map (· - bs.length) := by
  cases room with
  | none => exact absurd (nofun : Fits none bs.length) h
  | some left =>
    have hlt : left < bs.length := by simpa [Fits] using h
    refine ⟨List.take_append_of_le_length (Nat.le_of_lt hlt), ?_⟩
    rw [Option.map_some, Option.map_some, List.length_append]
    exact congrArg some (by omega)

end Bytes

open Bytes

/-- What is known of one stream. -/
structure StreamView (τ : Type) where
  /-- The states in which the stream is open. -/
  ready : τ → Prop
  /-- The bytes that it has taken. -/
  taken : τ → Bytes
  /-- The room that is left, without a number if there is no end. -/
  room : τ → Option Nat

namespace StreamView

variable {τ : Type} (v : StreamView τ)

/-- The stream is as it was. -/
structure Rests (t t' : τ) : Prop where
  ready : v.ready t'
  taken_eq : v.taken t' = v.taken t
  room_eq : v.room t' = v.room t

/-- The stream has taken what finds room of some bytes. -/
structure Takes (bs : Bytes) (t t' : τ) : Prop where
  ready : v.ready t'
  taken_eq : v.taken t' = v.taken t ++ upTo (v.room t) bs
  room_eq : v.room t' = (v.room t).map (· - bs.length)

variable {v} {bs cs : Bytes} {t t₁ t' : τ}

theorem Rests.refl (h : v.ready t) : v.Rests t t := ⟨h, rfl, rfl⟩

theorem Rests.trans (h : v.Rests t t₁) (h' : v.Rests t₁ t') : v.Rests t t' :=
  ⟨h'.ready, h'.taken_eq.trans h.taken_eq, h'.room_eq.trans h.room_eq⟩

theorem Takes.nil (h : v.ready t) : v.Takes [] t t where
  ready := h
  taken_eq := by rw [upTo_nil, List.append_nil]
  room_eq := by cases v.room t <;> rfl

theorem Takes.rests (h : v.Takes bs t t₁) (h' : v.Rests t₁ t') : v.Takes bs t t' :=
  ⟨h'.ready, h'.taken_eq.trans h.taken_eq, h'.room_eq.trans h.room_eq⟩

theorem Takes.append (h : v.Takes bs t t₁) (h' : v.Takes cs t₁ t') : v.Takes (bs ++ cs) t t' where
  ready := h'.ready
  taken_eq := by rw [h'.taken_eq, h.taken_eq, h.room_eq, upTo_append, List.append_assoc]
  room_eq := by
    rw [h'.room_eq, h.room_eq, Option.map_map, List.length_append]
    exact congrArg (Option.map · (v.room t)) (funext fun left ↦ Nat.sub_sub left _ _)

/-- Bytes that did not fit might as well have been more. -/
theorem Takes.of_not_fits (h : v.Takes bs t t') (hexceeds : ¬ Fits (v.room t) bs.length)
    (cs : Bytes) : v.Takes (bs ++ cs) t t' where
  ready := h.ready
  taken_eq := by rw [h.taken_eq, (upTo_append_of_not_fits hexceeds cs).1]
  room_eq := by rw [h.room_eq, (upTo_append_of_not_fits hexceeds cs).2]

end StreamView

/-- A stream of a storage has room for so many bytes. Nothing but a write to it changes what it has
taken, whatever comes of other operations, unless they are on a path that may lead to its file. A
new file is not made on such a path. -/
structure Storage.Confines {τ : Type} (fs : Storage τ) (log : Handle) (elsewhere : String → Prop)
    (v : StreamView τ) : Prop where
  bounded : (fs.writer log).Bounded v.ready v.taken v.room
  createNew : ∀ path t, v.ready t → Ends (fs.createNew path) t
    (fun h t' ↦ elsewhere path ∧ h ≠ log ∧ v.Rests t t') fun _ ↦ v.Rests t
  write : ∀ h bs t, h ≠ log → v.ready t →
    Ends (fs.write h bs) t (fun _ ↦ v.Rests t) fun _ ↦ v.Rests t
  flush : ∀ h t, v.ready t → Ends (fs.flush h) t (fun _ ↦ v.Rests t) fun _ ↦ v.Rests t
  release : ∀ h t, v.ready t →
    v.taken (fs.release h t) = v.taken t ∧ (h ≠ log → v.Rests t (fs.release h t))
  removeFile : ∀ path t, elsewhere path → v.ready t →
    Ends (fs.removeFile path) t (fun _ ↦ v.Rests t) fun _ ↦ v.Rests t

section Writes

variable {τ : Type} {w : Writer τ} {v : StreamView τ} (hw : w.Bounded v.ready v.taken v.room)
include hw

/-- A write is taken as far as there is room, and fails if there is not enough. -/
theorem Writer.Bounded.write_ends (bs : Bytes) {t : τ} (hready : v.ready t) :
    Ends (w.write bs) t (fun _ t' ↦ Fits (v.room t) bs.length ∧ v.Takes bs t t')
      fun _ t' ↦ ¬ Fits (v.room t) bs.length ∧ v.Takes bs t t' := by
  by_cases hfits : Fits (v.room t) bs.length
  · obtain ⟨t', hrun, hready', htaken, hroom⟩ := hw.fits bs t hready hfits
    rw [Ends, hrun]
    exact ⟨hfits, hready', by rw [htaken, upTo_of_fits hfits], hroom⟩
  · obtain ⟨left, hleft, hlt⟩ : ∃ left, v.room t = some left ∧ left < bs.length := by
      simpa [Fits] using hfits
    obtain ⟨e, t', hrun, hready', htaken, hroom⟩ := hw.exceeds bs t left hready hleft hlt
    rw [Ends, hrun]
    refine ⟨hfits, hready', by rw [htaken, hleft, upTo], ?_⟩
    rw [hroom, hleft, Option.map_some, Nat.sub_eq_zero_of_le (Nat.le_of_lt hlt)]

/-- Pieces that are written one after the other are taken like one write. -/
theorem Writer.Bounded.writePieces_ends {γ : Type} (f : γ → Bytes) (pieces : List γ) {t : τ}
    (hready : v.ready t) :
    Ends (pieces.forM fun piece ↦ w.write (f piece)) t
      (fun _ t' ↦ Fits (v.room t) (pieces.flatMap f).length ∧ v.Takes (pieces.flatMap f) t t')
      fun _ t' ↦ ¬ Fits (v.room t) (pieces.flatMap f).length ∧
        v.Takes (pieces.flatMap f) t t' := by
  induction pieces generalizing t with
  | nil => exact .pure ⟨fun _ _ ↦ Nat.zero_le _, .nil hready⟩
  | cons piece rest ih =>
    rw [List.flatMap_cons]
    refine ((hw.write_ends (f piece) hready).mono_error ?_).bind ?_
    · rintro _ t' ⟨hexceeds, htakes⟩
      exact ⟨fun hfits ↦ hexceeds (fits_append.mp hfits).1, htakes.of_not_fits hexceeds _⟩
    · rintro _ t₁ ⟨hfits, htakes⟩
      refine (ih htakes.ready).mono ?_ ?_
      · rintro _ t' ⟨hrest, htakes'⟩
        exact ⟨fits_append.mpr ⟨hfits, htakes.room_eq ▸ hrest⟩, htakes.append htakes'⟩
      · rintro _ t' ⟨hrest, htakes'⟩
        refine ⟨fun hall ↦ hrest ?_, htakes.append htakes'⟩
        rw [htakes.room_eq]
        exact (fits_append.mp hall).2

end Writes

/-! ### Files in memory -/

namespace MemoryStore

/-- The stream of a handle, to a file that no other stream writes to. -/
structure Streams (log : Handle) (path : String) (s : MemoryStore) : Prop where
  open_eq : (s.streams[log]?.map (·.path)) = some path
  file : (s.files.get? path).isSome
  alone : ∀ (h : Handle) stream, s.streams[h]? = some stream → stream.path = path → h = log

/-- The stream of a handle as the content of its file and its quota say. -/
def streamView (log : Handle) (path : String) : StreamView MemoryStore where
  ready := Streams log path
  taken s := (s.files.get? path).getD []
  room s := s.streams[log]?.bind fun stream ↦ Quota.room stream.quota

variable {log : Handle} {path : String} {s s' : MemoryStore}

/-- Assumes: the stream and its file are as they were, and no other stream writes to the file. -/
theorem rests_of_eq (hs : Streams log path s) (hlog : s'.streams[log]? = s.streams[log]?)
    (hfile : s'.files.get? path = s.files.get? path)
    (halone : ∀ (h : Handle) stream, s'.streams[h]? = some stream → stream.path = path → h = log) :
    (streamView log path).Rests s s' where
  ready := ⟨hlog ▸ hs.open_eq, hfile ▸ hs.file, halone⟩
  taken_eq := by simp only [streamView, hfile]
  room_eq := by simp only [streamView, hlog]

/-- A call that is noted leaves files and streams alone. -/
theorem call_rests (hs : Streams log path s) (point : FaultPoint) (other : String) :
    Ends (call point other) s (fun _ ↦ (streamView log path).Rests s)
      fun _ ↦ (streamView log path).Rests s := by
  unfold Ends call
  cases htrigger : trigger point other s.rules with
  | mk found rules =>
    cases found <;>
    · simp only [htrigger]
      exact rests_of_eq hs rfl rfl hs.alone

/-- A new file is another one, since this one is there. -/
theorem createNew_rests (hs : Streams log path s) (other : String) :
    Ends (createNew other) s
      (fun h s' ↦ other ≠ path ∧ h ≠ log ∧ (streamView log path).Rests s s')
      fun _ ↦ (streamView log path).Rests s := by
  refine (call_rests hs .createNew other).bind fun _ s₁ hrests ↦ .get_bind ?_
  by_cases hcontains : s₁.files.contains other = true
  · rw [if_pos hcontains]
    exact .throw hrests
  · rw [if_neg hcontains]
    have hne : other ≠ path := by
      rintro rfl
      exact hcontains hrests.ready.file
    obtain ⟨stream, hstream, -⟩ := Option.map_eq_some_iff.mp hrests.ready.open_eq
    have hlt := (List.getElem?_eq_some_iff.mp hstream).1
    refine ⟨hne, (Nat.ne_of_lt hlt).symm, hrests.trans (rests_of_eq hrests.ready ?_ ?_ ?_)⟩
    · exact List.getElem?_append_left hlt
    · change Table.get? (Table.set _ _ _) _ = _
      rw [Table.get?_set, if_neg hne]
    · intro h added hadded hsame
      change (s₁.streams ++ [_])[h]? = _ at hadded
      rw [List.getElem?_append] at hadded
      split at hadded
      · exact hrests.ready.alone h added hadded hsame
      · have hpath := congrArg MemoryStream.path
          (List.mem_singleton.mp (List.mem_of_getElem? hadded))
        exact absurd (hpath.symm.trans hsame) hne

/-- The files and streams after a stream took bytes. -/
theorem write_eq {h : Handle} {stream : MemoryStream} (hstream : s.streams[h]? = some stream)
    {part bs : Bytes} {quota : Option Quota} {failure : Option IoError}
    (hgrant : Quota.grant stream.quota bs = (part, quota, failure)) :
    ∃ s', write h bs s = resultOf (failure.elim (.ok ()) .error) s' ∧
      s'.streams = s.streams.set h { stream with quota := quota } ∧
      ∀ other, s'.files.get? other =
        if stream.path = other then (s.files.get? other).map (· ++ part)
        else s.files.get? other := by
  refine ⟨{ s with streams := s.streams.set h { stream with quota := quota } }.append stream.path
    part, ?_, ?_, fun other ↦ ?_⟩
  · simp only [write, hstream, hgrant]
    cases failure <;> rfl
  · unfold append
    split <;> rfl
  · unfold append
    by_cases hother : stream.path = other
    · subst hother
      cases hfile : s.files.get? stream.path with
      | none => simpa using hfile
      | some content => simp
    · split
      · rw [if_neg hother]
      · rw [Table.get?_set, if_neg hother, if_neg hother]

/-- The file of a stream has grown by what the stream took. -/
theorem takes_write (hs : Streams log path s) {bs part : Bytes} {quota : Option Quota}
    {failure : Option IoError} {stream : MemoryStream} (hstream : s.streams[log]? = some stream)
    (hgrant : Quota.grant stream.quota bs = (part, quota, failure)) :
    ∃ s', write log bs s = resultOf (failure.elim (.ok ()) .error) s' ∧ Streams log path s' ∧
      (streamView log path).taken s' = (streamView log path).taken s ++ part ∧
      (streamView log path).room s' = Quota.room quota := by
  obtain ⟨hopen, hfile, halone⟩ := hs
  have hlt := (List.getElem?_eq_some_iff.mp hstream).1
  have hpath : stream.path = path := by
    rw [hstream, Option.map_some] at hopen
    exact Option.some.inj hopen
  obtain ⟨content, hcontent⟩ := Option.isSome_iff_exists.mp hfile
  obtain ⟨s', hrun, hstreams, hfiles⟩ := write_eq hstream hgrant
  have hgrown : s'.files.get? path = some (content ++ part) := by
    rw [hfiles, if_pos hpath, hcontent, Option.map_some]
  have hlog : s'.streams[log]? = some { stream with quota := quota } := by
    rw [hstreams, List.getElem?_set_self hlt]
  refine ⟨s', hrun, ⟨?_, ?_, fun h other hother hsame ↦ ?_⟩, ?_, ?_⟩
  · rw [hlog, Option.map_some, hpath]
  · rw [hgrown, Option.isSome_some]
  · rw [hstreams] at hother
    by_cases hh : log = h
    · exact hh.symm
    · rw [List.getElem?_set_ne hh] at hother
      exact halone h other hother hsame
  · simp only [streamView, hgrown, hcontent, Option.getD_some]
  · simp only [streamView, hlog, Option.bind_some]

theorem room_eq {stream : MemoryStream} (hstream : s.streams[log]? = some stream) :
    (streamView log path).room s = Quota.room stream.quota := by
  simp only [streamView, hstream, Option.bind_some]

/-- A write to another stream goes to another file. -/
theorem write_rests (hs : Streams log path s) {h : Handle} (hne : h ≠ log) (bs : Bytes) :
    Ends (write h bs) s (fun _ ↦ (streamView log path).Rests s)
      fun _ ↦ (streamView log path).Rests s := by
  cases hstream : s.streams[h]? with
  | none =>
    simp only [Ends, write, hstream]
    exact .refl hs
  | some stream =>
    obtain ⟨part, quota, failure, hgrant⟩ : ∃ part quota failure,
        Quota.grant stream.quota bs = (part, quota, failure) := ⟨_, _, _, rfl⟩
    have hpath : stream.path ≠ path := fun hsame ↦ hne (hs.alone h stream hstream hsame)
    obtain ⟨s', hrun, hstreams, hfiles⟩ := write_eq hstream hgrant
    have hrests : (streamView log path).Rests s s' := by
      refine rests_of_eq hs ?_ ?_ fun k other hother hsame ↦ ?_
      · rw [hstreams, List.getElem?_set_ne hne]
      · rw [hfiles, if_neg hpath]
      · rw [hstreams, List.getElem?_set] at hother
        split at hother
        · rename_i hk
          subst hk
          rw [if_pos (List.getElem?_eq_some_iff.mp hstream).1] at hother
          exact absurd ((congrArg MemoryStream.path (Option.some.inj hother)).trans hsame) hpath
        · exact hs.alone k other hother hsame
    rw [Ends, hrun]
    cases failure <;> exact hrests

theorem removeFile_rests (hs : Streams log path s) {other : String} (hne : other ≠ path) :
    Ends (removeFile other) s (fun _ ↦ (streamView log path).Rests s)
      fun _ ↦ (streamView log path).Rests s := by
  refine (call_rests hs .removeFile other).bind fun _ s₁ hrests ↦ .get_bind ?_
  have hsame : (s₁.files.erase other).get? path = s₁.files.get? path := by
    rw [Table.get?_erase, if_neg hne]
  split
  · exact hrests.trans (rests_of_eq hrests.ready rfl hsame hrests.ready.alone)
  · exact hrests

theorem flush_rests (hs : Streams log path s) (h : Handle) :
    Ends (flush h) s (fun _ ↦ (streamView log path).Rests s)
      fun _ ↦ (streamView log path).Rests s := by
  unfold flush
  cases hstream : s.streams[h]? with
  | none =>
    simp only [Ends, hstream]
    exact .refl hs
  | some stream =>
    have hcall := call_rests hs .flush stream.path
    simp only [Ends, hstream] at hcall ⊢
    exact hcall

/-- The stream of a file that no other stream writes to is confined, whatever faults are asked
for. -/
theorem confines (log : Handle) (path : String) :
    storage.Confines log (· ≠ path) (streamView log path) where
  bounded := {
    fits := fun bs s hs hfits ↦ by
      obtain ⟨stream, hstream, -⟩ := Option.map_eq_some_iff.mp hs.open_eq
      rw [room_eq hstream] at hfits ⊢
      obtain ⟨quota, hgrant, hleft⟩ := Quota.grant_of_fits hfits
      obtain ⟨s', hrun, hs', htaken, hroom'⟩ := takes_write hs hstream hgrant
      exact ⟨s', hrun, hs', htaken, hroom'.trans hleft⟩
    exceeds := fun bs s left hs hleft hlt ↦ by
      obtain ⟨stream, hstream, -⟩ := Option.map_eq_some_iff.mp hs.open_eq
      rw [room_eq hstream] at hleft
      obtain ⟨quota, e, hgrant, hzero⟩ := Quota.grant_of_exceeds hleft hlt
      obtain ⟨s', hrun, hs', htaken, hroom'⟩ := takes_write hs hstream hgrant
      exact ⟨e, s', hrun, hs', htaken, hroom'.trans hzero⟩ }
  createNew other _ hs := createNew_rests hs other
  write _ bs _ hne hs := write_rests hs hne bs
  flush h _ hs := flush_rests hs h
  release _ _ hs := ⟨rfl, fun _ ↦ .refl hs⟩
  removeFile _ _ hne hs := removeFile_rests hs hne

end MemoryStore

end ScriptTrace
