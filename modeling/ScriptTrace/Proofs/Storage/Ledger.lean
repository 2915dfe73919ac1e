import ScriptTrace.Proofs.Act
import ScriptTrace.Storage

/-!
Storages that keep a ledger. `Storage.noting` does what another storage does, and notes each call
before it is made, whatever comes of it. It numbers the streams that it opens, so that calls on a
stream are told apart from those on any other one, also where the storage uses a handle again.
-/

set_option autoImplicit false
set_option relaxedAutoImplicit false

namespace ScriptTrace

/-- A call on a storage. Reading changes nothing and is none. -/
inductive StorageCall where
  | createDirectory (path : String)
  | createNew (path : String)
  | openAppend (path : String)
  | removeFile (path : String)
  | write (stream : Nat) (bs : Bytes)
  | flush (stream : Nat)
  | release (stream : Nat)
deriving DecidableEq

/-- The calls made so far, and the handles of the streams opened so far. -/
structure Ledger where
  calls : List StorageCall
  streams : List Handle

namespace Ledger

def empty : Ledger := ⟨[], []⟩

/-- A call is made. -/
def note (call : StorageCall) (l : Ledger) : Ledger := { l with calls := l.calls ++ [call] }

/-- A stream is opened. -/
def opened (handle : Handle) (l : Ledger) : Ledger := { l with streams := l.streams ++ [handle] }

/-- The handle of a stream. -/
def handle (stream : Nat) (l : Ledger) : Handle := l.streams.getD stream 0

/-- How often a stream was flushed. -/
def flushes (stream : Nat) (l : Ledger) : Nat := l.calls.count (.flush stream)

theorem flushes_note (stream : Nat) (call : StorageCall) (l : Ledger) :
    (l.note call).flushes stream =
      l.flushes stream + if call = .flush stream then 1 else 0 := by
  rw [flushes, note, List.count_append, List.count_singleton, flushes]
  simp

end Ledger

namespace Storage

variable {σ : Type} (fs : Storage σ)

/-- Note a call and make it. -/
def noted {α : Type} (call : StorageCall) (x : Ledger → IoAct σ α) : IoAct (Ledger × σ) α := do
  modify fun (l, s) => (l.note call, s)
  let (l, _) ← get
  onSecond (x l)

/-- Note that a stream is opened, and answer its number. -/
def opening (call : StorageCall) (x : IoAct σ Handle) : IoAct (Ledger × σ) Handle := do
  let handle ← noted call fun _ => x
  let (l, _) ← get
  modify fun (l, s) => (l.opened handle, s)
  return l.streams.length

/-- A storage with a ledger. -/
def noting : Storage (Ledger × σ) where
  createDirectory path := noted (.createDirectory path) fun _ => fs.createDirectory path
  createNew path := opening (.createNew path) (fs.createNew path)
  openAppend path := opening (.openAppend path) (fs.openAppend path)
  removeFile path := noted (.removeFile path) fun _ => fs.removeFile path
  read path s := fs.read path s.2
  write stream bs := noted (.write stream bs) fun l => fs.write (l.handle stream) bs
  flush stream := noted (.flush stream) fun l => fs.flush (l.handle stream)
  release stream s := (s.1.note (.release stream), fs.release (s.1.handle stream) s.2)

variable {fs}

/-- A call that is noted, whatever comes of it. -/
theorem noted_ends {α : Type} {call : StorageCall} {P : Ledger → Prop} (x : Ledger → IoAct σ α)
    {s : Ledger × σ} (h : P (s.1.note call)) :
    Ends (noted call x) s (fun _ s' ↦ P s'.1) fun _ s' ↦ P s'.1 :=
  .modify_bind (.get_bind (.onSecond (.of_cases (fun _ _ _ ↦ h) fun _ _ _ ↦ h)))

/-- A stream that is opened gets the number of those before it. -/
theorem opening_ends {call : StorageCall} {P : Ledger → Prop} (x : IoAct σ Handle)
    {s : Ledger × σ} (h : P (s.1.note call)) :
    Ends (opening call x) s
      (fun stream s' ↦ ∃ l handle, P l ∧ stream = l.streams.length ∧ s'.1 = l.opened handle)
      fun _ s' ↦ P s'.1 := by
  refine (noted_ends (fun _ ↦ x) h).bind ?_
  rintro handle ⟨l, t⟩ hl
  exact .get_bind (.modify_bind (.pure ⟨l, handle, hl, rfl, rfl⟩))

/-! ### The first stream -/

/-- No stream was opened. -/
def Unopened (l : Ledger) : Prop := l.streams = [] ∧ l.flushes 0 = 0

/-- The first stream was opened, and has not been flushed. -/
def Unflushed (l : Ledger) : Prop := l.streams ≠ [] ∧ l.flushes 0 = 0

theorem Unopened.note {l : Ledger} (h : Unopened l) {call : StorageCall}
    (hcall : call ≠ .flush 0) : Unopened (l.note call) :=
  ⟨h.1, by rw [Ledger.flushes_note, if_neg hcall, h.2]⟩

theorem Unflushed.note {l : Ledger} (h : Unflushed l) {call : StorageCall}
    (hcall : call ≠ .flush 0) : Unflushed (l.note call) :=
  ⟨h.1, by rw [Ledger.flushes_note, if_neg hcall, h.2]⟩

theorem opened_unflushed {l : Ledger} (h : l.flushes 0 = 0) (handle : Handle) :
    Unflushed (l.opened handle) :=
  ⟨List.append_ne_nil_of_right_ne_nil _ (List.cons_ne_nil _ _), h⟩

/-- A storage makes a directory and then opens its first stream. -/
theorem createDirectory_unopened (path : String) {s : Ledger × σ} (hs : Unopened s.1) :
    Ends (fs.noting.createDirectory path) s (fun _ s' ↦ Unopened s'.1) fun _ s' ↦ Unopened s'.1 :=
  noted_ends (fun _ ↦ fs.createDirectory path) (hs.note nofun)

theorem createNew_unopened (path : String) {s : Ledger × σ} (hs : Unopened s.1) :
    Ends (fs.noting.createNew path) s (fun stream s' ↦ stream = 0 ∧ Unflushed s'.1)
      fun _ s' ↦ Unopened s'.1 := by
  have hnote : Unopened (s.1.note (.createNew path)) := hs.note nofun
  refine (opening_ends (fs.createNew path) hnote).mono ?_ fun _ _ h ↦ h
  rintro stream ⟨_, t⟩ ⟨l, handle, hl, rfl, rfl⟩
  exact ⟨by rw [hl.1]; rfl, opened_unflushed hl.2 handle⟩

section Keeps

variable {s : Ledger × σ} (hs : Unflushed s.1)
include hs

theorem write_keeps (stream : Nat) (bs : Bytes) :
    Ends (fs.noting.write stream bs) s (fun _ s' ↦ Unflushed s'.1) fun _ s' ↦ Unflushed s'.1 :=
  noted_ends (fun l ↦ fs.write (l.handle stream) bs) (hs.note nofun)

theorem flush_keeps {stream : Nat} (hstream : stream ≠ 0) :
    Ends (fs.noting.flush stream) s (fun _ s' ↦ Unflushed s'.1) fun _ s' ↦ Unflushed s'.1 :=
  noted_ends (fun l ↦ fs.flush (l.handle stream))
    (hs.note fun hsame ↦ hstream (StorageCall.flush.inj hsame))

theorem removeFile_keeps (path : String) :
    Ends (fs.noting.removeFile path) s (fun _ s' ↦ Unflushed s'.1) fun _ s' ↦ Unflushed s'.1 :=
  noted_ends (fun _ ↦ fs.removeFile path) (hs.note nofun)

/-- A stream that is opened after the first one is another one. -/
theorem createNew_keeps (path : String) :
    Ends (fs.noting.createNew path) s (fun stream s' ↦ stream ≠ 0 ∧ Unflushed s'.1)
      fun _ s' ↦ Unflushed s'.1 := by
  have hnote : Unflushed (s.1.note (.createNew path)) := hs.note nofun
  refine (opening_ends (fs.createNew path) hnote).mono ?_ fun _ _ h ↦ h
  rintro stream ⟨_, t⟩ ⟨l, handle, hl, rfl, rfl⟩
  exact ⟨fun hzero ↦ hl.1 (List.length_eq_zero_iff.mp hzero), opened_unflushed hl.2 handle⟩

theorem release_keeps (stream : Nat) : Unflushed (fs.noting.release stream s).1 :=
  hs.note nofun

/-- The first stream is flushed, which may fail. -/
theorem flush_flushes :
    Ends (fs.noting.flush 0) s (fun _ s' ↦ s'.1.flushes 0 = 1) fun _ s' ↦ s'.1.flushes 0 = 1 := by
  have hflushed : (s.1.note (.flush 0)).flushes 0 = 1 := by
    rw [Ledger.flushes_note, if_pos rfl, hs.2]
  exact noted_ends (P := fun l ↦ l.flushes 0 = 1) (fun l ↦ fs.flush (l.handle 0)) hflushed

end Keeps

theorem flushes_release (stream other : Nat) (s : Ledger × σ) :
    (fs.noting.release stream s).1.flushes other = s.1.flushes other := by
  change (s.1.note (.release stream)).flushes other = _
  rw [Ledger.flushes_note, if_neg nofun, Nat.add_zero]

end Storage

end ScriptTrace
