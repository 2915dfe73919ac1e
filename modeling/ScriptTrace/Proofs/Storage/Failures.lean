import ScriptTrace.Proofs.Act
import ScriptTrace.Storage

/-!
Storages whose failures are counted. `Storage.Tallies` says of a number that it counts the
operations that failed; `Storage.tallying` is a storage that has such a number. A way from one state
of a storage to another is unharmed if no operation failed on it, and harmed if one did, whatever
the number is (`Storage.Unharmed`, `Storage.Harmed`).
-/

set_option autoImplicit false
set_option relaxedAutoImplicit false

namespace ScriptTrace

namespace Storage

variable {σ : Type}

/-- Whether an error of a new file is a failure. A path that is taken is none. -/
def refuses (e : IoError) : Bool := e.kind != .alreadyExists

/-- A number counts the operations of a storage that failed. -/
structure Tallies (fs : Storage σ) (failures : σ → Nat) : Prop where
  createDirectory : ∀ path s, Ends (fs.createDirectory path) s
    (fun _ s' ↦ failures s' = failures s) fun _ s' ↦ failures s' = failures s + 1
  createNew : ∀ path s, Ends (fs.createNew path) s
    (fun _ s' ↦ failures s' = failures s)
    fun e s' ↦ failures s' = failures s + if refuses e then 1 else 0
  openAppend : ∀ path s, Ends (fs.openAppend path) s
    (fun _ s' ↦ failures s' = failures s) fun _ s' ↦ failures s' = failures s + 1
  removeFile : ∀ path s, Ends (fs.removeFile path) s
    (fun _ s' ↦ failures s' = failures s) fun _ s' ↦ failures s' = failures s + 1
  write : ∀ h bs s, Ends (fs.write h bs) s
    (fun _ s' ↦ failures s' = failures s) fun _ s' ↦ failures s' = failures s + 1
  flush : ∀ h s, Ends (fs.flush h) s
    (fun _ s' ↦ failures s' = failures s) fun _ s' ↦ failures s' = failures s + 1
  release : ∀ h s, failures (fs.release h s) = failures s

/-! ### A storage that counts -/

/-- Count the failures of an operation that are errors of some kind. -/
def tallied {α : Type} (counts : IoError → Bool) (x : IoAct σ α) : IoAct (Nat × σ) α :=
  fun (n, s) => match x s with
  | .ok a s => .ok a (n, s)
  | .error e s => .error e (n + if counts e then 1 else 0, s)

/-- A storage along with the number of its failures. -/
def tallying (fs : Storage σ) : Storage (Nat × σ) where
  createDirectory path := tallied (fun _ => true) (fs.createDirectory path)
  createNew path := tallied refuses (fs.createNew path)
  openAppend path := tallied (fun _ => true) (fs.openAppend path)
  removeFile path := tallied (fun _ => true) (fs.removeFile path)
  read path s := fs.read path s.2
  write h bs := tallied (fun _ => true) (fs.write h bs)
  flush h := tallied (fun _ => true) (fs.flush h)
  release h s := (s.1, fs.release h s.2)

theorem tallied_ends {α : Type} (counts : IoError → Bool) (x : IoAct σ α) (s : Nat × σ) :
    Ends (tallied counts x) s (fun _ s' ↦ s'.1 = s.1)
      fun e s' ↦ s'.1 = s.1 + if counts e then 1 else 0 := by
  obtain ⟨n, s⟩ := s
  cases hrun : x s <;> simp only [Ends, tallied, hrun]

theorem tallies_tallying (fs : Storage σ) : fs.tallying.Tallies Prod.fst where
  createDirectory path s := tallied_ends _ (fs.createDirectory path) s
  createNew path s := tallied_ends _ (fs.createNew path) s
  openAppend path s := tallied_ends _ (fs.openAppend path) s
  removeFile path s := tallied_ends _ (fs.removeFile path) s
  write h bs s := tallied_ends _ (fs.write h bs) s
  flush h s := tallied_ends _ (fs.flush h) s
  release _ _ := rfl

/-! ### Ways without and with failures -/

/-- No operation failed on the way from one state of a storage to another. -/
def Unharmed (fs : Storage σ) (s s' : σ) : Prop :=
  ∀ failures, fs.Tallies failures → failures s' = failures s

/-- An operation failed on the way from one state of a storage to another. -/
def Harmed (fs : Storage σ) (s s' : σ) : Prop :=
  ∀ failures, fs.Tallies failures → failures s < failures s'

variable {fs : Storage σ} {s s₁ s' : σ}

theorem Unharmed.refl (s : σ) : fs.Unharmed s s := fun _ _ ↦ rfl

theorem Unharmed.trans (h : fs.Unharmed s s₁) (h' : fs.Unharmed s₁ s') : fs.Unharmed s s' :=
  fun failures hfailures ↦ (h' failures hfailures).trans (h failures hfailures)

theorem Unharmed.trans_harmed (h : fs.Unharmed s s₁) (h' : fs.Harmed s₁ s') : fs.Harmed s s' :=
  fun failures hfailures ↦ (h failures hfailures) ▸ h' failures hfailures

theorem Harmed.trans_unharmed (h : fs.Harmed s s₁) (h' : fs.Unharmed s₁ s') : fs.Harmed s s' :=
  fun failures hfailures ↦ (h' failures hfailures).symm ▸ h failures hfailures

theorem Harmed.trans (h : fs.Harmed s s₁) (h' : fs.Harmed s₁ s') : fs.Harmed s s' :=
  fun failures hfailures ↦ Nat.lt_trans (h failures hfailures) (h' failures hfailures)

/-- An operation ends unharmed or fails harmed, if that is what every number counts. -/
theorem ends_of_tallies {ε α : Type} {x : EStateM ε σ α}
    (hx : ∀ failures, fs.Tallies failures →
      Ends x s (fun _ s' ↦ failures s' = failures s) fun _ s' ↦ failures s' = failures s + 1) :
    Ends x s (fun _ ↦ fs.Unharmed s) fun _ ↦ fs.Harmed s := by
  refine .of_cases ?_ ?_
  · exact fun _ s' hrun failures hfailures ↦ (hx failures hfailures).of_ok hrun
  · intro _ s' hrun failures hfailures
    rw [(hx failures hfailures).of_error hrun]
    exact Nat.lt_succ_self _

theorem write_harms (h : Handle) (bs : Bytes) (s : σ) :
    Ends (fs.write h bs) s (fun _ ↦ fs.Unharmed s) fun _ ↦ fs.Harmed s :=
  ends_of_tallies fun _ hfailures ↦ hfailures.write h bs s

theorem flush_harms (h : Handle) (s : σ) :
    Ends (fs.flush h) s (fun _ ↦ fs.Unharmed s) fun _ ↦ fs.Harmed s :=
  ends_of_tallies fun _ hfailures ↦ hfailures.flush h s

theorem removeFile_harms (path : String) (s : σ) :
    Ends (fs.removeFile path) s (fun _ ↦ fs.Unharmed s) fun _ ↦ fs.Harmed s :=
  ends_of_tallies fun _ hfailures ↦ hfailures.removeFile path s

theorem release_unharmed (h : Handle) (s : σ) : fs.Unharmed s (fs.release h s) :=
  fun _ hfailures ↦ hfailures.release h s

/-- A new file whose path is taken is no failure. -/
theorem createNew_harms (path : String) (s : σ) :
    Ends (fs.createNew path) s (fun _ ↦ fs.Unharmed s)
      fun e s' ↦ if e.kind = .alreadyExists then fs.Unharmed s s' else fs.Harmed s s' := by
  refine .of_cases ?_ ?_
  · exact fun _ s' hrun failures hfailures ↦ (hfailures.createNew path s).of_ok hrun
  · intro e s' hrun
    have hcount {failures : σ → Nat} (hfailures : fs.Tallies failures) :
        failures s' = failures s + if refuses e then 1 else 0 :=
      (hfailures.createNew path s).of_error hrun
    split
    · rename_i htaken
      intro failures hfailures
      simpa [refuses, htaken] using hcount hfailures
    · rename_i hrefused
      intro failures hfailures
      rw [hcount hfailures, refuses, if_pos (bne_iff_ne.mpr hrefused)]
      exact Nat.lt_succ_self _

end Storage

end ScriptTrace
