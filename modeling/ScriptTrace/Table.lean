/-!
Finite maps kept as lists of pairs. `set` replaces the value of a known key where it stands and
appends a new key at the end, so the keys stay in the order in which they first appeared and each
appears once (`nodup_keys_set`). A lookup sees the value set last (`get?_set`). Dropping a key that
was given a value does not bring back the one it had before (`erase_set`).
-/

set_option autoImplicit false

namespace ScriptTrace

/-- A finite map from keys to values, in order of first appearance. -/
structure Table (κ : Type) (ν : Type) where
  entries : List (κ × ν)

namespace Table

variable {κ ν : Type} [DecidableEq κ]

/-- The map without entries. -/
def empty : Table κ ν := ⟨[]⟩

instance : Inhabited (Table κ ν) := ⟨empty⟩

/-- The value of the first pair with this key. -/
def find (key : κ) : List (κ × ν) → Option ν
  | [] => none
  | (k, v) :: rest => if k = key then some v else find key rest

/-- The pairs with the value of one key replaced, or the key added at the end. -/
def put (key : κ) (value : ν) : List (κ × ν) → List (κ × ν)
  | [] => [(key, value)]
  | (k, v) :: rest => if k = key then (k, value) :: rest else (k, v) :: put key value rest

/-- The value of a key. -/
def get? (t : Table κ ν) (key : κ) : Option ν := find key t.entries

/-- Give a key a value. -/
def set (t : Table κ ν) (key : κ) (value : ν) : Table κ ν := ⟨put key value t.entries⟩

/-- Drop a key. -/
def erase (t : Table κ ν) (key : κ) : Table κ ν := ⟨t.entries.filter fun p => p.1 ≠ key⟩

/-- Whether a key has a value. -/
def contains (t : Table κ ν) (key : κ) : Bool := (t.get? key).isSome

/-- The keys, in order of first appearance. -/
def keys (t : Table κ ν) : List κ := t.entries.map (·.1)

/-- The number of keys. -/
def size (t : Table κ ν) : Nat := t.entries.length

theorem find_put (key other : κ) (value : ν) (ps : List (κ × ν)) :
    find other (put key value ps) = if key = other then some value else find other ps := by
  induction ps with
  | nil => simp [put, find]
  | cons p rest ih =>
    obtain ⟨k, v⟩ := p
    by_cases hk : k = key
    · subst hk
      by_cases ho : k = other <;> simp [put, find, ho]
    · by_cases ho : k = other
      · subst ho
        simp [put, find, hk, Ne.symm hk]
      · simp [put, find, hk, ho, ih]

theorem find_append (key : κ) (ps qs : List (κ × ν)) :
    find key (ps ++ qs) = (find key ps).or (find key qs) := by
  induction ps with
  | nil => rfl
  | cons p rest ih =>
    obtain ⟨k, v⟩ := p
    by_cases hk : k = key <;> simp [find, hk, ih]

@[simp] theorem get?_set (t : Table κ ν) (key other : κ) (value : ν) :
    (t.set key value).get? other = if key = other then some value else t.get? other :=
  find_put key other value t.entries

theorem find_filter_ne (key other : κ) (ps : List (κ × ν)) :
    find other (ps.filter fun p => p.1 ≠ key) = if key = other then none else find other ps := by
  induction ps with
  | nil => simp [find]
  | cons p rest ih =>
    obtain ⟨k, v⟩ := p
    by_cases hk : k = key
    · subst hk
      by_cases ho : k = other <;> simp_all [find]
    · by_cases ho : k = other
      · subst ho
        simp [find, hk, Ne.symm hk]
      · simp_all [find]

@[simp] theorem get?_erase (t : Table κ ν) (key other : κ) :
    (t.erase key).get? other = if key = other then none else t.get? other :=
  find_filter_ne key other t.entries

theorem filter_put (key : κ) (value : ν) (ps : List (κ × ν)) :
    (put key value ps).filter (fun p => p.1 ≠ key) = ps.filter fun p => p.1 ≠ key := by
  induction ps with
  | nil => simp [put]
  | cons p rest ih =>
    obtain ⟨k, v⟩ := p
    by_cases hk : k = key <;> simp_all [put]

/-- A key that is dropped leaves nothing of the value it was given. -/
@[simp] theorem erase_set (t : Table κ ν) (key : κ) (value : ν) :
    (t.set key value).erase key = t.erase key :=
  congrArg Table.mk (filter_put key value t.entries)

theorem ne_of_find {key : κ} {ps : List (κ × ν)} (h : find key ps = none) {p : κ × ν}
    (hp : p ∈ ps) : p.1 ≠ key := by
  induction ps with
  | nil => cases hp
  | cons q rest ih =>
    rw [find] at h
    split at h
    · cases h
    · rename_i hne
      rcases List.mem_cons.mp hp with rfl | hrest
      · exact hne
      · exact ih h hrest

/-- Dropping a key changes nothing if and only if the key has no value. -/
theorem erase_eq_self_iff (t : Table κ ν) (key : κ) : t.erase key = t ↔ t.get? key = none := by
  constructor
  · intro h
    rw [← h, get?_erase, if_pos rfl]
  · intro h
    exact congrArg Table.mk (List.filter_eq_self.mpr fun _ hp => decide_eq_true (ne_of_find h hp))

theorem mem_keys_of_find {key : κ} {value : ν} {ps : List (κ × ν)}
    (h : find key ps = some value) : key ∈ ps.map (·.1) := by
  induction ps with
  | nil => cases h
  | cons p rest ih =>
    rw [find] at h
    split at h
    · rename_i heq
      exact heq ▸ List.mem_cons_self
    · exact .tail _ (ih h)

/-- A key with a value is among the keys. -/
theorem mem_keys {t : Table κ ν} {key : κ} {value : ν} (h : t.get? key = some value) :
    key ∈ t.keys :=
  mem_keys_of_find h

/-- The keys are those with a value. -/
theorem mem_keys_iff {t : Table κ ν} {key : κ} : key ∈ t.keys ↔ (t.get? key).isSome := by
  constructor
  · intro hkey
    obtain ⟨p, hp, rfl⟩ := List.mem_map.mp hkey
    refine Option.isSome_iff_ne_none.mpr fun hnone => ?_
    exact ne_of_find hnone hp rfl
  · intro hsome
    obtain ⟨value, hvalue⟩ := Option.isSome_iff_exists.mp hsome
    exact mem_keys hvalue

theorem map_fst_put (key : κ) (value : ν) (ps : List (κ × ν)) :
    (put key value ps).map (·.1) =
      if key ∈ ps.map (·.1) then ps.map (·.1) else ps.map (·.1) ++ [key] := by
  induction ps with
  | nil => simp [put]
  | cons p rest ih =>
    obtain ⟨k, v⟩ := p
    by_cases hk : k = key
    · simp [put, hk]
    · by_cases hm : key ∈ rest.map (·.1) <;> simp_all [put, Ne.symm hk]

theorem nodup_keys_set (t : Table κ ν) (key : κ) (value : ν) (h : t.keys.Nodup) :
    (t.set key value).keys.Nodup := by
  unfold keys at *
  rw [set, map_fst_put]
  split
  · exact h
  · rename_i hm
    exact List.nodup_append.mpr ⟨h, by simp, by
      intro a ha b hb hab
      rw [List.mem_singleton] at hb
      exact hm (hb ▸ hab ▸ ha)⟩

end Table

end ScriptTrace
