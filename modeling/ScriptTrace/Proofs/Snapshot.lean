import Mathlib.Data.List.Induction
import ScriptTrace.Snapshot

/-!
What a scan of storage answers. Storage is in ascending order, and the keys with a common start lie
together in it (`isPrefixOf_of_between`), so the stretch that a scan reads holds all of them
(`find_eq_filter`). What is stored under a key is the value put last (`mem_put_iff`), and so a scan
after any writes is told from the writes alone (`find_written`).
-/

set_option autoImplicit false
set_option relaxedAutoImplicit false

namespace ScriptTrace

/-- A stretch of a list in order, from where the elements that come before it end to where the ones
that are looked for end, holds all of the latter. -/
theorem takeWhile_dropWhile_eq_filter {α : Type} {R : α → α → Prop} {before wanted : α → Bool}
    {xs : List α} (hordered : xs.Pairwise R) (hdown : ∀ x y, R x y → before y → before x)
    (hapart : ∀ x, wanted x → ¬ before x)
    (hbetween : ∀ x y, R x y → ¬ before x → wanted y → wanted x) :
    (xs.dropWhile before).takeWhile wanted = xs.filter wanted := by
  induction xs with
  | nil => rfl
  | cons x rest ih =>
    obtain ⟨hfirst, hrest⟩ := List.pairwise_cons.mp hordered
    specialize ih hrest
    by_cases hbefore : before x
    · have hunwanted : ¬ wanted x := fun hwanted ↦ hapart x hwanted hbefore
      rw [List.dropWhile_cons_of_pos hbefore, List.filter_cons_of_neg hunwanted, ih]
    · rw [List.dropWhile_cons_of_neg hbefore]
      by_cases hwanted : wanted x
      · have hstay : rest.dropWhile before = rest := by
          cases rest with
          | nil => rfl
          | cons y later =>
            have hnot : ¬ before y := fun hy ↦ hbefore (hdown x y (hfirst y List.mem_cons_self) hy)
            exact List.dropWhile_cons_of_neg hnot
        rw [List.takeWhile_cons_of_pos hwanted, List.filter_cons_of_pos hwanted, ← ih, hstay]
      · have hnone : (x :: rest).filter wanted = [] := by
          refine List.filter_eq_nil_iff.mpr fun y hy hfound ↦ ?_
          rcases List.mem_cons.mp hy with rfl | hlater
          · exact hwanted hfound
          · exact hwanted (hbetween x y (hfirst y hlater) hbefore hfound)
        rw [List.takeWhile_cons_of_neg hwanted, hnone]

/-- Whatever lies between a start and a text with this start has this start too. -/
theorem Bytes.isPrefixOf_of_between {start bs bs' : Bytes} (hge : ¬ bs < start) (hlt : bs < bs')
    (h : start.isPrefixOf bs') : start.isPrefixOf bs := by
  induction start generalizing bs bs' with
  | nil => rfl
  | cons b start ih =>
    rw [List.isPrefixOf_iff_prefix] at h ⊢
    obtain ⟨rest', rfl⟩ := h
    cases bs with
    | nil => exact absurd (List.nil_lt_cons b start) hge
    | cons a rest =>
      rw [List.cons_append, List.cons_lt_cons_iff] at hlt
      rw [List.cons_lt_cons_iff, not_or] at hge
      obtain ⟨rfl, hrest⟩ := hlt.resolve_left hge.1
      have hlater : ¬ rest < start := fun hless ↦ hge.2 ⟨rfl, hless⟩
      have hstart := ih hlater hrest (List.isPrefixOf_iff_prefix.mpr ⟨rest', rfl⟩)
      exact List.cons_prefix_cons.mpr ⟨rfl, List.isPrefixOf_iff_prefix.mp hstart⟩

theorem Bytes.not_lt_of_isPrefixOf {start bs : Bytes} (h : start.isPrefixOf bs) :
    ¬ bs < start := by
  induction start generalizing bs with
  | nil => exact List.not_lt_nil bs
  | cons b start ih =>
    obtain ⟨rest, rfl⟩ := List.isPrefixOf_iff_prefix.mp h
    rw [List.cons_append, List.cons_lt_cons_iff]
    rintro (hless | ⟨-, hless⟩)
    · exact UInt8.lt_irrefl _ hless
    · exact ih (List.isPrefixOf_iff_prefix.mpr ⟨rest, rfl⟩) hless

namespace Snapshot

/-- A scan answers the entries of a contract whose keys have the start, in order of key. -/
theorem find_eq_filter (s : Snapshot) (contract : Int32) (start : Bytes) :
    s.find contract start =
      (s.storage.filter fun p ↦ p.1.contract == contract && start.isPrefixOf p.1.key).map
        fun p ↦ ⟨p.1.key, p.2⟩ := by
  refine congrArg (List.map _) (takeWhile_dropWhile_eq_filter s.ordered ?_ ?_ ?_)
  · exact fun p q hpq hq ↦ StorageKey.lt_trans hpq hq
  · intro p hwanted hbefore
    simp only [Bool.and_eq_true, beq_iff_eq] at hwanted
    rcases StorageKey.lt_iff.mp hbefore with hcontract | ⟨-, hkey⟩
    · exact Int32.lt_irrefl (hwanted.1 ▸ hcontract)
    · exact Bytes.not_lt_of_isPrefixOf hwanted.2 hkey
  · intro p q hpq hbefore hwanted
    simp only [Bool.and_eq_true, beq_iff_eq] at hwanted ⊢
    obtain ⟨rfl, hstart⟩ := hwanted
    simp only [StorageKey.lt_iff, not_or] at hpq hbefore
    obtain ⟨hcontract, hkey⟩ := hpq.resolve_left hbefore.1
    have hge : ¬ p.1.key < start := fun hless ↦ hbefore.2 ⟨hcontract, hless⟩
    exact ⟨hcontract, Bytes.isPrefixOf_of_between hge hkey hstart⟩

/-- A scan lists what is stored under a contract number and a key with the start. -/
theorem mem_find {s : Snapshot} {contract : Int32} {start : Bytes} {entry : StorageEntry} :
    entry ∈ s.find contract start ↔
      start <+: entry.key ∧ (⟨contract, entry.key⟩, entry.value) ∈ s.storage := by
  rw [find_eq_filter, List.mem_map]
  constructor
  · rintro ⟨⟨⟨_, key⟩, value⟩, hmem, rfl⟩
    obtain ⟨hstored, hwanted⟩ := List.mem_filter.mp hmem
    simp only [Bool.and_eq_true, beq_iff_eq] at hwanted
    exact ⟨List.isPrefixOf_iff_prefix.mp hwanted.2, hwanted.1 ▸ hstored⟩
  · rintro ⟨hstart, hstored⟩
    have hwanted := List.isPrefixOf_iff_prefix.mpr hstart
    exact ⟨_, List.mem_filter.mpr ⟨hstored, by simp [hwanted]⟩, rfl⟩

/-- The entries that a scan lists come in ascending order of key, each key once. -/
theorem find_ordered (s : Snapshot) (contract : Int32) (start : Bytes) :
    (s.find contract start).Pairwise fun e f ↦ e.key < f.key := by
  rw [find_eq_filter, List.pairwise_map]
  refine (s.ordered.filter _).imp_of_mem fun {p q} hp hq hpq ↦ ?_
  have hcontract (r : StorageKey × Bytes) (hr : r ∈ s.storage.filter fun p ↦
      p.1.contract == contract && start.isPrefixOf p.1.key) : r.1.contract = contract := by
    have hwanted := (List.mem_filter.mp hr).2
    simp only [Bool.and_eq_true, beq_iff_eq] at hwanted
    exact hwanted.1
  rcases StorageKey.lt_iff.mp hpq with hless | ⟨-, hkey⟩
  · rw [hcontract p hp, hcontract q hq] at hless
    exact absurd hless Int32.lt_irrefl
  · exact hkey

/-- The entries of a contract are those that are stored under its number. -/
theorem mem_storageOf {s : Snapshot} {contract : Int32} {entry : StorageEntry} :
    entry ∈ s.storageOf contract ↔ (⟨contract, entry.key⟩, entry.value) ∈ s.storage :=
  mem_find.trans (and_iff_right List.nil_prefix)

/-- They come in ascending order of key, each key once. -/
theorem storageOf_ordered (s : Snapshot) (contract : Int32) :
    (s.storageOf contract).Pairwise fun e f ↦ e.key < f.key :=
  s.find_ordered contract []

/-- Inserting replaces what is kept under the key, and nothing else. -/
theorem mem_insert_iff {key : StorageKey} {value : Bytes} {ps : List (StorageKey × Bytes)}
    (hordered : ps.Pairwise fun p q ↦ p.1.lt q.1) {p : StorageKey × Bytes} :
    p ∈ insert key value ps ↔ p = (key, value) ∨ p.1 ≠ key ∧ p ∈ ps := by
  have hne {a b : StorageKey} (hlt : a.lt b) : b ≠ a :=
    fun hsame ↦ StorageKey.lt_irrefl a (hsame ▸ hlt)
  induction ps with
  | nil => simp [insert]
  | cons q rest ih =>
    obtain ⟨k, v⟩ := q
    obtain ⟨hfirst, hrest⟩ := List.pairwise_cons.mp hordered
    rw [insert]
    split
    · rename_i hsame
      subst hsame
      rw [List.mem_cons]
      refine or_congr_right ⟨fun hp ↦ ⟨hne (hfirst p hp), List.mem_cons_of_mem _ hp⟩, ?_⟩
      rintro ⟨hother, hp⟩
      exact (List.mem_cons.mp hp).resolve_left fun hsame ↦ hother (congrArg Prod.fst hsame)
    · rename_i hkey
      split
      · rename_i hlt
        rw [List.mem_cons]
        refine or_congr_right (iff_and_self.mpr fun hp ↦ ?_)
        rcases List.mem_cons.mp hp with rfl | hlater
        · exact hkey
        · exact hne (StorageKey.lt_trans hlt (hfirst p hlater))
      · rw [List.mem_cons]
        refine (or_congr_right (ih hrest)).trans ?_
        rw [List.mem_cons]
        constructor
        · rintro (rfl | hinserted | ⟨hother, hp⟩)
          · exact .inr ⟨hkey, .inl rfl⟩
          · exact .inl hinserted
          · exact .inr ⟨hother, .inr hp⟩
        · rintro (hinserted | ⟨hother, rfl | hp⟩)
          · exact .inr (.inl hinserted)
          · exact .inl rfl
          · exact .inr (.inr ⟨hother, hp⟩)

/-- Under a key is stored what was put there last. -/
theorem mem_put_iff {s : Snapshot} {contract : Int32} {key value : Bytes}
    {p : StorageKey × Bytes} : p ∈ (s.put contract key value).storage ↔
      p = (⟨contract, key⟩, value) ∨ p.1 ≠ ⟨contract, key⟩ ∧ p ∈ s.storage :=
  mem_insert_iff s.ordered

/-- What can be done to a snapshot. -/
inductive Write where
  | deploy (contract : Contract)
  | put (contract : Int32) (key value : Bytes)

namespace Write

/-- The snapshot afterwards. -/
def apply (s : Snapshot) : Write → Snapshot
  | deploy c => s.deploy c
  | put contract key value => s.put contract key value

/-- The value that is put at a place, if this is a write to it. -/
def value? (place : StorageKey) : Write → Option Bytes
  | deploy _ => none
  | put contract key value => if ⟨contract, key⟩ = place then some value else none

/-- One write gives its place the value that it puts and leaves all others as they are. -/
theorem mem_apply_iff {s : Snapshot} {write : Write} {place : StorageKey} {value : Bytes} :
    (place, value) ∈ (write.apply s).storage ↔
      write.value? place = some value ∨
        write.value? place = none ∧ (place, value) ∈ s.storage := by
  cases write with
  | deploy c => simp [apply, value?, Snapshot.deploy]
  | put contract key put =>
    rw [apply, mem_put_iff, value?]
    by_cases hplace : (⟨contract, key⟩ : StorageKey) = place
    · subst hplace
      simp [eq_comm]
    · simp [hplace, Ne.symm hplace]

end Write

/-- The snapshot after writes to an empty one. -/
def written (writes : List Write) : Snapshot := writes.foldl Write.apply empty

/-- The value that the last of some writes to a place puts there. -/
def lastPut (writes : List Write) (place : StorageKey) : Option Bytes :=
  writes.reverse.findSome? (·.value? place)

/-- A place holds the value put there last, over any writes. -/
theorem mem_written_iff (writes : List Write) {place : StorageKey} {value : Bytes} :
    (place, value) ∈ (written writes).storage ↔ lastPut writes place = some value := by
  induction writes using List.reverseRecOn with
  | nil => simp [written, lastPut, empty]
  | append_singleton earlier last ih =>
    have hlast : lastPut (earlier ++ [last]) place =
        (last.value? place).or (lastPut earlier place) := by
      rw [lastPut, List.reverse_concat, List.findSome?_cons]
      cases last.value? place <;> rfl
    rw [written, List.foldl_append, List.foldl_cons, List.foldl_nil, Write.mem_apply_iff, hlast,
      ← written, ih]
    cases last.value? place <;> simp

/-- A place has a value put there last if and only if one was put there at all. -/
theorem exists_lastPut_iff (writes : List Write) (contract : Int32) (key : Bytes) :
    (∃ value, lastPut writes ⟨contract, key⟩ = some value) ↔
      ∃ value, .put contract key value ∈ writes := by
  rw [← Option.isSome_iff_exists, lastPut, List.isSome_findSome?, List.any_reverse,
    List.any_eq_true]
  constructor
  · rintro ⟨write, hmem, hvalue⟩
    cases write with
    | deploy c => cases hvalue
    | put other otherKey value =>
      rw [Write.value?] at hvalue
      split at hvalue
      · rename_i hplace
        cases hplace
        exact ⟨value, hmem⟩
      · cases hvalue
  · rintro ⟨value, hmem⟩
    exact ⟨_, hmem, by simp [Write.value?]⟩

/-- After any writes, a scan for a start lists the keys put under the contract number that have this
start, each once, with the value put there last and in ascending order, and nothing else; and the
storage of a contract lists all keys put under its number in the same way. -/
theorem find_written (writes : List Write) (contract : Int32) (start : Bytes) :
    (((written writes).find contract start).Pairwise fun e f ↦ e.key < f.key) ∧
      (∀ key, key ∈ ((written writes).find contract start).map (·.key) ↔
        start <+: key ∧ ∃ value, .put contract key value ∈ writes) ∧
      (∀ entry, entry ∈ (written writes).find contract start ↔
        start <+: entry.key ∧ lastPut writes ⟨contract, entry.key⟩ = some entry.value) ∧
      (((written writes).storageOf contract).Pairwise fun e f ↦ e.key < f.key) ∧
      (∀ key, key ∈ ((written writes).storageOf contract).map (·.key) ↔
        ∃ value, .put contract key value ∈ writes) ∧
      ∀ entry, entry ∈ (written writes).storageOf contract ↔
        lastPut writes ⟨contract, entry.key⟩ = some entry.value := by
  have hlisted (start : Bytes) (entry : StorageEntry) :
      entry ∈ (written writes).find contract start ↔
        start <+: entry.key ∧ lastPut writes ⟨contract, entry.key⟩ = some entry.value :=
    mem_find.trans (and_congr_right fun _ ↦ mem_written_iff writes)
  have hkeys (start key : Bytes) :
      key ∈ ((written writes).find contract start).map (·.key) ↔
        start <+: key ∧ ∃ value, .put contract key value ∈ writes := by
    rw [← exists_lastPut_iff, List.mem_map]
    constructor
    · rintro ⟨entry, hentry, rfl⟩
      obtain ⟨hstart, hlast⟩ := (hlisted start entry).mp hentry
      exact ⟨hstart, entry.value, hlast⟩
    · rintro ⟨hstart, value, hlast⟩
      exact ⟨⟨key, value⟩, (hlisted start ⟨key, value⟩).mpr ⟨hstart, hlast⟩, rfl⟩
  refine ⟨find_ordered _ _ _, hkeys start, hlisted start, storageOf_ordered _ _, fun key ↦ ?_,
    fun entry ↦ ?_⟩
  · exact (hkeys [] key).trans (and_iff_right List.nil_prefix)
  · exact (hlisted [] entry).trans (and_iff_right List.nil_prefix)

end Snapshot

end ScriptTrace
