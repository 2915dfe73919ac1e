import ScriptTrace.Record
import ScriptTrace.Script.Package
import ScriptTrace.Table

/-!
The state of the chain at one moment: the deployed contracts and the storage of each. Storage is
kept in ascending order of contract number and then of key, byte by byte, and a scan for keys with a
common start reads one stretch of it. A contract is found under its own hash only.
-/

set_option autoImplicit false

namespace ScriptTrace

/-- Where a storage entry is kept. -/
structure StorageKey where
  contract : Int32
  key : Bytes
deriving DecidableEq

/-- The order of storage: by contract number, then by key. -/
def StorageKey.lt (a b : StorageKey) : Bool :=
  decide (a.contract < b.contract) || (a.contract == b.contract && decide (a.key < b.key))

namespace StorageKey

theorem lt_iff {a b : StorageKey} : a.lt b ↔
    a.contract < b.contract ∨ a.contract = b.contract ∧ a.key < b.key := by
  simp [lt]

theorem lt_irrefl (a : StorageKey) : ¬ a.lt a := by
  rw [lt_iff]
  rintro (hcontract | ⟨-, hkey⟩)
  · exact Int32.lt_irrefl hcontract
  · exact List.lt_irrefl a.key hkey

theorem lt_trans {a b c : StorageKey} (hab : a.lt b) (hbc : b.lt c) : a.lt c := by
  rw [lt_iff] at *
  rcases hab with hab | ⟨hab, hkeys⟩
  · rcases hbc with hbc | ⟨hbc, -⟩
    · exact .inl (Int32.lt_trans hab hbc)
    · exact .inl (hbc ▸ hab)
  · rcases hbc with hbc | ⟨hbc, hkeys'⟩
    · exact .inl (hab ▸ hbc)
    · exact .inr ⟨hab.trans hbc, List.lt_trans hkeys hkeys'⟩

/-- Of two keys one comes first. -/
theorem lt_of_not_lt {a b : StorageKey} (hne : a ≠ b) (h : ¬ b.lt a) : a.lt b := by
  obtain ⟨contract, key⟩ := a
  obtain ⟨contract', key'⟩ := b
  rw [lt_iff] at *
  have hcontract : contract ≤ contract' := Int32.not_lt.mp fun hlt => h (.inl hlt)
  rcases Int32.lt_or_eq_of_le hcontract with hlt | rfl
  · exact .inl hlt
  · refine .inr ⟨rfl, Decidable.byContradiction fun hkey => hne ?_⟩
    have hkey' : ¬ key' < key := fun hlt => h (.inr ⟨rfl, hlt⟩)
    rw [List.le_antisymm (List.not_lt.mp hkey') (List.not_lt.mp hkey)]

end StorageKey

/-- Contracts and storage at one moment. -/
structure Snapshot where
  contracts : Table Hash Contract
  storage : List (StorageKey × Bytes)
  hash_eq : ∀ hash contract, contracts.get? hash = some contract → contract.hash = hash
  /-- Storage is in ascending order of key. -/
  ordered : storage.Pairwise fun p q => p.1.lt q.1

namespace Snapshot

/-- The state without contracts and storage. -/
def empty : Snapshot := ⟨Table.empty, [], nofun, .nil⟩

instance : Inhabited Snapshot := ⟨empty⟩

/-- Deploy a contract in place of one with the same hash. -/
def deploy (s : Snapshot) (c : Contract) : Snapshot where
  contracts := s.contracts.set c.hash c
  storage := s.storage
  hash_eq hash contract hfound := by
    rw [Table.get?_set] at hfound
    split at hfound
    · rename_i heq
      exact (congrArg Contract.hash (Option.some.inj hfound)).symm.trans heq
    · exact s.hash_eq hash contract hfound
  ordered := s.ordered

/-- The contract deployed under a hash. -/
def contract? (s : Snapshot) (hash : Hash) : Option Contract := s.contracts.get? hash

/-- Insert or replace an entry, keeping the order. -/
def insert (key : StorageKey) (value : Bytes) :
    List (StorageKey × Bytes) → List (StorageKey × Bytes)
  | [] => [(key, value)]
  | (k, v) :: rest =>
    if k = key then (key, value) :: rest
    else if key.lt k then (key, value) :: (k, v) :: rest
    else (k, v) :: insert key value rest

theorem mem_of_mem_insert {key : StorageKey} {value : Bytes} {ps : List (StorageKey × Bytes)}
    {p : StorageKey × Bytes} (hp : p ∈ insert key value ps) : p = (key, value) ∨ p ∈ ps := by
  induction ps with
  | nil => exact .inl (List.mem_singleton.mp hp)
  | cons q rest ih =>
    obtain ⟨k, v⟩ := q
    rw [insert] at hp
    split at hp
    · exact (List.mem_cons.mp hp).imp id (List.mem_cons_of_mem _)
    · split at hp
      · exact List.mem_cons.mp hp
      · rcases List.mem_cons.mp hp with rfl | hrest
        · exact .inr List.mem_cons_self
        · exact (ih hrest).imp id (List.mem_cons_of_mem _)

theorem ordered_insert {key : StorageKey} {value : Bytes} {ps : List (StorageKey × Bytes)}
    (h : ps.Pairwise fun p q => p.1.lt q.1) :
    (insert key value ps).Pairwise fun p q => p.1.lt q.1 := by
  induction ps with
  | nil => exact List.pairwise_singleton _ _
  | cons q rest ih =>
    obtain ⟨k, v⟩ := q
    obtain ⟨hfirst, hrest⟩ := List.pairwise_cons.mp h
    rw [insert]
    split
    · rename_i hsame
      exact List.pairwise_cons.mpr ⟨hsame ▸ hfirst, hrest⟩
    · rename_i hne
      split
      · rename_i hlt
        refine List.pairwise_cons.mpr ⟨fun p hp => ?_, h⟩
        rcases List.mem_cons.mp hp with rfl | hlater
        · exact hlt
        · exact StorageKey.lt_trans hlt (hfirst p hlater)
      · rename_i hnot
        refine List.pairwise_cons.mpr ⟨fun p hp => ?_, ih hrest⟩
        rcases mem_of_mem_insert hp with rfl | hlater
        · exact StorageKey.lt_of_not_lt hne hnot
        · exact hfirst p hlater

/-- Store a value under a key of a contract. -/
def put (s : Snapshot) (contract : Int32) (key value : Bytes) : Snapshot :=
  { s with
    storage := insert ⟨contract, key⟩ value s.storage
    ordered := ordered_insert s.ordered }

/-- The entries of a contract whose keys begin with `start`, in ascending order of key. -/
def find (s : Snapshot) (contract : Int32) (start : Bytes) : List StorageEntry :=
  let rest := s.storage.dropWhile fun (k, _) => k.lt ⟨contract, start⟩
  let run := rest.takeWhile fun (k, _) => k.contract == contract && start.isPrefixOf k.key
  run.map fun (k, v) => ⟨k.key, v⟩

/-- All entries of a contract. -/
def storageOf (s : Snapshot) (contract : Int32) : List StorageEntry := s.find contract []

end Snapshot

end ScriptTrace
