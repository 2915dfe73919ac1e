import Mathlib.Data.List.Induction
import Mathlib.Logic.Function.Basic
import ScriptTrace.Proofs.Trace.Capture

/-!
The names of contracts. The clones of a cache refer to one table, so whichever clone is asked, a
hash is looked up when it is first resolved and never again (`Clones.agrees_after`), and the name it
had then is answered from then on, whatever other snapshots say. An engine with a fresh cache that
writes to memory resolves names in the snapshot of its machine only, so the names it hands over are
those of the scripts of its lines and events, one for each (`names_resolved_once`).
-/

set_option autoImplicit false
set_option relaxedAutoImplicit false

namespace ScriptTrace

/-- The name of a hash where some contracts are deployed, which is empty if it is not one of
them. -/
def nameIn (contract? : Hash → Option Contract) (hash : Hash) : String :=
  ((contract? hash).map Contract.name).getD ""

namespace NameCache

section Resolve

variable {m : Type → Type} [Monad m] {contract? : Hash → m (Option Contract)} {hash : Hash}
  {c : NameCache}

/-- A name that is known is answered without a lookup. -/
theorem resolve_of_known {name : String} (h : c.get? hash = some name) :
    c.resolve contract? hash = pure (name, c) := by
  have hknown : c.names.get? hash = some name := h
  simp only [resolve, hknown]

/-- A name that is not known is looked up and kept. -/
theorem resolve_of_unknown (h : c.get? hash = none) :
    c.resolve contract? hash = contract? hash >>= fun found ↦
      let name := (found.map Contract.name).getD ""
      pure (name, ⟨c.names.set hash name⟩) := by
  have hunknown : c.names.get? hash = none := h
  simp only [resolve, hunknown]
  refine congrArg (contract? hash >>= ·) (funext fun found ↦ ?_)
  cases found <;> rfl

end Resolve

/-! ### Clones -/

/-- A cache and its clones, by number; the cache itself has number 0. Each of them is a reference to
a table of names, and `lookups` counts the contracts looked up in all snapshots. -/
structure Clones where
  tables : Nat → NameCache
  references : List Nat
  lookups : Nat

/-- A call on a cache or a clone of it. -/
inductive CloneCall where
  /-- Copy the reference of a clone. -/
  | clone (number : Nat)
  | resolve (number : Nat) (contract? : Hash → Option Contract) (hash : Hash)
  | get (number : Nat) (hash : Hash)
  | size (number : Nat)

inductive CloneAnswer where
  /-- There is a new clone of this number. -/
  | cloned (number : Nat)
  | resolved (name : String)
  | found (name : Option String)
  | counted (size : Nat)
deriving DecidableEq

namespace Clones

/-- A fresh cache without clones. -/
def fresh : Clones := ⟨fun _ ↦ .empty, [0], 0⟩

/-- The table that a clone refers to; a number that no clone has stands for the cache. -/
def reference (s : Clones) (number : Nat) : Nat := s.references.getD number 0

/-- The names that a clone knows. -/
def cache (s : Clones) (number : Nat) : NameCache := s.tables (s.reference number)

/-- A lookup of a contract that is counted. -/
def counting (contract? : Hash → Option Contract) (hash : Hash) : StateM Nat (Option Contract) := do
  modify (· + 1)
  return contract? hash

/-- The answer of a call and what it leaves behind. -/
def perform (s : Clones) : CloneCall → CloneAnswer × Clones
  | .clone number =>
    (.cloned s.references.length,
      { s with references := s.references ++ [s.reference number] })
  | .resolve number contract? hash =>
    let ((name, cache), lookups) :=
      ((s.cache number).resolve (counting contract?) hash).run s.lookups
    (.resolved name,
      { s with tables := Function.update s.tables (s.reference number) cache, lookups := lookups })
  | .get number hash => (.found ((s.cache number).get? hash), s)
  | .size number => (.counted (s.cache number).size, s)

/-- What calls on a fresh cache and its clones leave behind. -/
def after (calls : List CloneCall) : Clones := calls.foldl (fun s call ↦ (s.perform call).2) fresh

/-- The hash that a call resolves, with the name it has in the snapshot of the call. -/
def resolution? : CloneCall → Option (Hash × String)
  | .resolve _ contract? hash => some (hash, nameIn contract? hash)
  | _ => none

/-- The hashes that calls resolve, with the name that each has in the snapshot of its call. -/
def resolutions (calls : List CloneCall) : List (Hash × String) := calls.filterMap resolution?

/-- The distinct hashes that calls resolve. -/
def resolvedHashes (calls : List CloneCall) : List Hash :=
  ((resolutions calls).map Prod.fst).eraseDups

/-- The name of a hash in the snapshot of the call that resolved it first. -/
def firstName? (calls : List CloneCall) (hash : Hash) : Option String :=
  Table.find hash (resolutions calls)

/-- All clones know the names of the hashes that calls resolved, as of the first call for each, and
so many contracts were looked up. -/
structure Agrees (calls : List CloneCall) (s : Clones) : Prop where
  references : ∀ reference ∈ s.references, reference = 0
  keys : (s.tables 0).names.keys = resolvedHashes calls
  names : ∀ hash, (s.tables 0).get? hash = firstName? calls hash
  lookups : s.lookups = (resolvedHashes calls).length

section Agrees

variable {calls : List CloneCall} {s : Clones} (h : Agrees calls s)
include h

/-- All clones refer to the table of the cache. -/
theorem Agrees.reference_eq (number : Nat) : s.reference number = 0 := by
  unfold reference
  rw [List.getD_eq_getElem?_getD]
  cases hnumber : s.references[number]? with
  | none => rfl
  | some reference => exact h.references reference (List.mem_of_getElem? hnumber)

theorem Agrees.cache_eq (number : Nat) : s.cache number = s.tables 0 := by
  rw [cache, h.reference_eq]

theorem Agrees.size_eq (number : Nat) : (s.cache number).size = (resolvedHashes calls).length := by
  rw [h.cache_eq, ← h.keys, Table.keys, List.length_map]
  rfl

theorem Agrees.get?_eq (number : Nat) (hash : Hash) :
    (s.cache number).get? hash = firstName? calls hash := by
  rw [h.cache_eq, h.names]

end Agrees

theorem agrees_fresh : Agrees [] fresh :=
  ⟨fun _ hmem ↦ List.mem_singleton.mp hmem, rfl, fun _ ↦ rfl, rfl⟩

theorem resolutions_concat (calls : List CloneCall) (call : CloneCall) :
    resolutions (calls ++ [call]) = resolutions calls ++ (resolution? call).toList := by
  rw [resolutions, List.filterMap_append]
  cases h : resolution? call <;> simp [resolutions, h]

/-- A call that resolves nothing. -/
theorem Agrees.silent {calls : List CloneCall} {s : Clones} (h : Agrees calls s) {call : CloneCall}
    (hnone : resolution? call = none) : Agrees (calls ++ [call]) s := by
  have hsame : resolutions (calls ++ [call]) = resolutions calls := by
    rw [resolutions_concat, hnone, Option.toList_none, List.append_nil]
  have hkeys : resolvedHashes (calls ++ [call]) = resolvedHashes calls := by
    rw [resolvedHashes, hsame, resolvedHashes]
  refine ⟨h.references, h.keys.trans hkeys.symm, fun hash ↦ ?_, ?_⟩
  · rw [h.names, firstName?, firstName?, hsame]
  · rw [h.lookups, hkeys]

/-- A hash that was resolved before. -/
theorem perform_resolve_of_known {s : Clones} {number : Nat} {hash : Hash} {name : String}
    (h : (s.cache number).get? hash = some name) (contract? : Hash → Option Contract) :
    s.perform (.resolve number contract? hash) = (.resolved name, s) := by
  have hsame : Function.update s.tables (s.reference number) (s.cache number) = s.tables :=
    Function.update_eq_self _ _
  simp only [perform, resolve_of_known h]
  exact congrArg (fun tables ↦ (CloneAnswer.resolved name, { s with tables := tables })) hsame

/-- A hash that was not. -/
theorem perform_resolve_of_unknown {s : Clones} {number : Nat} {hash : Hash}
    (h : (s.cache number).get? hash = none) (contract? : Hash → Option Contract) :
    s.perform (.resolve number contract? hash) =
      (.resolved (nameIn contract? hash),
        { s with
          tables := Function.update s.tables (s.reference number)
            ⟨(s.cache number).names.set hash (nameIn contract? hash)⟩
          lookups := s.lookups + 1 }) := by
  simp only [perform, resolve_of_unknown h]
  rfl

section Resolve

variable (calls : List CloneCall) (number : Nat) (contract? : Hash → Option Contract) (hash : Hash)

/-- One more resolution gives its hash a name unless the hash has one. -/
theorem firstName?_resolve (other : Hash) :
    firstName? (calls ++ [.resolve number contract? hash]) other =
      (firstName? calls other).or
        (if hash = other then some (nameIn contract? hash) else none) := by
  rw [firstName?, resolutions_concat, Table.find_append]
  rfl

theorem resolvedHashes_resolve :
    resolvedHashes (calls ++ [.resolve number contract? hash]) =
      if hash ∈ (resolutions calls).map Prod.fst then resolvedHashes calls
      else resolvedHashes calls ++ [hash] := by
  rw [resolvedHashes, resolutions_concat, List.map_append, List.eraseDups_append]
  change _ ++ ([hash].removeAll _).eraseDups = _
  split
  · rename_i hmem
    have hnone : [hash].removeAll ((resolutions calls).map Prod.fst) = [] := by
      simp [List.removeAll, List.mem_map.mp hmem]
    rw [hnone, List.eraseDups_nil, List.append_nil, resolvedHashes]
  · rename_i hnotMem
    have hall : [hash].removeAll ((resolutions calls).map Prod.fst) = [hash] := by
      rw [List.removeAll, List.filter_eq_self]
      simpa using hnotMem
    rw [hall]
    rfl

variable {calls hash}

theorem resolvedHashes_of_new (hnew : firstName? calls hash = none) :
    resolvedHashes (calls ++ [.resolve number contract? hash]) =
      resolvedHashes calls ++ [hash] := by
  rw [resolvedHashes_resolve, if_neg]
  intro hmem
  obtain ⟨p, hp, hhash⟩ := List.mem_map.mp hmem
  exact Table.ne_of_find hnew hp hhash

theorem resolvedHashes_of_known {name : String} (hknown : firstName? calls hash = some name) :
    resolvedHashes (calls ++ [.resolve number contract? hash]) = resolvedHashes calls := by
  rw [resolvedHashes_resolve, if_pos (Table.mem_keys_of_find hknown)]

/-- A hash that is resolved for the first time is looked up and keeps the name it has then. -/
theorem Agrees.resolve_new {s : Clones} (h : Agrees calls s)
    (hnew : firstName? calls hash = none) :
    Agrees (calls ++ [.resolve number contract? hash])
      (s.perform (.resolve number contract? hash)).2 := by
  have hnone : (s.tables 0).names.get? hash = none := (h.names hash).trans hnew
  have hnotKey : hash ∉ (s.tables 0).names.entries.map (·.1) := by
    intro hmem
    obtain ⟨p, hp, hhash⟩ := List.mem_map.mp hmem
    exact Table.ne_of_find hnone hp hhash
  rw [perform_resolve_of_unknown ((h.get?_eq number hash).trans hnew), h.reference_eq, h.cache_eq]
  refine ⟨h.references, ?_, fun other ↦ ?_, ?_⟩
  · dsimp only
    rw [Function.update_self, resolvedHashes_of_new _ _ hnew, ← h.keys, Table.keys, Table.set,
      Table.map_fst_put, if_neg hnotKey, Table.keys]
  · dsimp only
    rw [Function.update_self, firstName?_resolve, get?, Table.get?_set, ← h.names]
    by_cases hother : hash = other
    · subst hother
      rw [get?, hnone, if_pos rfl, Option.none_or]
    · rw [if_neg hother, if_neg hother, Option.or_none]
      rfl
  · rw [resolvedHashes_of_new _ _ hnew, List.length_append]
    exact congrArg (· + 1) h.lookups

/-- A hash that was resolved before is not looked up again. -/
theorem Agrees.resolve_again {s : Clones} (h : Agrees calls s) {name : String}
    (hknown : firstName? calls hash = some name) :
    Agrees (calls ++ [.resolve number contract? hash])
      (s.perform (.resolve number contract? hash)).2 := by
  have hkeys := resolvedHashes_of_known number contract? hknown
  rw [perform_resolve_of_known ((h.get?_eq number hash).trans hknown)]
  refine ⟨h.references, h.keys.trans hkeys.symm, fun other ↦ ?_, by rw [h.lookups, hkeys]⟩
  rw [h.names, firstName?_resolve]
  by_cases hother : hash = other
  · subst hother
    rw [hknown, Option.some_or]
  · rw [if_neg hother, Option.or_none]

end Resolve

/-- Every call leaves the clones in agreement with the calls. -/
theorem Agrees.perform {calls : List CloneCall} {s : Clones} (h : Agrees calls s)
    (call : CloneCall) : Agrees (calls ++ [call]) (s.perform call).2 := by
  cases call with
  | clone number =>
    have hcopied : Agrees calls (s.perform (.clone number)).2 := by
      refine ⟨fun reference hmem ↦ ?_, h.keys, h.names, h.lookups⟩
      rcases List.mem_append.mp hmem with hold | hnew
      · exact h.references reference hold
      · rw [List.mem_singleton.mp hnew, h.reference_eq]
    exact hcopied.silent rfl
  | resolve number contract? hash =>
    cases hname : firstName? calls hash with
    | none => exact h.resolve_new number contract? hname
    | some name => exact h.resolve_again number contract? hname
  | get number hash => exact h.silent rfl
  | size number => exact h.silent rfl

/-- Whatever was called on the clones of a fresh cache, they agree with the calls. -/
theorem agrees_after (calls : List CloneCall) : Agrees calls (after calls) := by
  induction calls using List.reverseRecOn with
  | nil => exact agrees_fresh
  | append_singleton earlier last ih =>
    rw [after, List.foldl_append]
    exact ih.perform last

/-- What a call answers after others: the name of the first resolution of the hash, whatever the
snapshot of the call. -/
theorem Agrees.resolve_eq {calls : List CloneCall} {s : Clones} (h : Agrees calls s) (number : Nat)
    (contract? : Hash → Option Contract) (hash : Hash) :
    (s.perform (.resolve number contract? hash)).1 =
      .resolved ((firstName? calls hash).getD (nameIn contract? hash)) := by
  have hfound := h.get?_eq number hash
  cases hname : firstName? calls hash with
  | none => rw [perform_resolve_of_unknown (hfound.trans hname)]; rfl
  | some name => rw [perform_resolve_of_known (hfound.trans hname)]; rfl

end Clones

end NameCache

/-! ### Names in memory -/

namespace MemorySink

/-- Since some state of a sink in memory, each record of a line or an event came with the name of
its script in a snapshot, and all names that are known are of this snapshot. -/
def Named (snapshot : Snapshot) (before : MemorySink) (names : NameCache) (s : MemorySink) : Prop :=
  (∀ hash name, names.get? hash = some name → name = nameIn snapshot.contract? hash) ∧
    ∃ more, s.records = before.records ++ more ∧
      s.names = before.names ++ (more.filterMap Record.caller?).map (nameIn snapshot.contract?)

variable {snapshot : Snapshot} {before : MemorySink}

/-- The name that is looked up for a hash is the one it has in the snapshot. -/
theorem Named.named {r : TraceRecorder} {s : MemorySink} (h : Named snapshot before r.names s)
    {view : View} (hview : view.snapshot = snapshot) (hash : Hash) :
    (r.named view hash).1 = nameIn snapshot.contract? hash ∧
      Named snapshot before (r.named view hash).2 s := by
  obtain ⟨hnames, hrecords⟩ := h
  cases hknown : r.names.get? hash with
  | some name =>
    have hfound : r.named view hash = (name, r.names) := by
      rw [TraceRecorder.named, NameCache.resolve_of_known hknown]
      rfl
    rw [hfound]
    exact ⟨hnames hash name hknown, hnames, hrecords⟩
  | none =>
    have hfound : r.named view hash =
        (nameIn snapshot.contract? hash,
          ⟨r.names.names.set hash (nameIn snapshot.contract? hash)⟩) := by
      rw [← hview, TraceRecorder.named, NameCache.resolve_of_unknown hknown]
      rfl
    rw [hfound]
    refine ⟨rfl, fun other name hother ↦ ?_, hrecords⟩
    rw [NameCache.get?, Table.get?_set] at hother
    split at hother
    · rename_i hsame
      exact hsame ▸ (Option.some.inj hother).symm
    · exact hnames other name hother

/-- Records in memory, each with its name. -/
theorem upholds_named (ω : Type) (snapshot : Snapshot) (before : MemorySink) :
    (sink.onFirst : Sink (MemorySink × ω)).Upholds (·.snapshot = snapshot)
      fun names s ↦ Named snapshot before names s.1 where
  write names record s hrecord h := by
    obtain ⟨hnames, more, hrecords, hhanded⟩ := h
    refine ⟨hnames, more ++ [record], ?_, ?_⟩
    · show s.1.records ++ [record] = _
      rw [hrecords, List.append_assoc]
    · show s.1.names = _
      rw [hhanded, List.filterMap_append, List.filterMap_cons_none hrecord, List.filterMap_nil,
        List.append_nil]
  named r view hash record s hview hrecord h := by
    obtain ⟨hname, hnames, more, hrecords, hhanded⟩ := h.named hview hash
    refine ⟨hnames, more ++ [record], ?_, ?_⟩
    · show s.1.records ++ [record] = _
      rw [hrecords, List.append_assoc]
    · show s.1.names ++ [(r.named view hash).1] = _
      rw [hhanded, hname, List.filterMap_append, List.filterMap_cons_some hrecord,
        List.filterMap_nil, List.map_append, List.append_assoc, List.map_singleton]

end MemorySink

/-! ### Engines -/

/-- Assumes: a condition that the records of a sink and its flushes uphold while the machine has its
snapshot. Calls on a new engine leave it true, whatever comes of them and whatever other observers
do. -/
theorem TraceEngine.exists_performEach_upheld {τ ω : Type} {sink : Sink τ}
    {inv : NameCache → τ → Prop} {session : Session StackMachine ω}
    (hsink : (sink.onFirst : Sink (τ × ω)).Upholds (·.snapshot = session.machine.snapshot)
      fun names s ↦ inv names s.1)
    (hflush : ∀ names t, inv names t → Ends sink.flush t (fun _ ↦ inv names) fun _ ↦ inv names)
    (config : TraceConfig) {names : NameCache} (checker : Option WitnessChecker) {t : τ}
    (hinv : inv names t) (calls : List EngineCall) (host : ω) :
    ∃ answers e t₁ host₁ names₁, EngineCall.performEach sink.onFirst calls
        (start sink.onFirst config names checker session.widen, (t, host)) =
          .ok answers (e, (t₁, host₁)) ∧ inv names₁ t₁ := by
  let upheld : TraceRecorder × τ × ω → Prop :=
    TraceRecorder.Upheld fun names s ↦ inv names s.1
  let L : Likeness (TraceRecorder × τ × ω) (TraceRecorder × τ × ω) := .alone upheld
  have hobservers : List.Forall₂ (fun o o' ↦ o.2.Matches L (fun _ ↦ True)
      (fun n ↦ n.1.snapshot = session.machine.snapshot) o'.2)
      (observers sink.onFirst session) (observers sink.onFirst session) := by
    refine List.forall₂_same.mpr fun o ho view event host hview hhost ↦ Ends.matches ?_ _
    rcases List.mem_append.mp ho with hother | hrecorder
    · obtain ⟨p, -, rfl⟩ := List.mem_map.mp hother
      exact .onSecond (.onSecond (.of_cases (fun _ _ _ ↦ hhost) fun _ _ _ ↦ hhost))
    · rw [List.mem_singleton.mp hrecorder]
      exact TraceRecorder.observer_upholds hsink hhost hview event
  have hclose (s : TraceRecorder × τ × ω) (hs : L.sound s) :
      Matches L (fun _ ↦ True) (onSecond sink.onFirst.flush) (onSecond sink.onFirst.flush) s :=
    Ends.matches (.onSecond (.onFirst (hflush s.1.names s.2.1 hs))) _
  let start := start sink.onFirst config names checker session.widen
  have hbegin : (L.engine (·.snapshot = session.machine.snapshot)
      (Engine.witnessed checker session.overrides) (observers sink.onFirst session)
      (observers sink.onFirst session)).sound (start, (t, host)) := by
    refine ⟨?_, fun _ ↦ ?_⟩
    · dsimp only [start]
      rw [recorder_start]
      exact hinv
    · dsimp only [start]
      rw [session_start]
      exact ⟨rfl, rfl, rfl⟩
  obtain ⟨answers, ⟨e, t₁, host₁⟩, hrun, hend, -⟩ :=
    Matches.attempts (fun call _ hs ↦ call.matches_perform hobservers hclose
      (StackMachine.preserved_snapshot _ _) trivial hs) calls hbegin
  exact ⟨answers, e, t₁, host₁, e.recorder.names, hrun, hend.1⟩

/-- Whatever is called on a fresh cache and its clones, with any snapshots, each hash is looked up
once, so that the number of lookups is that of the distinct hashes resolved and the size that every
clone answers; and every clone answers for a hash the name it had in the snapshot of its first
resolution. An engine with a fresh cache and a sink in memory hands over, for each record of a line
or an event, the name of its script in the snapshot of its machine, whatever comes of its calls and
whatever other observers do. -/
theorem names_resolved_once :
    (∀ calls : List NameCache.CloneCall,
      let s := NameCache.Clones.after calls
      let first := NameCache.Clones.firstName? calls
      let distinct := (NameCache.Clones.resolvedHashes calls).length
      s.lookups = distinct ∧ ∀ number,
        (s.perform (.size number)).1 = .counted distinct ∧
          ∀ hash, (s.perform (.get number hash)).1 = .found (first hash) ∧
            ∀ contract?, (s.perform (.resolve number contract? hash)).1 =
              .resolved ((first hash).getD (nameIn contract? hash))) ∧
      ∀ (ω : Type) (config : TraceConfig) (checker : Option WitnessChecker)
        (session : Session StackMachine ω) (calls : List EngineCall) (before : MemorySink)
        (host : ω), ∃ answers e t host' more,
          EngineCall.performEach MemorySink.sink.onFirst calls
            (TraceEngine.start MemorySink.sink.onFirst config .empty checker session.widen,
              (before, host)) = .ok answers (e, (t, host')) ∧
          t.records = before.records ++ more ∧
          t.names = before.names ++
            (more.filterMap Record.caller?).map (nameIn session.machine.snapshot.contract?) := by
  constructor
  · intro calls s first distinct
    have hagrees := NameCache.Clones.agrees_after calls
    refine ⟨hagrees.lookups, fun number ↦ ⟨?_, fun hash ↦ ⟨?_, fun contract? ↦ ?_⟩⟩⟩
    · exact congrArg NameCache.CloneAnswer.counted (hagrees.size_eq number)
    · exact congrArg NameCache.CloneAnswer.found (hagrees.get?_eq number hash)
    · exact hagrees.resolve_eq number contract? hash
  · intro ω config checker session calls before host
    have hbegin : MemorySink.Named session.machine.snapshot before .empty before :=
      ⟨nofun, [], (List.append_nil _).symm, (List.append_nil _).symm⟩
    obtain ⟨answers, e, t, host', _, hrun, -, more, hrecords, hnames⟩ :=
      TraceEngine.exists_performEach_upheld (MemorySink.upholds_named ω _ before)
        (fun _ _ h ↦ Ends.pure h) config checker hbegin calls host
    exact ⟨answers, e, t, host', more, hrun, hrecords, hnames⟩

end ScriptTrace
