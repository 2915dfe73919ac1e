import Mathlib.Algebra.BigOperators.Finprod
import ScriptTrace.Coverage.Engine
import ScriptTrace.Proofs.Coverage.Log
import ScriptTrace.Proofs.Session.Drive
import ScriptTrace.Proofs.StackMachine.Turns

/-!
The counts of a coverage session and its log tell the same. The recorder takes the script of an
instruction from the machine, the log from its last hash line, and both agree because every push and
every pop of a frame writes the hash line of the script that becomes current. `Tracks` is this
agreement for a recorder, the lines of its log and the scripts on the call stack; each event keeps
it, hence each move and each list of calls (`drive_hitCount`).
-/

set_option autoImplicit false
set_option relaxedAutoImplicit false

namespace ScriptTrace

namespace CoverageRecorder

open CoverageLine CoverageWriter

/-- The counts of a recorder are those of the lines of a log, `total` in all; the last hash line is
that of the top one of some scripts, the recorder knows each of them, and whatever it knows under a
hash has this hash. -/
structure Tracks (r : CoverageRecorder) (lines : List CoverageLine) (total : ℕ)
    (hashes : List Hash) : Prop where
  hitCount_eq : ∀ hash position, r.hitCount hash position = attributed hash position lines
  finsum_eq : ∑ᶠ k : Hash × ℕ, r.hitCount k.1 k.2 = total
  lastScript_eq : ∀ hash ∈ hashes.head?, lastScript? lines = some hash
  executed : ∀ hash ∈ hashes, (r.executed.get? hash).isSome
  hash_eq : ∀ hash script, r.executed.get? hash = some script → script.hash = hash

/-! ### Counting -/

/-- A hit is counted once, for its script and position. -/
theorem hitCount_set (r : CoverageRecorder) (hash other : Hash) (position place : ℕ) :
    hitCount { r with hits := r.hits.set (hash, position) (r.hitCount hash position + 1) } other
        place =
      r.hitCount other place + if (other, place) = (hash, position) then 1 else 0 := by
  rw [hitCount, Table.get?_set]
  by_cases heq : (hash, position) = (other, place)
  · obtain ⟨rfl, rfl⟩ := Prod.mk.inj heq
    rw [if_pos rfl, if_pos rfl]
    rfl
  · rw [if_neg heq, if_neg (Ne.symm heq)]
    rfl

theorem finite_support_hitCount (r : CoverageRecorder) :
    (Function.support fun k : Hash × ℕ ↦ r.hitCount k.1 k.2).Finite := by
  refine (List.finite_toSet r.hits.keys).subset fun k hk ↦ ?_
  cases hfind : r.hits.get? k with
  | none =>
    refine absurd ?_ hk
    change (r.hits.get? k).getD 0 = 0
    rw [hfind]
    rfl
  | some count => exact Table.mem_keys hfind

theorem finsum_hitCount_set (r : CoverageRecorder) (hash : Hash) (position : ℕ) :
    ∑ᶠ k : Hash × ℕ, hitCount
        { r with hits := r.hits.set (hash, position) (r.hitCount hash position + 1) } k.1 k.2 =
      ∑ᶠ k : Hash × ℕ, r.hitCount k.1 k.2 + 1 := by
  have hsingle : ∀ k : Hash × ℕ, k ≠ (hash, position) →
      (if k = (hash, position) then 1 else 0) = 0 := fun k hk ↦ if_neg hk
  have hfinite : (Function.support fun k : Hash × ℕ ↦
      if k = (hash, position) then 1 else 0).Finite := by
    refine (Set.finite_singleton (hash, position)).subset fun k hk ↦ ?_
    by_contra hne
    exact hk (hsingle k hne)
  simp only [hitCount_set, Prod.mk.eta]
  rw [finsum_add_distrib r.finite_support_hitCount hfinite, finsum_eq_single _ _ hsingle,
    if_pos rfl]

/-! ### Lines -/

namespace Tracks

/-- A recorder that has seen nothing. -/
theorem ofWriter (w : CoverageWriter) : Tracks (.ofWriter w) [] 0 [] where
  hitCount_eq _ _ := rfl
  finsum_eq := finsum_zero
  lastScript_eq _ hmem := absurd hmem (Option.not_mem_none _)
  executed _ hmem := absurd hmem List.not_mem_nil
  hash_eq _ _ hfound := nomatch hfound

variable {r r' : CoverageRecorder} {lines : List CoverageLine} {total : ℕ}
  {hashes hashes' : List Hash}

/-- A recorder with the same hits and scripts. -/
theorem congr (h : Tracks r lines total hashes) (hhits : r'.hits = r.hits)
    (hexecuted : r'.executed = r.executed) : Tracks r' lines total hashes := by
  have hcount : r'.hitCount = r.hitCount := by
    funext hash position
    rw [hitCount, hitCount, hhits]
  obtain ⟨hitCount_eq, finsum_eq, lastScript_eq, executed, hash_eq⟩ := h
  rw [← hcount] at hitCount_eq finsum_eq
  rw [← hexecuted] at executed hash_eq
  exact ⟨hitCount_eq, finsum_eq, lastScript_eq, executed, hash_eq⟩

/-- A script becomes known under its hash. -/
theorem learn (h : Tracks r lines total hashes) (script : ExecutedScript) :
    Tracks { r with executed := r.executed.set script.hash script } lines total hashes where
  hitCount_eq := h.hitCount_eq
  finsum_eq := h.finsum_eq
  lastScript_eq := h.lastScript_eq
  executed hash hmem := by
    rw [Table.get?_set]
    split
    · rfl
    · exact h.executed hash hmem
  hash_eq hash other hfound := by
    rw [Table.get?_set] at hfound
    split at hfound
    · rename_i heq
      exact (congrArg ExecutedScript.hash (Option.some.inj hfound)).symm.trans heq
    · exact h.hash_eq hash other hfound

/-- The call stack is given up. -/
theorem empty (h : Tracks r lines total hashes) : Tracks r lines total [] where
  hitCount_eq := h.hitCount_eq
  finsum_eq := h.finsum_eq
  lastScript_eq _ hmem := absurd hmem (Option.not_mem_none _)
  executed _ hmem := absurd hmem List.not_mem_nil
  hash_eq := h.hash_eq

/-- A hash line is written when the scripts on the call stack change. -/
theorem current (h : Tracks r lines total hashes) {hash : Hash}
    (htop : ∀ top ∈ hashes'.head?, top = hash)
    (hknown : ∀ hash ∈ hashes', (r.executed.get? hash).isSome) :
    Tracks r (lines ++ [.current hash]) total hashes' where
  hitCount_eq other position := by
    rw [h.hitCount_eq, attributed_append, if_neg fun hline ↦ CoverageLine.noConfusion hline.1,
      Nat.add_zero]
  finsum_eq := h.finsum_eq
  lastScript_eq top hmem := by
    rw [lastScript?_append, htop top hmem]
    rfl
  executed := hknown
  hash_eq := h.hash_eq

/-- A branch line is written. -/
theorem branch (h : Tracks r lines total hashes) (position target outcome : ℕ) :
    Tracks r (lines ++ [.branch position target outcome]) total hashes where
  hitCount_eq other place := by
    rw [h.hitCount_eq, attributed_append, if_neg fun hline ↦ CoverageLine.noConfusion hline.1,
      Nat.add_zero]
  finsum_eq := h.finsum_eq
  lastScript_eq top hmem := by
    rw [lastScript?_append, h.lastScript_eq top hmem]
    rfl
  executed := h.executed
  hash_eq := h.hash_eq

/-- An address line is written and counted for the script on top. -/
theorem address {hash : Hash} (h : Tracks r lines total (hash :: hashes)) (position : ℕ) :
    Tracks { r with hits := r.hits.set (hash, position) (r.hitCount hash position + 1) }
      (lines ++ [.address position]) (total + 1) (hash :: hashes) where
  hitCount_eq other place := by
    have hline : (CoverageLine.address position = .address place ∧ lastScript? lines = some other) ↔
        (other, place) = (hash, position) := by
      rw [h.lastScript_eq hash rfl, Option.some.injEq, CoverageLine.address.injEq, Prod.mk.injEq,
        eq_comm (a := position), eq_comm (a := hash), and_comm]
    rw [hitCount_set, attributed_append, h.hitCount_eq]
    simp only [hline]
  finsum_eq := by rw [finsum_hitCount_set, h.finsum_eq]
  lastScript_eq top hmem := by
    rw [lastScript?_append, h.lastScript_eq top hmem]
    rfl
  executed := h.executed
  hash_eq := h.hash_eq

end Tracks

/-! ### Events -/

section Events

variable {τ : Type} {fs : Storage τ} {sound : τ → Prop} {content : τ → Handle → Option Bytes}

/-- The log of a recorder agrees with its counts and with the scripts on a call stack. -/
def Agrees (sound : τ → Prop) (content : τ → Handle → Option Bytes) (total : ℕ)
    (hashes : List Hash) (host : CoverageRecorder × τ) : Prop :=
  ∃ lines, Holds sound content host.1.writer host.2 lines ∧ Tracks host.1 lines total hashes

variable (hfs : fs.Reliable sound content) {r : CoverageRecorder} {t : τ} {total : ℕ}
  {hashes : List Hash}
include hfs

/-- A frame was pushed. -/
theorem succeeds_loaded (h : Agrees sound content total hashes (r, t)) (view : View)
    (context : Context) : Succeeds (loaded fs view context) (r, t) fun _ ↦
      Agrees sound content total (context.scriptHash :: hashes) := by
  obtain ⟨lines, hholds, htracks⟩ := h
  have hhash : ((r.executed.get? context.scriptHash).getD (resolve view context)).hash =
      context.scriptHash := by
    cases hfound : r.executed.get? context.scriptHash with
    | some script => exact htracks.hash_eq _ script hfound
    | none =>
      rw [Option.getD_none, resolve]
      cases hdeployed : view.snapshot.contract? context.scriptHash with
      | some contract => exact view.snapshot.hash_eq _ contract hdeployed
      | none => rfl
  apply Succeeds.get_bind
  dsimp only
  generalize (r.executed.get? context.scriptHash).getD (resolve view context) = script at hhash ⊢
  rw [← hhash]
  have hlearned := htracks.learn script
  refine (Succeeds.modify (P := fun _ next ↦
    ({ r with executed := r.executed.set script.hash script }, t) = next) rfl).bind ?_
  intro _ _ hnext
  subst hnext
  refine succeeds_onWriter ((succeeds_recordContext hfs hholds (some script)).mono ?_)
  intro _ next hholds'
  obtain ⟨w, t'⟩ := next
  refine ⟨_, hholds', (hlearned.current ?_ ?_).congr rfl rfl⟩
  · intro top hmem
    exact (Option.mem_some_iff.mp hmem).symm
  · intro hash hmem
    rcases List.mem_cons.mp hmem with rfl | hold
    · rw [Table.get?_set, if_pos rfl]
      rfl
    · exact hlearned.executed hash hold

/-- A frame was popped. -/
theorem succeeds_unloaded {hash : Hash}
    (h : Agrees sound content total (hash :: hashes) (r, t)) {view : View}
    (hview : view.currentHash = hashes.head?) :
    Succeeds (unloaded fs view) (r, t) fun _ ↦ Agrees sound content total hashes := by
  obtain ⟨lines, hholds, htracks⟩ := h
  unfold unloaded
  rw [hview]
  cases hashes with
  | nil =>
    refine succeeds_onWriter ((succeeds_recordContext hfs hholds none).mono ?_)
    intro _ next hholds'
    obtain ⟨w, t'⟩ := next
    exact ⟨_, hholds', (htracks.current (fun _ hmem ↦ absurd hmem (Option.not_mem_none _))
      fun _ hmem ↦ absurd hmem List.not_mem_nil).congr rfl rfl⟩
  | cons caller rest =>
    apply Succeeds.get_bind
    obtain ⟨script, hscript⟩ :=
      Option.isSome_iff_exists.mp (htracks.executed caller (.tail _ List.mem_cons_self))
    simp only [hscript]
    refine succeeds_onWriter ((succeeds_recordContext hfs hholds (some script)).mono ?_)
    intro _ next hholds'
    obtain ⟨w, t'⟩ := next
    refine ⟨_, hholds', (htracks.current ?_ ?_).congr rfl rfl⟩
    · intro top hmem
      exact (Option.mem_some_iff.mp hmem).symm.trans (htracks.hash_eq caller script hscript).symm
    · exact fun other hmem ↦ htracks.executed other (.tail _ hmem)

/-- An instruction is about to run. -/
theorem succeeds_before {hash : Hash} (h : Agrees sound content total (hash :: hashes) (r, t))
    {view : View} {position : ℕ} (hhash : view.currentHash = some hash)
    (hposition : view.currentPointer = some position) (i : Instruction) :
    Succeeds (before fs view i) (r, t) fun _ ↦
      Agrees sound content (total + 1) (hash :: hashes) := by
  obtain ⟨lines, hholds, htracks⟩ := h
  unfold before
  simp only [hhash, hposition]
  refine (Succeeds.modify (P := fun _ next ↦
    ({ r with hits := r.hits.set (hash, position) (r.hitCount hash position + 1) }, t) = next)
    rfl).bind ?_
  intro _ _ hnext
  subst hnext
  refine (succeeds_onWriter ((succeeds_writeLine hfs hholds (.address position)).mono
    (Q := fun _ next ↦ Agrees sound content (total + 1) (hash :: hashes)
      ({ r with
        hits := r.hits.set (hash, position) (r.hitCount hash position + 1)
        writer := next.1 }, next.2)) ?_)).bind ?_
  · intro _ next hnext
    obtain ⟨w, t'⟩ := next
    obtain ⟨rfl, hholds'⟩ := hnext
    exact ⟨_, hholds', htracks.address position⟩
  · intro _ next hnext
    obtain ⟨r', t'⟩ := next
    obtain ⟨lines', hholds', htracks'⟩ := hnext
    exact .modify ⟨lines', hholds', htracks'.congr rfl rfl⟩

/-- An instruction has run. -/
theorem succeeds_after (h : Agrees sound content total hashes (r, t)) {view : View}
    (hview : view.currentHash.isSome → view.currentPointer.isSome) :
    Succeeds (after fs view) (r, t) fun _ ↦ Agrees sound content total hashes := by
  obtain ⟨lines, hholds, htracks⟩ := h
  have hcleared : Tracks { r with pending := none } lines total hashes := htracks.congr rfl rfl
  refine .get_bind ((Succeeds.modify (P := fun _ next ↦
    ({ r with pending := none }, t) = next) rfl).bind ?_)
  intro _ _ hnext
  subst hnext
  cases r.pending with
  | none => exact .pure ⟨lines, hholds, hcleared⟩
  | some branch =>
    dsimp only
    split
    · exact .pure ⟨lines, hholds, hcleared⟩
    · rename_i hsame
      have hcurrent := Classical.not_not.mp (not_or.mp hsame).2
      obtain ⟨outcome, houtcome⟩ := Option.isSome_iff_exists.mp (hview (by rw [hcurrent]; rfl))
      simp only [houtcome]
      refine succeeds_onWriter ((succeeds_writeLine hfs hholds _).mono ?_)
      intro _ next hnext
      obtain ⟨w, t'⟩ := next
      obtain ⟨rfl, hholds'⟩ := hnext
      exact ⟨_, hholds', (htracks.branch _ _ _).congr rfl rfl⟩

omit hfs in
/-- A fault only makes the recorder forget a branch. -/
theorem succeeds_fault (h : Agrees sound content total hashes (r, t)) {view : View}
    {exception : String} :
    Succeeds ((observer fs).notice view (.fault exception)) (r, t) fun _ ↦
      Agrees sound content total hashes := by
  obtain ⟨lines, hholds, htracks⟩ := h
  exact .modify ⟨lines, hholds, htracks.congr rfl rfl⟩

/-! ### Moves -/

/-- The scripts on the call stack of a machine, that of the top frame first. -/
def hashesOf (m : StackMachine) : List Hash := m.frames.map (·.scriptHash)

open StackMachine

omit hfs in
theorem hashesOf_eq {m m' : StackMachine} (h : SameScripts m m') : hashesOf m' = hashesOf m :=
  h.hashes_eq

omit hfs in
theorem hashesOf_charge (i : Instruction) (m : StackMachine) :
    hashesOf (m.charge i) = hashesOf m :=
  hashes_charge i m

omit hfs in
/-- A machine that is loaded again after it stopped gives up its call stack. -/
theorem hashesOf_reset_subset (m : StackMachine) : hashesOf m.reset ⊆ hashesOf m := by
  unfold StackMachine.reset
  split
  · exact List.nil_subset _
  · exact List.Subset.refl _

omit hfs in
theorem hashesOf_reset_of_frames_eq_nil {m : StackMachine} (hframes : m.frames = []) :
    hashesOf m.reset = [] := by
  have hnone : hashesOf m = [] := by rw [hashesOf, hframes, List.map_nil]
  exact List.subset_nil.mp (hnone ▸ hashesOf_reset_subset m)

omit hfs in
theorem currentHash_view (m : StackMachine) : m.view.currentHash = (hashesOf m).head? :=
  List.head?_map.symm

/-- What a completed operation reports keeps the agreement. -/
theorem succeeds_effect {m m' : StackMachine} {events : List Event} (heffect : Effect m events m')
    (h : Agrees sound content total (hashesOf m) (r, t)) :
    Succeeds (events.forM ((observer fs).notice m'.view)) (r, t) fun _ ↦
      Agrees sound content total (hashesOf m') := by
  cases heffect with
  | silent hsame =>
    rw [hashesOf_eq hsame]
    exact .pure h
  | logged hsame message =>
    rw [hashesOf_eq hsame]
    exact .single (.pure h)
  | notified hsame eventName state =>
    rw [hashesOf_eq hsame]
    exact .single (.pure h)
  | @called m₁ hsame hash contract hdeployed arguments =>
    rw [← hashesOf_eq hsame] at h
    exact .single (succeeds_loaded hfs h _ _)
  | @returned m₁ hsame f caller rest hframes =>
    rw [← hashesOf_eq hsame, hashesOf, hframes] at h
    have hbefore : Agrees sound content total (f.scriptHash :: hashesOf { m₁ with
        frames := { caller with stack := f.stack ++ caller.stack } :: rest }) (r, t) := h
    exact .single (succeeds_unloaded hfs hbefore (currentHash_view _))
  | @finished m₁ hsame f hframes =>
    rw [← hashesOf_eq hsame, hashesOf, hframes] at h
    have hbefore : Agrees sound content total (f.scriptHash :: hashesOf { m₁ with
        frames := [], results := f.stack.reverse, state := .halt }) (r, t) := h
    exact .single (succeeds_unloaded hfs hbefore (currentHash_view _))

/-- An instruction is counted for the script on top before it is charged. -/
theorem succeeds_preExecute {m : StackMachine} {i : Instruction} (hnext : m.next? = some (.ok i))
    (h : Agrees sound content total (hashesOf m) (r, t)) :
    Succeeds ([Event.preExecute i].forM ((observer fs).notice m.view)) (r, t) fun _ ↦
      Agrees sound content (total + 1) (hashesOf (m.charge i)) := by
  rw [hashesOf_charge]
  cases hframes : m.frames with
  | nil => simp [next?, hframes] at hnext
  | cons f rest =>
    have hhash : m.view.currentHash = some f.scriptHash := by
      rw [currentHash_view, hashesOf, hframes]
      rfl
    have hposition : m.view.currentPointer = some f.position := by
      rw [view, hframes]
      rfl
    rw [hashesOf, hframes] at h ⊢
    exact .single (succeeds_before hfs h hhash hposition i)

omit hfs in
/-- A machine that is loaded again after it stopped gives up its call stack. -/
theorem Agrees.reset {m : StackMachine} {host : CoverageRecorder × τ}
    (h : Agrees sound content total (hashesOf m) host) :
    Agrees sound content total (hashesOf m.reset) host := by
  unfold StackMachine.reset
  split
  · obtain ⟨lines, hholds, htracks⟩ := h
    exact ⟨lines, hholds, htracks.empty⟩
  · exact h

/-- The agreement for a machine that has run since it was charged `gas`. -/
def Counted (sound : τ → Prop) (content : τ → Handle → Option Bytes) (gas : ℕ) (m : StackMachine)
    (host : CoverageRecorder × τ) : Prop :=
  ∃ total, gas + total = m.gas ∧ Agrees sound content total (hashesOf m) host

/-- Loading a script keeps the agreement. -/
theorem follow_load {gas : ℕ} {m : StackMachine} {host : CoverageRecorder × τ}
    (h : Counted sound content gas m host) (code : Bytes) :
    Succeeds ((observer fs).follow m (m.load code)) host fun _ ↦
      Counted sound content gas (m.load code).next := by
  obtain ⟨r, t⟩ := host
  obtain ⟨total, hgas, hagrees⟩ := h
  apply (Succeeds.pure (P := fun _ host ↦ (r, t) = host) rfl).bind
  intro _ _ hnext
  subst hnext
  refine .single ((succeeds_loaded hfs hagrees.reset _ _).mono fun _ host hloaded ↦ ?_)
  exact ⟨total, hgas.trans (gas_reset m).symm, hloaded⟩

/-- A move keeps the agreement: an instruction is counted before it runs, and charged as it runs. -/
theorem follow_turn {overrides : Overrides} {gas : ℕ} {m : StackMachine}
    {host : CoverageRecorder × τ} (h : Counted sound content gas m host) {t : Turn StackMachine}
    (hturn : turn overrides m = some t) :
    Succeeds ((observer fs).follow m t) host fun _ ↦ Counted sound content gas t.next := by
  obtain ⟨r, t₀⟩ := host
  obtain ⟨total, hgas, hagrees⟩ := h
  have hsilent : Succeeds ([].forM ((observer fs).notice m.view)) (r, t₀) fun _ ↦
      Agrees sound content total (hashesOf m) := .pure hagrees
  have hcharge (i : Instruction) {m' : StackMachine} (hsame : SameSession (m.charge i) m') :
      gas + (total + 1) = m'.gas := by
    have hgas' : m'.gas = m.gas + 1 := hsame.gas_eq
    omega
  cases outcome_of_turn hturn with
  | empty hrunning hframes =>
    exact hsilent.bind fun _ host hagrees ↦ .pure ⟨total, hgas, hagrees⟩
  | @undecodable fault hundecodable =>
    refine hsilent.bind fun _ host hagrees ↦ .single ?_
    refine (succeeds_fault hagrees).mono fun _ host' hagrees' ↦ ?_
    exact ⟨total, hgas, hagrees'⟩
  | @completed i events m' hcompletes =>
    have heffect := hcompletes.effect
    apply (succeeds_preExecute hfs hcompletes.next hagrees).bind
    intro _ next hagrees₁
    obtain ⟨r₁, t₁⟩ := next
    refine .forM_append (succeeds_effect hfs heffect hagrees₁) ?_
    rintro ⟨r₂, t₂⟩ hagrees₂
    have hview : m'.view.currentHash.isSome → m'.view.currentPointer.isSome := by
      simp [view]
    refine .single ((succeeds_after hfs hagrees₂ hview).mono fun _ host' hagrees' ↦ ?_)
    exact ⟨total + 1, hcharge i heffect.sameSession, hagrees'⟩
  | @faulted i fault m' hfaults =>
    have hsame := sameScripts_of_operate hfaults.operate
    have hgas' := hcharge i hsame.sameSession
    apply (succeeds_preExecute hfs hfaults.next hagrees).bind
    intro _ next hagrees₁
    obtain ⟨r₁, t₁⟩ := next
    rw [← hashesOf_eq hsame] at hagrees₁
    refine .single ((succeeds_fault hagrees₁).mono fun _ host' hagrees' ↦ ?_)
    exact ⟨total + 1, hgas', hagrees'⟩

end Events

/-! ### Sessions -/

/-- Assumes: a storage that does not fail, and an engine that was built over a session without
observers and without frames. However the engine is driven, no call fails. The bytes of the log are
those of some lines and of no others, each count is that of the lines attributed to the script at
the position, finitely many are not zero, and the sum of all is the gas that was charged since the
engine was built. -/
theorem drive_hitCount {τ : Type} {fs : Storage τ} {sound : τ → Prop}
    {content : τ → Handle → Option Bytes} (hfs : fs.Reliable sound content)
    (config : CoverageConfig) (sessionName : String) (checker : Option WitnessChecker)
    {session : Session StackMachine τ} (hobservers : session.observers = [])
    (hframes : session.machine.frames = []) {t₀ t₁ : τ} (hsound : sound t₀)
    {engine : CoverageEngine StackMachine τ}
    (hstart : CoverageEngine.start fs config sessionName checker session t₀ = .ok engine t₁)
    (calls : List Call) :
    ∃ ended engine' t₂ log lines,
      Engine.drive calls (engine, t₁) = .ok ended (engine', t₂) ∧
      engine'.recorder.writer.log = some log ∧ content t₂ log = some (text lines) ∧
      (∀ others, text others = text lines → others = lines) ∧
      (∀ hash position, engine'.recorder.hitCount hash position =
        attributed hash position lines) ∧
      (Function.support fun k : Hash × ℕ ↦ engine'.recorder.hitCount k.1 k.2).Finite ∧
      session.machine.gas + ∑ᶠ k : Hash × ℕ, engine'.recorder.hitCount k.1 k.2 =
        engine'.session.machine.gas := by
  obtain ⟨writer, t, hwriter, hrest⟩ := bind_eq_ok hstart
  obtain ⟨rfl, rfl⟩ := EStateM.Result.ok.inj hrest
  have hmachine : (Engine.start (observer fs) (.ofWriter writer) checker session).session.machine =
      session.machine := by
    cases checker <;> rfl
  have htracks : Tracks (.ofWriter writer) [] 0 (hashesOf session.machine) := by
    rw [hashesOf, hframes]
    exact .ofWriter writer
  have hbegin : Counted sound content session.machine.gas
      (Engine.start (observer fs) (.ofWriter writer) checker session).session.machine
      (.ofWriter writer, t) := by
    rw [hmachine]
    exact ⟨0, rfl, [], holds_start hfs hsound hwriter, htracks⟩
  have hwatches := Engine.watches_start (observer fs) (.ofWriter writer) checker hobservers
  obtain ⟨ended, ⟨engine', t₂⟩, hrun, -, total, hgas, lines, hholds, htracks'⟩ :=
    hwatches.drive (fun _ _ code h ↦ follow_load hfs h code)
      (fun _ _ _ h hturn ↦ follow_turn hfs h hturn) hbegin calls
  obtain ⟨log, hlog, hcontent⟩ := hholds.content_eq
  refine ⟨ended, engine', t₂, log, lines, hrun, hlog, hcontent, fun _ ↦ text_injective,
    htracks'.hitCount_eq, finite_support_hitCount _, ?_⟩
  rw [htracks'.finsum_eq, hgas]

/-- A script halts and another one aborts, over files in memory. -/
theorem drive_hitCount_of_memory :
    let session : Session StackMachine MemoryStore :=
      .ofMachine (.create ⟨1⟩ .empty .default [])
    let store : MemoryStore := .ofFiles [] []
    let calls := [Call.load [Opcode.pushTrue], .execute 9, .load [Opcode.abort], .execute 9]
    MemoryStore.storage.Reliable MemoryStore.Sound MemoryStore.content ∧ store.Sound ∧
      session.observers = [] ∧ session.machine.frames = [] ∧
      ∃ engine store₁,
        CoverageEngine.start MemoryStore.storage .default "run" none session store =
          .ok engine store₁ ∧
        ∃ ended engine' store₂ log lines,
          Engine.drive calls (engine, store₁) = .ok ended (engine', store₂) ∧
          engine'.recorder.writer.log = some log ∧ store₂.content log = some (text lines) ∧
          (∀ others, text others = text lines → others = lines) ∧
          (∀ hash position, engine'.recorder.hitCount hash position =
            attributed hash position lines) ∧
          (Function.support fun k : Hash × ℕ ↦ engine'.recorder.hitCount k.1 k.2).Finite ∧
          0 + ∑ᶠ k : Hash × ℕ, engine'.recorder.hitCount k.1 k.2 =
            engine'.session.machine.gas := by
  intro session store calls
  have hsound : store.Sound := by
    refine ⟨rfl, ?_, ?_, List.nodup_nil⟩ <;> exact fun _ hmem ↦ absurd hmem List.not_mem_nil
  obtain ⟨engine, store₁, hstart⟩ : ∃ engine store₁,
      CoverageEngine.start MemoryStore.storage .default "run" none session store =
        .ok engine store₁ := ⟨_, _, rfl⟩
  exact ⟨MemoryStore.reliable, hsound, rfl, rfl, engine, store₁, hstart,
    drive_hitCount MemoryStore.reliable .default "run" none rfl rfl hsound hstart calls⟩

end CoverageRecorder

end ScriptTrace
