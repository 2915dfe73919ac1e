import ScriptTrace.Coverage.Engine
import ScriptTrace.Proofs.Coverage.Log
import ScriptTrace.Proofs.Session.Recount

/-!
What a coverage session makes of a story. On a storage that does not fail a recorder retells events
(`retells`): `tell` is the recorder after an event, but for its writer, and the lines of the event.
It objects to an event that it has no script or no position for; `Allows` says that it does not.
-/

set_option autoImplicit false
set_option relaxedAutoImplicit false

namespace ScriptTrace

/-- The line that a branch gets once the machine has gone on, if it is still in the same frame. -/
def PendingBranch.line? (branch : PendingBranch) (view : View) : Option CoverageLine :=
  if view.depth = branch.depth ∧ view.currentHash = some branch.scriptHash then
    view.currentPointer.map (.branch branch.position branch.target)
  else none

theorem PendingBranch.eq_branch_of_line? {branch : PendingBranch} {view : View}
    {line : CoverageLine} (h : branch.line? view = some line) :
    ∃ outcome, line = .branch branch.position branch.target outcome := by
  unfold line? at h
  split at h
  · obtain ⟨outcome, -, hline⟩ := Option.map_eq_some_iff.mp h
    exact ⟨outcome, hline.symm⟩
  · cases h

namespace CoverageRecorder

open CoverageWriter

/-- What a recorder knows a frame to run once it was pushed. -/
def learned (r : CoverageRecorder) (view : View) (context : Context) : ExecutedScript :=
  (r.executed.get? context.scriptHash).getD (resolve view context)

/-- Assumes: a recorder knows scripts by their own hashes. So it does of a script that is pushed. -/
theorem hash_learned {r : CoverageRecorder}
    (hexecuted : ∀ hash script, r.executed.get? hash = some script → script.hash = hash)
    (view : View) (context : Context) : (r.learned view context).hash = context.scriptHash := by
  unfold learned
  cases hfound : r.executed.get? context.scriptHash with
  | some script => exact hexecuted _ script hfound
  | none =>
    rw [Option.getD_none, resolve]
    cases hdeployed : view.snapshot.contract? context.scriptHash with
    | some contract => exact view.snapshot.hash_eq _ contract hdeployed
    | none => rfl

/-- A recorder after an event, and the lines it writes. -/
def tell (r : CoverageRecorder) : Notice → CoverageRecorder × List CoverageLine
  | (view, .contextLoaded context) =>
    ({ r with executed := r.executed.set context.scriptHash (r.learned view context) },
      [.current context.scriptHash])
  | (view, .contextUnloaded _) => (r, [.current (view.currentHash.getD Hash.zero)])
  | (view, .preExecute i) =>
    match view.currentHash, view.currentPointer with
    | some hash, some position =>
      ({ r with
        hits := r.hits.set (hash, position) (r.hitCount hash position + 1)
        pending := i.branchTarget.map fun target ↦ ⟨hash, position, target, view.depth⟩ },
        [.address position])
    | _, _ => (r, [])
  | (view, .postExecute _) =>
    ({ r with pending := none }, (r.pending.bind (PendingBranch.line? · view)).toList)
  | (_, .fault _) => ({ r with pending := none }, [])
  | (_, .log _) => (r, [])
  | (_, .notify _) => (r, [])

theorem writer_tell (r : CoverageRecorder) (n : Notice) : (r.tell n).1.writer = r.writer := by
  obtain ⟨view, event⟩ := n
  cases event with
  | preExecute i =>
    unfold tell
    dsimp only
    split <;> rfl
  | _ => rfl

theorem writer_recount (q : CoverageRecorder × List CoverageLine) (told : List Notice) :
    (recount tell q told).1.writer = q.1.writer := by
  induction told generalizing q with
  | nil => rfl
  | cons n rest ih =>
    rw [recount_cons, ih]
    exact writer_tell q.1 n

/-- A recorder makes no objection to an event: it knows the script that becomes current by its own
hash, and the view shows the position in the current script. -/
def Allows (r : CoverageRecorder) : Notice → Prop
  | (view, .contextLoaded context) => (r.learned view context).hash = context.scriptHash
  | (view, .contextUnloaded _) =>
    ∀ hash ∈ view.currentHash, ∃ script, r.executed.get? hash = some script ∧ script.hash = hash
  | (view, .preExecute _) => view.currentHash.isSome ∧ view.currentPointer.isSome
  | (view, .postExecute _) => view.currentHash.isSome → view.currentPointer.isSome
  | _ => True

/-! ### Events -/

section Events

variable {τ : Type} {fs : Storage τ} {sound : τ → Prop} {content : τ → Handle → Option Bytes}

/-- A recorder is in a state but for what it knows of files, and its log holds some lines. -/
structure Told (sound : τ → Prop) (content : τ → Handle → Option Bytes)
    (q : CoverageRecorder × List CoverageLine) (host : CoverageRecorder × τ) : Prop where
  recorder_eq : host.1 = { q.1 with writer := host.1.writer }
  log_eq : host.1.writer.log = q.1.writer.log
  holds : Holds sound content host.1.writer host.2 q.2

variable (hfs : fs.Reliable sound content) {r : CoverageRecorder} {w : CoverageWriter} {t : τ}
  {lines : List CoverageLine} (hlog : w.log = r.writer.log)
  (hholds : Holds sound content w t lines)
include hfs hlog hholds

theorem told_writeLine (line : CoverageLine) :
    Succeeds (onWriter (writeLine fs line)) ({ r with writer := w }, t) fun _ ↦
      Told sound content (r, lines ++ [line]) := by
  refine succeeds_onWriter ((succeeds_writeLine hfs hholds line).mono ?_)
  intro _ next hnext
  obtain ⟨hsame, hholds'⟩ := hnext
  rw [hsame] at hholds' hlog
  exact ⟨rfl, hlog, hholds'⟩

theorem told_recordContext (script : Option ExecutedScript) :
    Succeeds (onWriter (recordContext fs script)) ({ r with writer := w }, t) fun _ ↦
      Told sound content
        (r, lines ++ [.current ((script.map ExecutedScript.hash).getD Hash.zero)]) := by
  refine succeeds_onWriter ((succeeds_recordContext_log hfs hholds script).mono ?_)
  intro _ next hnext
  obtain ⟨hsame, hholds'⟩ := hnext
  exact ⟨rfl, hsame.trans hlog, hholds'⟩

theorem told_loaded {view : View} {context : Context}
    (hallows : (r.learned view context).hash = context.scriptHash) :
    Succeeds (loaded fs view context) ({ r with writer := w }, t) fun _ ↦
      Told sound content (recount tell (r, lines) [(view, .contextLoaded context)]) := by
  refine .get_bind ?_
  let known :=
    { r with executed := r.executed.set context.scriptHash (r.learned view context) }
  apply (Succeeds.modify (P := fun _ next ↦ next = ({ known with writer := w }, t)) rfl).bind
  intro _ _ hnext
  subst hnext
  have hrecord := told_recordContext (r := known) hfs hlog hholds (some (r.learned view context))
  rw [Option.map_some, Option.getD_some, hallows] at hrecord
  exact hrecord

theorem told_unloaded {view : View} (hallows : ∀ hash ∈ view.currentHash,
      ∃ script, r.executed.get? hash = some script ∧ script.hash = hash) (context : Context) :
    Succeeds (unloaded fs view) ({ r with writer := w }, t) fun _ ↦
      Told sound content (recount tell (r, lines) [(view, .contextUnloaded context)]) := by
  unfold unloaded
  simp only [recount, tell, List.foldl_cons, List.foldl_nil]
  cases hcurrent : view.currentHash with
  | none => exact told_recordContext hfs hlog hholds none
  | some hash =>
    obtain ⟨script, hscript, hhash⟩ := hallows hash hcurrent
    have hrecord := told_recordContext (r := r) hfs hlog hholds (some script)
    rw [Option.map_some, Option.getD_some, hhash] at hrecord
    refine .get_bind ?_
    simp only [hscript]
    exact hrecord

theorem told_before {view : View}
    (hallows : view.currentHash.isSome ∧ view.currentPointer.isSome) (i : Instruction) :
    Succeeds (before fs view i) ({ r with writer := w }, t) fun _ ↦
      Told sound content (recount tell (r, lines) [(view, .preExecute i)]) := by
  obtain ⟨hash, hhash⟩ := Option.isSome_iff_exists.mp hallows.1
  obtain ⟨position, hposition⟩ := Option.isSome_iff_exists.mp hallows.2
  unfold before
  simp only [recount, tell, hhash, hposition, List.foldl_cons, List.foldl_nil]
  let counted := { r with hits := r.hits.set (hash, position) (r.hitCount hash position + 1) }
  apply (Succeeds.modify (P := fun _ next ↦ next = ({ counted with writer := w }, t)) rfl).bind
  intro _ _ hnext
  subst hnext
  apply (told_writeLine (r := counted) hfs hlog hholds (.address position)).bind
  intro _ next hnext
  obtain ⟨r₁, t₁⟩ := next
  obtain ⟨hrecorder, hlog₁, hholds₁⟩ := hnext
  change r₁ = { counted with writer := r₁.writer } at hrecorder
  rw [hrecorder]
  exact .modify ⟨rfl, hlog₁, hholds₁⟩

theorem told_after {view : View}
    (hallows : view.currentHash.isSome → view.currentPointer.isSome) (i : Instruction) :
    Succeeds (after fs view) ({ r with writer := w }, t) fun _ ↦
      Told sound content (recount tell (r, lines) [(view, .postExecute i)]) := by
  refine .get_bind ?_
  apply (Succeeds.modify (P := fun _ next ↦
    next = ({ r with pending := none, writer := w }, t)) rfl).bind
  intro _ _ hnext
  subst hnext
  cases hpending : r.pending with
  | none =>
    refine .pure ⟨?_, hlog, ?_⟩
    · simp [recount, tell]
    · simpa [recount, tell, hpending] using hholds
  | some branch =>
    dsimp only
    by_cases hsame : view.depth = branch.depth ∧ view.currentHash = some branch.scriptHash
    · have hcurrent : view.currentHash.isSome := by rw [hsame.2]; rfl
      obtain ⟨outcome, houtcome⟩ := Option.isSome_iff_exists.mp (hallows hcurrent)
      have hline : branch.line? view = some (.branch branch.position branch.target outcome) := by
        rw [PendingBranch.line?, if_pos hsame, houtcome, Option.map_some]
      rw [if_neg (by simpa using hsame)]
      simp only [recount, tell, hpending, houtcome, hline, List.foldl_cons, List.foldl_nil,
        Option.bind_some, Option.toList_some]
      exact told_writeLine (r := { r with pending := none }) hfs hlog hholds _
    · have hline : branch.line? view = none := by rw [PendingBranch.line?, if_neg hsame]
      rw [if_pos (by rwa [ne_eq, ne_eq, ← not_and_or])]
      refine .pure ⟨?_, hlog, ?_⟩
      · simp [recount, tell]
      · simpa [recount, tell, hpending, hline] using hholds

omit hlog hholds in
/-- Assumes: a storage that does not fail. A recorder retells events. -/
theorem retells : (observer fs).Retells tell Allows (Told sound content) where
  notice q n host hallows htold := by
    obtain ⟨r, lines⟩ := q
    obtain ⟨r₀, t⟩ := host
    obtain ⟨view, event⟩ := n
    obtain ⟨hrecorder, hlog, hholds⟩ := htold
    change r₀ = { r with writer := r₀.writer } at hrecorder
    change r₀.writer.log = r.writer.log at hlog
    generalize hwriter : r₀.writer = w at hrecorder hlog hholds
    subst hrecorder
    have hsilent : Told sound content (r, lines ++ []) ({ r with writer := w }, t) :=
      ⟨rfl, hlog, by rwa [List.append_nil]⟩
    cases event with
    | contextLoaded context => exact told_loaded hfs hlog hholds hallows
    | contextUnloaded context => exact told_unloaded hfs hlog hholds hallows context
    | preExecute i => exact told_before hfs hlog hholds hallows i
    | postExecute i => exact told_after hfs hlog hholds hallows i
    | fault exception => exact .modify ⟨rfl, hlog, hsilent.holds⟩
    | log event => exact .pure hsilent
    | notify event => exact .pure hsilent

end Events

end CoverageRecorder

end ScriptTrace
