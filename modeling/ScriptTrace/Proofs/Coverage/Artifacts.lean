import ScriptTrace.Proofs.Coverage.Operations

/-!
Sessions that take turns in directories they may share. Each has a log of its own and remembers
only scripts that have a file (`Shared`), and a step leaves every file that is there as it is unless
it is a log (`Advances`). Hence, whatever the sessions do, in whatever order and whatever fails,
every file of a script that they made is whole, and every script that a session remembers has its
file (`interleave_artifacts`).
-/

set_option autoImplicit false
set_option relaxedAutoImplicit false

namespace ScriptTrace

namespace CoverageWriter

variable {τ Λ : Type} {fs : Storage τ} {v : FileView τ Λ}

/-! ### Steps -/

/-- An operation on a session. -/
inductive Operation where
  | context (script : Option ExecutedScript)
  | address (position : Nat)
  | branch (position target outcome : Nat)
  | close

namespace Operation

/-- Perform an operation on a session. -/
def perform (fs : Storage τ) : Operation → Recording τ Unit
  | context script => recordContext fs script
  | address position => recordAddress fs position
  | branch position target outcome => recordBranch fs position target outcome
  | close => CoverageWriter.close fs

/-- The script that an operation records. -/
def script : Operation → Option ExecutedScript
  | context script => script
  | _ => none

theorem eq_context_of_mem_script {operation : Operation} {s : ExecutedScript}
    (hs : s ∈ operation.script) : operation = .context (some s) := by
  cases operation with
  | context script => exact congrArg context hs
  | address _ => cases hs
  | branch _ _ _ => cases hs
  | close => cases hs

end Operation

/-- What happens when sessions take turns: one starts, or one of those started performs an
operation. -/
inductive Step where
  | start (directory sessionName : String)
  | operate (index : Nat) (operation : Operation)

/-- Take a step, whether or not it fails. The sessions are kept in the order they started in. -/
def Step.apply (fs : Storage τ) : Step → List CoverageWriter × τ → List CoverageWriter × τ
  | start directory sessionName, (ws, t) =>
    match CoverageWriter.start fs directory sessionName t with
    | .ok w t => (ws ++ [w], t)
    | .error _ t => (ws, t)
  | operate i operation, (ws, t) =>
    match ws[i]? with
    | none => (ws, t)
    | some w =>
      match operation.perform fs (w, t) with
      | .ok _ (w, t) => (ws.set i w, t)
      | .error _ (w, t) => (ws.set i w, t)

/-- Take steps one after the other. -/
def interleave (fs : Storage τ) (steps : List Step) (s : List CoverageWriter × τ) :
    List CoverageWriter × τ :=
  steps.foldl (fun s step ↦ step.apply fs s) s

/-- The places of the logs. -/
def logs (v : FileView τ Λ) (ws : List CoverageWriter) : Set Λ :=
  { p | ∃ w ∈ ws, p = v.place w.logPath }

/-- Of sessions one of which was replaced, each is the new one or one of the others. -/
theorem eq_or_of_getElem?_set {ws : List CoverageWriter} {i j : Nat} {w u : CoverageWriter}
    (hu : (ws.set i w)[j]? = some u) : j = i ∧ u = w ∨ j ≠ i ∧ ws[j]? = some u := by
  by_cases hij : i = j
  · subst hij
    obtain ⟨hlt, hget⟩ := List.getElem?_eq_some_iff.mp hu
    rw [List.getElem_set_self] at hget
    exact .inl ⟨rfl, hget.symm⟩
  · rw [List.getElem?_set_ne hij] at hu
    exact .inr ⟨Ne.symm hij, hu⟩

/-- Of sessions one more of which was started, each is the new one or one of the others. -/
theorem eq_or_of_getElem?_concat {ws : List CoverageWriter} {j : Nat} {w u : CoverageWriter}
    (hu : (ws ++ [w])[j]? = some u) :
    j = ws.length ∧ u = w ∨ j ≠ ws.length ∧ ws[j]? = some u := by
  rcases Nat.lt_or_ge j ws.length with hlt | hge
  · rw [List.getElem?_append_left hlt] at hu
    exact .inr ⟨Nat.ne_of_lt hlt, hu⟩
  · rw [List.getElem?_append_right hge] at hu
    have hzero := (List.getElem?_eq_some_iff.mp hu).1
    rw [List.length_singleton] at hzero
    exact .inl ⟨by omega, List.mem_singleton.mp (List.mem_of_getElem? hu)⟩

theorem logs_concat (ws : List CoverageWriter) (w : CoverageWriter) (p : Λ) :
    p ∈ logs v (ws ++ [w]) ↔ p ∈ logs v ws ∨ p = v.place w.logPath := by
  simp [logs, or_and_right, exists_or]

theorem logs_set {ws : List CoverageWriter} {i : Nat} {w w' : CoverageWriter}
    (hw : ws[i]? = some w) (hlogPath : w'.logPath = w.logPath) :
    logs v (ws.set i w') = logs v ws := by
  have hmap : (ws.set i w').map (·.logPath) = ws.map (·.logPath) := by
    refine List.ext_getElem? fun j ↦ ?_
    rw [List.map_set, hlogPath]
    by_cases hj : i = j
    · subst hj
      have hlt : i < (ws.map (·.logPath)).length := by
        rw [List.length_map]
        exact (List.getElem?_eq_some_iff.mp hw).1
      rw [List.getElem?_set_self hlt, List.getElem?_map, hw, Option.map_some]
    · rw [List.getElem?_set_ne hj]
  have hmem : ∀ us p, p ∈ logs v us ↔ ∃ path ∈ us.map (·.logPath), p = v.place path := by
    simp [logs]
  ext p
  rw [hmem, hmem, hmap]

/-- Sessions that share a storage have logs of their own, and remember only scripts that have a
file. -/
structure Shared (v : FileView τ Λ) (s : List CoverageWriter × τ) : Prop where
  sound : v.sound s.2
  live : ∀ (i : Nat) w, s.1[i]? = some w → Live v w s.2
  distinct : ∀ (i j : Nat) w u, s.1[i]? = some w → s.1[j]? = some u →
    v.place w.logPath = v.place u.logPath → i = j
  written : ∀ (i : Nat) w, s.1[i]? = some w → ∀ hash ∈ w.written, ∃ script : ExecutedScript,
    script.hash = hash ∧ (v.file s.2 (artifactPlace v w.directory script)).isSome

theorem Shared.isSome_of_mem_logs {s : List CoverageWriter × τ} (hshared : Shared v s) {p : Λ}
    (hp : p ∈ logs v s.1) : (v.file s.2 p).isSome := by
  obtain ⟨w, hw, rfl⟩ := hp
  obtain ⟨i, hi⟩ := List.mem_iff_getElem?.mp hw
  exact (hshared.live i w hi).file

/-- Assumes: one session starts or goes on, and the others stay as they were. Only its log and
places without a file change. -/
theorem Shared.update {s s' : List CoverageWriter × τ} (hshared : Shared v s) {i : Nat}
    {w : CoverageWriter}
    (hsessions : ∀ (j : Nat) u, s'.1[j]? = some u → j = i ∧ u = w ∨ j ≠ i ∧ s.1[j]? = some u)
    (hother : ∀ (j : Nat) u, j ≠ i → s.1[j]? = some u → v.place u.logPath ≠ v.place w.logPath)
    (hwithin : v.Within (insert (v.place w.logPath) (v.free s.2)) s.2 s'.2) (hlive : Live v w s'.2)
    (hwritten : ∀ hash ∈ w.written, ∃ script : ExecutedScript, script.hash = hash ∧
      (v.file s'.2 (artifactPlace v w.directory script)).isSome) : Shared v s' where
  sound := hwithin.sound
  live j u hu := by
    rcases hsessions j u hu with ⟨-, rfl⟩ | ⟨hj, hold⟩
    · exact hlive
    · exact (hshared.live j u hold).within hwithin
        (not_or.mpr ⟨hother j u hj hold, FileView.notMem_free (hshared.live j u hold).file⟩)
  distinct j k u x hu hx heq := by
    rcases hsessions j u hu with ⟨rfl, rfl⟩ | ⟨hj, hold⟩ <;>
      rcases hsessions k x hx with ⟨rfl, rfl⟩ | ⟨hk, hold'⟩
    · rfl
    · exact absurd heq.symm (hother k x hk hold')
    · exact absurd heq (hother j u hj hold)
    · exact hshared.distinct j k u x hold hold' heq
  written j u hu hash hhash := by
    rcases hsessions j u hu with ⟨-, rfl⟩ | ⟨-, hold⟩
    · exact hwritten hash hhash
    · obtain ⟨script, hscript, hfile⟩ := hshared.written j u hold hash hhash
      refine ⟨script, hscript, ?_⟩
      by_cases hlog : artifactPlace v u.directory script = v.place w.logPath
      · rw [hlog]
        exact hlive.file
      · rwa [hwithin.file _ (not_or.mpr ⟨hlog, FileView.notMem_free hfile⟩)]

section Steps

variable (hfs : fs.Lawful v)
include hfs

/-- Whether or not an operation fails, it does no more than it may. -/
theorem perform_ends {w : CoverageWriter} {t : τ} (hs : v.sound t) (hlive : Live v w t)
    (operation : Operation) :
    Ends (operation.perform fs) (w, t) (fun _ s ↦ Acts v operation.script w t s.1 s.2)
      fun _ s ↦ Acts v operation.script w t s.1 s.2 := by
  have hline : ∀ line, Ends (writeLine fs line) (w, t) (fun _ s ↦ Acts v none w t s.1 s.2)
      fun _ s ↦ Acts v none w t s.1 s.2 := fun line ↦
    (writeLine_ends hfs hs hlive line).mono (fun _ _ hlogged ↦ hlogged.acts hlive.file none)
      fun _ _ hlogged ↦ hlogged.acts hlive.file none
  cases operation with
  | context script =>
    cases script with
    | none => exact hline _
    | some s =>
      exact (recordContext_ends hfs hs hlive s).mono (fun _ _ hpost ↦ hpost.1) fun _ _ hpost ↦
        hpost.1
  | address position => exact hline _
  | branch position target outcome => exact hline _
  | close => exact close_ends hfs hs hlive

/-- A session starts with a log of its own, which is new. -/
theorem start_ends {t : τ} (hs : v.sound t) (directory sessionName : String) :
    Ends (start fs directory sessionName) t
      (fun w t' ↦ v.place w.logPath ∈ v.free t ∧ v.Within {v.place w.logPath} t t' ∧
        Live v w t' ∧ w.written = [])
      fun _ t' ↦ v.Within ∅ t t' := by
  have hdirectory := hfs.createDirectory directory t hs
  refine Ends.bind (.failingWith hdirectory) ?_
  rintro _ t₁ hwithin
  have hsame := hwithin.file (v.place (joinPath directory (sessionName ++ ".neo-coverage")))
    (Set.notMem_empty _)
  have hcreate := hfs.createNew (joinPath directory (sessionName ++ ".neo-coverage")) t₁
    hwithin.sound
  refine (Ends.failingWith (hcreate.mono_error ?_)).bind ?_
  · rintro _ t' ⟨hwithin', -⟩
    exact hwithin.trans hwithin'
  · rintro log t' ⟨hfree, hwithin', hopen⟩
    refine .pure ⟨hsame.symm.trans hfree, (hwithin.mono (Set.empty_subset _)).trans hwithin',
      ⟨hopen.file, fun other hother ↦ ?_⟩, rfl⟩
    obtain rfl := Option.some.inj hother
    exact ⟨[], hopen⟩

end Steps

/-- What a step may do. -/
structure Advances (v : FileView τ Λ) (step : Step) (s s' : List CoverageWriter × τ) : Prop where
  shared : Shared v s'
  logs_subset : logs v s.1 ⊆ logs v s'.1
  /-- Files that are there stay as they are, but for the logs. -/
  kept : ∀ p, (v.file s.2 p).isSome → p ∉ logs v s.1 →
    v.file s'.2 p = v.file s.2 p ∧ p ∉ logs v s'.1
  /-- A new file is a log, or that of the script which the step records. -/
  made : ∀ p, v.file s.2 p = none → (v.file s'.2 p).isSome →
    (p ∈ logs v s'.1 ∧ ∃ directory sessionName, step = .start directory sessionName) ∨
    p ∉ logs v s'.1 ∧ ∃ i w script, step = .operate i (.context (some script)) ∧
      s.1[i]? = some w ∧ p = artifactPlace v w.directory script ∧
      v.file s'.2 p = some script.artifact

theorem Shared.advances_of_within {s : List CoverageWriter × τ} (hshared : Shared v s) (step : Step)
    {t : τ} (hwithin : v.Within ∅ s.2 t) : Advances v step s (s.1, t) where
  shared := {
    sound := hwithin.sound
    live := fun i w hw ↦ (hshared.live i w hw).within hwithin (Set.notMem_empty _)
    distinct := hshared.distinct
    written := fun i w hw hash hhash ↦ by
      obtain ⟨script, hscript, hfile⟩ := hshared.written i w hw hash hhash
      exact ⟨script, hscript, hwithin.file _ (Set.notMem_empty _) ▸ hfile⟩ }
  logs_subset := subset_rfl
  kept p _ hlog := ⟨hwithin.file p (Set.notMem_empty _), hlog⟩
  made p hnone hsome := by
    rw [hwithin.file p (Set.notMem_empty _), hnone] at hsome
    exact Bool.noConfusion hsome

section Steps

variable (hfs : fs.Lawful v) {s : List CoverageWriter × τ} (hshared : Shared v s)
include hfs hshared

theorem advances_start (directory sessionName : String) :
    Advances v (.start directory sessionName) s
      ((Step.start directory sessionName).apply fs s) := by
  obtain ⟨ws, t⟩ := s
  have hends := start_ends hfs hshared.sound directory sessionName
  cases hrun : start fs directory sessionName t with
  | error e t' =>
    simp only [Step.apply, hrun]
    exact hshared.advances_of_within _ (hends.of_error hrun)
  | ok w t' =>
    simp only [Step.apply, hrun]
    obtain ⟨hfree, hwithin, hlive, hwritten⟩ := hends.of_ok hrun
    -- The place of the new log was free, and those of the other logs were not.
    have hother : ∀ u ∈ ws, v.place u.logPath ≠ v.place w.logPath := by
      intro u hu heq
      refine FileView.notMem_free (hshared.isSome_of_mem_logs ⟨u, hu, rfl⟩) ?_
      rwa [heq]
    refine ⟨hshared.update (fun _ _ ↦ eq_or_of_getElem?_concat) ?_ (hwithin.mono ?_) hlive ?_,
      ?_, ?_, ?_⟩
    · intro j u _ hu
      exact hother u (List.mem_of_getElem? hu)
    · exact Set.singleton_subset_iff.mpr (Set.mem_insert _ _)
    · rw [hwritten]
      exact fun hash hmem ↦ absurd hmem List.not_mem_nil
    · exact fun p hp ↦ (logs_concat ws w p).mpr (.inl hp)
    · intro p hsome hlog
      have hne : p ≠ v.place w.logPath := by
        rintro rfl
        exact FileView.notMem_free hsome hfree
      exact ⟨hwithin.file p hne, fun hmem ↦ ((logs_concat ws w p).mp hmem).elim hlog hne⟩
    · intro p hnone hsome
      -- Only the place of the log changed, so a new file is the log.
      refine .inl ⟨(logs_concat ws w p).mpr (.inr ?_), directory, sessionName, rfl⟩
      by_contra hne
      rw [hwithin.file p hne, hnone] at hsome
      exact Bool.noConfusion hsome

omit hfs in
/-- Sessions go on sharing a storage when one of them has acted. -/
theorem Shared.act {i : Nat} {w w' : CoverageWriter} {t' : τ} {script : Option ExecutedScript}
    (hw : s.1[i]? = some w) (hacts : Acts v script w s.2 w' t') :
    Shared v (s.1.set i w', t') := by
  refine hshared.update (fun _ _ ↦ eq_or_of_getElem?_set) ?_ ?_ hacts.live
    (hacts.exists_file (hshared.written i w hw))
  · intro j u hj hu heq
    rw [hacts.logPath] at heq
    exact hj (hshared.distinct j i u w hu hw heq)
  · rw [hacts.logPath]
    exact hacts.within.mono (Set.insert_subset_insert Set.inter_subset_right)

/-- Whether the operation fails makes no difference to what it may have done. -/
theorem exists_acts_of_operate {i : Nat} {w : CoverageWriter} (hw : s.1[i]? = some w)
    (operation : Operation) : ∃ w' t',
      (Step.operate i operation).apply fs s = (s.1.set i w', t') ∧
      Acts v operation.script w s.2 w' t' := by
  obtain ⟨ws, t⟩ := s
  have hends := perform_ends hfs hshared.sound (hshared.live i w hw) operation
  simp only [Step.apply, hw]
  cases hrun : operation.perform fs (w, t) with
  | ok _ s' => exact ⟨s'.1, s'.2, rfl, hends.of_ok hrun⟩
  | error e s' => exact ⟨s'.1, s'.2, rfl, hends.of_error hrun⟩

theorem advances_operate (i : Nat) (operation : Operation) :
    Advances v (.operate i operation) s ((Step.operate i operation).apply fs s) := by
  cases hw : s.1[i]? with
  | none =>
    have hsame : (Step.operate i operation).apply fs s = s := by
      simp only [Step.apply, hw]
    rw [hsame]
    exact hshared.advances_of_within _ (.refl hshared.sound)
  | some w =>
    obtain ⟨w', t', hsame, hacts⟩ := exists_acts_of_operate hfs hshared hw operation
    rw [hsame]
    have hmem : v.place w.logPath ∈ logs v s.1 := ⟨w, List.mem_of_getElem? hw, rfl⟩
    have hlogs : logs v (s.1.set i w') = logs v s.1 := logs_set hw hacts.logPath
    refine ⟨hshared.act hw hacts, hlogs.ge, fun p hsome hlog ↦ ?_, fun p hnone hsome ↦ ?_⟩
    · refine ⟨hacts.kept hsome fun heq ↦ hlog (heq ▸ hmem), ?_⟩
      rwa [hlogs]
    · have hlog : p ∉ logs v s.1 := fun hlog ↦
        FileView.notMem_free (hshared.isSome_of_mem_logs hlog) hnone
      obtain ⟨script, hscript, rfl, hfile⟩ :=
        hacts.exists_artifact (hshared.isSome_of_mem_logs hmem) hnone hsome
      refine .inr ⟨by rwa [hlogs], i, w, script, ?_, hw, rfl, hfile⟩
      rw [Operation.eq_context_of_mem_script hscript]

theorem Shared.advances (step : Step) : Advances v step s (step.apply fs s) := by
  cases step with
  | start directory sessionName => exact advances_start hfs hshared directory sessionName
  | operate i operation => exact advances_operate hfs hshared i operation

/-! ### All runs -/

theorem Shared.interleave (steps : List Step) : Shared v (interleave fs steps s) := by
  induction steps generalizing s with
  | nil => exact hshared
  | cons step rest ih => exact ih (hshared.advances hfs step).shared

theorem logs_subset_interleave (steps : List Step) :
    logs v s.1 ⊆ logs v (interleave fs steps s).1 := by
  induction steps generalizing s with
  | nil => exact subset_rfl
  | cons step rest ih =>
    have hstep := hshared.advances hfs step
    exact hstep.logs_subset.trans (ih hstep.shared)

/-- A file that is there stays as it is unless it is a log. -/
theorem file_interleave_eq (steps : List Step) {p : Λ} (hsome : (v.file s.2 p).isSome)
    (hlog : p ∉ logs v s.1) :
    v.file (interleave fs steps s).2 p = v.file s.2 p := by
  induction steps generalizing s with
  | nil => rfl
  | cons step rest ih =>
    have hstep := hshared.advances hfs step
    obtain ⟨hsame, hlog'⟩ := hstep.kept p hsome hlog
    exact (ih hstep.shared (by rwa [hsame]) hlog').trans hsame

end Steps

/-- One of the steps recorded a script, and there was a file at its place afterwards but not
before. -/
def Makes (fs : Storage τ) (v : FileView τ Λ) (steps : List Step) (s : List CoverageWriter × τ)
    (script : ExecutedScript) (p : Λ) : Prop :=
  ∃ earlier later i w, steps = earlier ++ .operate i (.context (some script)) :: later ∧
    (interleave fs earlier s).1[i]? = some w ∧ p = artifactPlace v w.directory script ∧
    v.file (interleave fs earlier s).2 p = none ∧
    (v.file (interleave fs (earlier ++ [.operate i (.context (some script))]) s).2 p).isSome

theorem interleave_append (earlier later : List Step) (s : List CoverageWriter × τ) :
    interleave fs (earlier ++ later) s = interleave fs later (interleave fs earlier s) :=
  List.foldl_append

theorem Makes.cons {step : Step} {steps : List Step} {s : List CoverageWriter × τ}
    {script : ExecutedScript} {p : Λ} (h : Makes fs v steps (step.apply fs s) script p) :
    Makes fs v (step :: steps) s script p := by
  obtain ⟨earlier, later, i, w, rfl, hmade⟩ := h
  exact ⟨step :: earlier, later, i, w, rfl, hmade⟩

section Runs

variable (hfs : fs.Lawful v) {s : List CoverageWriter × τ} (hshared : Shared v s)
include hfs hshared

/-- The file of a script that was made is whole, and stays so. -/
theorem Makes.file_eq {steps : List Step} {script : ExecutedScript} {p : Λ}
    (h : Makes fs v steps s script p) :
    v.file (interleave fs steps s).2 p = some script.artifact := by
  obtain ⟨earlier, later, i, w, rfl, -, -, hnone, hsome⟩ := h
  have hstep := (hshared.interleave hfs earlier).advances hfs (.operate i (.context (some script)))
  rw [interleave_append] at hsome
  rw [interleave_append]
  rcases hstep.made p hnone hsome with ⟨-, _, _, heq⟩ | ⟨hlog, _, _, _, heq, -, -, hfile⟩
  · cases heq
  · cases heq
    exact (file_interleave_eq hfs hstep.shared later hsome hlog).trans hfile

/-- A new file is a log or was made for a script. -/
theorem mem_logs_or_makes {steps : List Step} {p : Λ} (hnone : v.file s.2 p = none)
    (hsome : (v.file (interleave fs steps s).2 p).isSome) :
    p ∈ logs v (interleave fs steps s).1 ∨ ∃ script, Makes fs v steps s script p := by
  induction steps generalizing s with
  | nil => exact absurd hnone (Option.isSome_iff_ne_none.mp hsome)
  | cons step rest ih =>
    have hstep := hshared.advances hfs step
    cases hfile : v.file (step.apply fs s).2 p with
    | none =>
      rcases ih hstep.shared hfile hsome with hlog | ⟨script, hmakes⟩
      · exact .inl hlog
      · exact .inr ⟨script, hmakes.cons⟩
    | some content =>
      have hnow : (v.file (step.apply fs s).2 p).isSome := by rw [hfile, Option.isSome_some]
      rcases hstep.made p hnone hnow with ⟨hlog, -⟩ | ⟨-, i, w, script, rfl, hw, hp, -⟩
      · exact .inl (logs_subset_interleave hfs hstep.shared rest hlog)
      · exact .inr ⟨script, [], rest, i, w, rfl, hw, hp, hnone, hnow⟩

end Runs

theorem shared_nil {t : τ} (hs : v.sound t) : Shared v ([], t) where
  sound := hs
  live _ _ hnone := nomatch hnone
  distinct _ _ _ _ hnone := nomatch hnone
  written _ _ hnone := nomatch hnone

/-- Assumes: a storage that keeps its word. Sessions that take turns in any order, whatever fails,
leave every file that was there before as it was; an artifact they made is that of its script as a
whole, and besides these there are only the logs. Every script a session remembers has a file.
Writing one changes no file that is there. A script that is recorded has a file from then on, and
when that fails the session remembers what it did before. -/
theorem interleave_artifacts (hfs : fs.Lawful v) {t₀ : τ} (h₀ : v.sound t₀) (steps : List Step) :
    let s := interleave fs steps ([], t₀)
    (∀ p, (v.file t₀ p).isSome → v.file s.2 p = v.file t₀ p) ∧
    (∀ script p, Makes fs v steps ([], t₀) script p → v.file s.2 p = some script.artifact) ∧
    (∀ p, (v.file s.2 p).isSome → (v.file t₀ p).isSome ∨ p ∈ logs v s.1 ∨
      ∃ script, Makes fs v steps ([], t₀) script p) ∧
    (∀ w ∈ s.1, ∀ hash ∈ w.written, ∃ script : ExecutedScript, script.hash = hash ∧
      (v.file s.2 (artifactPlace v w.directory script)).isSome) ∧
    (∀ directory script, Ends (writeArtifact fs directory script) s.2
      (fun _ t ↦ ∀ p, (v.file s.2 p).isSome → v.file t p = v.file s.2 p)
      fun _ t ↦ ∀ p, (v.file s.2 p).isSome → v.file t p = v.file s.2 p) ∧
    ∀ w ∈ s.1, ∀ script : ExecutedScript, Ends (recordContext fs (some script)) (w, s.2)
      (fun _ next ↦ script.hash ∈ next.1.written ∧ (script.hash ∉ w.written →
        (v.file next.2 (artifactPlace v w.directory script)).isSome))
      fun _ next ↦ next.1.written = w.written := by
  intro s
  have hbegin := shared_nil h₀
  have hshared : Shared v s := hbegin.interleave hfs steps
  have hlogs : ∀ p, p ∉ logs v ([] : List CoverageWriter) := by
    rintro p ⟨w, hw, -⟩
    exact absurd hw List.not_mem_nil
  refine ⟨fun p hsome ↦ file_interleave_eq hfs hbegin steps hsome (hlogs p),
    fun script p hmakes ↦ hmakes.file_eq hfs hbegin, fun p hsome ↦ ?_, fun w hw ↦ ?_,
    fun directory script ↦ ?_, fun w hw script ↦ ?_⟩
  · cases hfile : v.file t₀ p with
    | none => exact .inr (mem_logs_or_makes hfs hbegin hfile hsome)
    | some content => exact .inl rfl
  · obtain ⟨i, hi⟩ := List.mem_iff_getElem?.mp hw
    exact hshared.written i w hi
  · refine (writeArtifact_ends hfs hshared.sound directory script).mono ?_ ?_ <;>
    · rintro _ t ⟨hwithin, -⟩ p hsome
      exact hwithin.file p fun hmem ↦ FileView.notMem_free hsome hmem.2
  · obtain ⟨i, hi⟩ := List.mem_iff_getElem?.mp hw
    refine (recordContext_ends hfs hshared.sound (hshared.live i w hi) script).mono ?_ ?_
    · rintro _ next ⟨-, hmem, hfile⟩
      exact ⟨hmem, hfile⟩
    · rintro _ next ⟨-, hsame⟩
      exact congrArg written hsame

/-- Of two sessions one fails to write a script and the other then writes it, over files in memory.
-/
theorem interleave_artifacts_of_memory :
    let script := ExecutedScript.script .zero [1, 2]
    let path := "out/0x0000000000000000000000000000000000000000.neo-script"
    let full : FaultRule := ⟨.write, ".neo-script", ⟨.storageFull, "full"⟩, 1, some 1⟩
    let store : MemoryStore := .ofFiles [("out/kept", [9])] [full]
    let attempted := [Step.start "out" "a", .start "out" "b", .operate 0 (.context (some script))]
    let steps := attempted ++ [.operate 1 (.context (some script)), .operate 0 .close]
    store.Fair ∧
      MemoryStore.view.file (interleave MemoryStore.storage attempted ([], store)).2 path = none ∧
      Makes MemoryStore.storage MemoryStore.view steps ([], store) script path ∧
      MemoryStore.view.file (interleave MemoryStore.storage steps ([], store)).2 path =
        some script.artifact ∧
      MemoryStore.view.file (interleave MemoryStore.storage steps ([], store)).2 "out/kept" =
        some [9] := by
  intro script path full store attempted steps
  have hfair : store.Fair := by
    intro r hr
    obtain rfl := List.mem_singleton.mp hr
    exact ⟨by decide, by decide⟩
  have hnone : MemoryStore.view.file (interleave MemoryStore.storage attempted ([], store)).2 path =
      none := by decide +kernel
  obtain ⟨hkept, hwhole, -⟩ :=
    interleave_artifacts MemoryStore.lawful hfair steps
  have hmakes : Makes MemoryStore.storage MemoryStore.view steps ([], store) script path := by
    have hdirectory : ((interleave MemoryStore.storage attempted ([], store)).1[1]?.map
        (·.directory)) = some "out" := by decide +kernel
    obtain ⟨w, hw, hout⟩ := Option.map_eq_some_iff.mp hdirectory
    refine ⟨attempted, [.operate 0 .close], 1, w, rfl, hw, ?_, hnone, ?_⟩
    · rw [hout]
      decide +kernel
    · decide +kernel
  have hold : MemoryStore.view.file store "out/kept" = some [9] := by decide +kernel
  refine ⟨hfair, hnone, hmakes, hwhole script path hmakes, (hkept "out/kept" ?_).trans hold⟩
  rw [hold, Option.isSome_some]

end CoverageWriter

end ScriptTrace
