import ScriptTrace.Coverage.Writer
import ScriptTrace.Proofs.Storage.Lawful

/-!
What the operations of a session do to files, over a storage that may fail at any point but keeps
its word. An operation changes no file that is there but the log of its session, and makes none but
that of the script it records, which is whole or removed again (`Acts`).
-/

set_option autoImplicit false
set_option relaxedAutoImplicit false

namespace ScriptTrace

namespace CoverageWriter

variable {τ Λ : Type} {fs : Storage τ} {v : FileView τ Λ}

/-- Where the file of a script is kept. -/
def artifactPlace (v : FileView τ Λ) (directory : String) (script : ExecutedScript) : Λ :=
  v.place (joinPath directory script.fileName)

/-- Where the file of a script is kept, if there is a script. -/
def artifactPlaces (v : FileView τ Λ) (directory : String) (script : Option ExecutedScript) :
    Set Λ :=
  { p | ∃ s ∈ script, p = artifactPlace v directory s }

/-- The log of a session is there, and until it is closed its stream is open. -/
structure Live (v : FileView τ Λ) (w : CoverageWriter) (t : τ) : Prop where
  file : (v.file t (v.place w.logPath)).isSome
  stream : ∀ log, w.log = some log → ∃ taken, v.Open log (v.place w.logPath) taken t

theorem Live.within {w : CoverageWriter} {ps : Set Λ} {t t' : τ} (hlive : Live v w t)
    (hwithin : v.Within ps t t') (hlog : v.place w.logPath ∉ ps) : Live v w t' where
  file := hwithin.file _ hlog ▸ hlive.file
  stream log hopen := by
    obtain ⟨taken, hstream⟩ := hlive.stream log hopen
    exact ⟨taken, hwithin.open hlog hstream⟩

/-- A line was written, as a whole or in part, and nothing else. -/
structure Logged (v : FileView τ Λ) (w : CoverageWriter) (t : τ) (s : CoverageWriter × τ) :
    Prop where
  writer : s.1 = w
  within : v.Within {v.place w.logPath} t s.2
  live : Live v w s.2

section Operations

variable (hfs : fs.Lawful v) {w : CoverageWriter} {t : τ}
include hfs

theorem forM_write_ends {γ : Type} (f : γ → Bytes) (xs : List γ) {h : Handle} {p : Λ}
    {taken : Bytes} (hs : v.sound t) (hopen : v.Open h p taken t) :
    Ends (xs.forM fun x ↦ fs.write h (f x)) t
      (fun _ t' ↦ v.Within {p} t t' ∧ ∃ taken', v.Open h p taken' t')
      fun _ t' ↦ v.Within {p} t t' ∧ ∃ taken', v.Open h p taken' t' := by
  induction xs generalizing taken t with
  | nil => exact .pure ⟨.refl hs, taken, hopen⟩
  | cons x rest ih =>
    refine ((hfs.write h (f x) p taken t hs hopen).mono_error ?_).bind ?_
    · rintro _ t' ⟨hwithin, part, -, hopen'⟩
      exact ⟨hwithin, _, hopen'⟩
    · rintro _ t₁ ⟨hwithin, hopen₁⟩
      refine (ih hwithin.sound hopen₁).mono ?_ ?_ <;>
      · rintro _ t' ⟨hwithin', hopen'⟩
        exact ⟨hwithin.trans hwithin', hopen'⟩

/-- Writing a line changes nothing but the log. -/
theorem writeLine_ends (hs : v.sound t) (hlive : Live v w t) (line : CoverageLine) :
    Ends (writeLine fs line) (w, t) (fun _ ↦ Logged v w t) fun _ ↦ Logged v w t := by
  apply Ends.get_bind
  cases hlog : w.log with
  | none =>
    simp only [hlog]
    exact .throw ⟨rfl, .refl hs, hlive⟩
  | some log =>
    simp only [hlog]
    obtain ⟨taken, hopen⟩ := hlive.stream log hlog
    have hkept : ∀ t', v.Within {v.place w.logPath} t t' ∧
        (∃ taken', v.Open log (v.place w.logPath) taken' t') → Logged v w t (w, t') := by
      rintro t' ⟨hwithin, taken', hopen'⟩
      refine ⟨rfl, hwithin, hopen'.file, fun other hother ↦ ?_⟩
      obtain rfl := Option.some.inj (hlog.symm.trans hother)
      exact ⟨taken', hopen'⟩
    exact .onSecond (.failingWith ((forM_write_ends hfs _ line.pieces hs hopen).mono
      (fun _ ↦ hkept) fun _ ↦ hkept))

/-- A new file is written as a whole or removed again. -/
theorem writeNew_ends {path : String} {file : Handle} (content : Bytes) (hs : v.sound t)
    (hopen : v.Open file (v.place path) [] t) :
    Ends (writeNew fs path file content) t
      (fun _ t' ↦ v.Within {v.place path} t t' ∧ v.file t' (v.place path) = some content)
      fun _ t' ↦ v.Within {v.place path} t t' ∧ v.file t' (v.place path) = none := by
  have hwritten : Ends (fs.write file content >>= fun _ ↦ fs.flush file) t
      (fun _ t₁ ↦ v.Within {v.place path} t t₁ ∧ v.Open file (v.place path) content t₁ ∧
        v.file t₁ (v.place path) = some content)
      fun _ t₁ ↦ v.Within {v.place path} t t₁ ∧ ∃ taken, v.Open file (v.place path) taken t₁ := by
    refine ((hfs.write file content _ [] t hs hopen).mono_error ?_).bind ?_
    · rintro _ t₁ ⟨hwithin, part, -, hopen₁⟩
      exact ⟨hwithin, part, hopen₁⟩
    · rintro _ t₁ ⟨hwithin, hopen₁⟩
      refine (hfs.flush file _ _ t₁ hwithin.sound hopen₁).mono ?_ ?_
      · rintro _ t₂ ⟨hwithin', hopen₂, hfile⟩
        exact ⟨hwithin.trans hwithin', hopen₂, hfile⟩
      · rintro _ t₂ ⟨hwithin', hopen₂⟩
        exact ⟨hwithin.trans hwithin', content, hopen₂⟩
  refine hwritten.attempt_bind ?_ ?_
  · rintro _ t₁ ⟨hwithin, hopen₁, hfile⟩
    obtain ⟨hreleased, -, hkept⟩ := hfs.release file _ _ t₁ hwithin.sound hopen₁
    exact .modify_bind (.pure ⟨hwithin.trans hreleased, hkept hfile⟩)
  · rintro e t₁ ⟨hwithin, taken, hopen₁⟩
    obtain ⟨hreleased, hfile, -⟩ := hfs.release file _ _ t₁ hwithin.sound hopen₁
    have hremove := hfs.removeFile path _ hreleased.sound hfile
    refine .modify_bind ((Ends.of_succeeds hremove).attempt_bind (Q := fun _ _ ↦ False) ?_ ?_)
    · rintro _ t₂ ⟨hremoved, hnone⟩
      exact .throw ⟨(hwithin.trans hreleased).trans hremoved, hnone⟩
    · exact fun _ _ hfalse ↦ hfalse.elim

/-- Writing the file of a script changes nothing where a file is. If it fails there is no more of
the file than before. -/
theorem writeArtifact_ends (hs : v.sound t) (directory : String) (script : ExecutedScript) :
    Ends (writeArtifact fs directory script) t
      (fun _ t' ↦ v.Within ({artifactPlace v directory script} ∩ v.free t) t t' ∧
        v.file t' (artifactPlace v directory script) =
          some ((v.file t (artifactPlace v directory script)).getD script.artifact))
      fun _ t' ↦ v.Within ({artifactPlace v directory script} ∩ v.free t) t t' ∧
        v.file t' (artifactPlace v directory script) =
          v.file t (artifactPlace v directory script) := by
  refine (hfs.createNew (joinPath directory script.fileName) t hs).attempt_bind ?_ ?_
  · rintro file t₁ ⟨hfree, hwithin, hopen⟩
    have hsub : {artifactPlace v directory script} ⊆
        {artifactPlace v directory script} ∩ v.free t :=
      Set.singleton_subset_iff.mpr ⟨rfl, hfree⟩
    refine (writeNew_ends hfs script.artifact hwithin.sound hopen).mono ?_ ?_
    · rintro _ t' ⟨hwithin', hfile⟩
      refine ⟨(hwithin.trans hwithin').mono hsub, hfile.trans ?_⟩
      rw [artifactPlace, hfree, Option.getD_none]
    · rintro _ t' ⟨hwithin', hnone⟩
      exact ⟨(hwithin.trans hwithin').mono hsub, hnone.trans hfree.symm⟩
  · rintro e t₁ ⟨hwithin, htaken⟩
    have hsame := hwithin.file (artifactPlace v directory script) (Set.notMem_empty _)
    by_cases hkind : e.kind = .alreadyExists
    · simp only [hkind, if_true]
      obtain ⟨content, hfile⟩ := Option.isSome_iff_exists.mp (htaken hkind)
      refine .pure ⟨hwithin.mono (Set.empty_subset _), ?_⟩
      rw [hsame, artifactPlace, hfile, Option.getD_some]
    · simp only [hkind, if_false]
      exact .throw ⟨hwithin.mono (Set.empty_subset _), hsame⟩

end Operations

/-- What an operation of a session may do, when it records a script or none. -/
structure Acts (v : FileView τ Λ) (script : Option ExecutedScript) (w : CoverageWriter) (t : τ)
    (w' : CoverageWriter) (t' : τ) : Prop where
  directory : w'.directory = w.directory
  logPath : w'.logPath = w.logPath
  live : Live v w' t'
  /-- Only the log changes, and the file of the script if there is none. -/
  within : v.Within
    (insert (v.place w.logPath) (artifactPlaces v w.directory script ∩ v.free t)) t t'
  /-- If the file of the script is made, then as a whole. -/
  artifact : ∀ s ∈ script, v.file t (artifactPlace v w.directory s) = none →
    v.file t' (artifactPlace v w.directory s) = none ∨
      v.file t' (artifactPlace v w.directory s) = some s.artifact
  /-- A script is remembered only if it has a file. -/
  written : w'.written = w.written ∨ ∃ s ∈ script, w'.written = s.hash :: w.written ∧
    (v.file t' (artifactPlace v w.directory s)).isSome

/-- Files that are there stay, and stay the same but for the log. -/
theorem Acts.kept {script : Option ExecutedScript} {w w' : CoverageWriter} {t t' : τ}
    (hacts : Acts v script w t w' t') {p : Λ} (hp : (v.file t p).isSome)
    (hlog : p ≠ v.place w.logPath) : v.file t' p = v.file t p :=
  hacts.within.file p (not_or.mpr ⟨hlog, fun hmem ↦ FileView.notMem_free hp hmem.2⟩)

theorem Acts.isSome {script : Option ExecutedScript} {w w' : CoverageWriter} {t t' : τ}
    (hacts : Acts v script w t w' t') {p : Λ} (hp : (v.file t p).isSome) :
    (v.file t' p).isSome := by
  by_cases hlog : p = v.place w.logPath
  · rw [hlog, ← hacts.logPath]
    exact hacts.live.file
  · rwa [hacts.kept hp hlog]

/-- Every script that is remembered has a file, if those that were remembered before had one. -/
theorem Acts.exists_file {script : Option ExecutedScript} {w w' : CoverageWriter} {t t' : τ}
    (hacts : Acts v script w t w' t') (hold : ∀ hash ∈ w.written, ∃ s : ExecutedScript,
      s.hash = hash ∧ (v.file t (artifactPlace v w.directory s)).isSome) :
    ∀ hash ∈ w'.written, ∃ s : ExecutedScript,
      s.hash = hash ∧ (v.file t' (artifactPlace v w'.directory s)).isSome := by
  intro hash hhash
  rw [hacts.directory]
  have hkept (hmem : hash ∈ w.written) : ∃ s : ExecutedScript,
      s.hash = hash ∧ (v.file t' (artifactPlace v w.directory s)).isSome := by
    obtain ⟨s, hs, hfile⟩ := hold hash hmem
    exact ⟨s, hs, hacts.isSome hfile⟩
  rcases hacts.written with hsame | ⟨s, -, hcons, hfile⟩
  · exact hkept (hsame ▸ hhash)
  · rw [hcons] at hhash
    rcases List.mem_cons.mp hhash with rfl | hmem
    · exact ⟨s, rfl, hfile⟩
    · exact hkept hmem

/-- A new file is that of the script, as a whole. -/
theorem Acts.exists_artifact {script : Option ExecutedScript} {w w' : CoverageWriter} {t t' : τ}
    (hacts : Acts v script w t w' t') (hlog : (v.file t (v.place w.logPath)).isSome) {p : Λ}
    (hnone : v.file t p = none) (hsome : (v.file t' p).isSome) :
    ∃ s ∈ script, p = artifactPlace v w.directory s ∧ v.file t' p = some s.artifact := by
  have hchanged : p ∈ insert (v.place w.logPath)
      (artifactPlaces v w.directory script ∩ v.free t) := by
    by_contra hp
    rw [hacts.within.file p hp, hnone] at hsome
    exact Bool.noConfusion hsome
  -- The log has a file already, so the new one is of the script.
  rcases hchanged with rfl | ⟨⟨s, hs, rfl⟩, -⟩
  · exact absurd hnone (FileView.notMem_free hlog)
  · refine ⟨s, hs, rfl, (hacts.artifact s hs hnone).resolve_left fun hnone' ↦ ?_⟩
    rw [hnone'] at hsome
    exact Bool.noConfusion hsome

theorem Logged.acts {w : CoverageWriter} {t : τ} {s : CoverageWriter × τ}
    (hlogged : Logged v w t s) (hlog : (v.file t (v.place w.logPath)).isSome)
    (script : Option ExecutedScript) : Acts v script w t s.1 s.2 where
  directory := congrArg directory hlogged.writer
  logPath := congrArg logPath hlogged.writer
  live := hlogged.writer.symm ▸ hlogged.live
  within := hlogged.within.mono (Set.singleton_subset_iff.mpr (Set.mem_insert _ _))
  artifact s _ hnone := by
    refine .inl ((hlogged.within.file _ fun hmem ↦ ?_).trans hnone)
    rw [Set.mem_singleton_iff.mp hmem] at hnone
    exact FileView.notMem_free hlog hnone
  written := .inl (congrArg written hlogged.writer)

/-- A line is written, and then the file of a script if there is none. -/
theorem acts_of_artifact {script : ExecutedScript} {w : CoverageWriter} {t t₁ t' : τ}
    {written : List Hash} (hlive : Live v w t) (hlogged : Logged v w t (w, t₁))
    (hwithin : v.Within ({artifactPlace v w.directory script} ∩ v.free t₁) t₁ t')
    (hfile : v.file t₁ (artifactPlace v w.directory script) = none →
      v.file t' (artifactPlace v w.directory script) = none ∨
        v.file t' (artifactPlace v w.directory script) = some script.artifact)
    (hwritten : written = w.written ∨ written = script.hash :: w.written ∧
      (v.file t' (artifactPlace v w.directory script)).isSome) :
    Acts v (some script) w t { w with written := written } t' where
  directory := rfl
  logPath := rfl
  live := by
    have hlive' := hlogged.live.within hwithin fun hmem ↦
      FileView.notMem_free hlogged.live.file hmem.2
    exact ⟨hlive'.file, hlive'.stream⟩
  within := by
    refine (hlogged.within.mono (Set.singleton_subset_iff.mpr (Set.mem_insert _ _))).trans
      (hwithin.mono ?_)
    rintro p ⟨hp, hfree⟩
    by_cases hlog : p = v.place w.logPath
    · exact .inl hlog
    · exact .inr ⟨⟨script, rfl, hp⟩, (hlogged.within.file p hlog).symm.trans hfree⟩
  artifact s hs hnone := by
    obtain rfl := Option.some.inj hs
    refine hfile ((hlogged.within.file _ fun hlog ↦ ?_).trans hnone)
    rw [Set.mem_singleton_iff.mp hlog] at hnone
    exact FileView.notMem_free hlive.file hnone
  written := hwritten.imp_right fun h ↦ ⟨script, rfl, h⟩

section Recording

variable (hfs : fs.Lawful v) {w : CoverageWriter} {t : τ} (hs : v.sound t) (hlive : Live v w t)
include hfs hs hlive

/-- A script that is recorded has a file from then on. If that fails, the session remembers what it
did before. -/
theorem recordContext_ends (script : ExecutedScript) :
    Ends (recordContext fs (some script)) (w, t)
      (fun _ s ↦ Acts v (some script) w t s.1 s.2 ∧ script.hash ∈ s.1.written ∧
        (script.hash ∉ w.written → (v.file s.2 (artifactPlace v w.directory script)).isSome))
      fun _ s ↦ Acts v (some script) w t s.1 s.2 ∧ s.1 = w := by
  refine ((writeLine_ends hfs hs hlive (.current script.hash)).mono_error ?_).bind ?_
  · intro _ s hlogged
    exact ⟨hlogged.acts hlive.file _, hlogged.writer⟩
  · rintro _ ⟨w₁, t₁⟩ hlogged
    obtain rfl : w₁ = w := hlogged.writer
    apply Ends.get_bind
    by_cases hmem : script.hash ∈ w₁.written
    · simp only [List.contains_iff_mem.mpr hmem, if_true]
      exact .pure ⟨hlogged.acts hlive.file _, hmem, fun hnot ↦ absurd hmem hnot⟩
    · have hcontains : w₁.written.contains script.hash = false := by simpa using hmem
      simp only [hcontains, Bool.false_eq_true, if_false]
      refine (writeArtifact_ends hfs hlogged.within.sound w₁.directory script).onSecond_bind ?_ ?_
      · rintro _ t' ⟨hwithin, hfile⟩
        have hsome : (v.file t' (artifactPlace v w₁.directory script)).isSome := by
          rw [hfile, Option.isSome_some]
        refine ⟨acts_of_artifact hlive hlogged hwithin (fun hnone ↦ .inr ?_)
          (.inr ⟨rfl, hsome⟩), List.mem_cons_self, fun _ ↦ hsome⟩
        rw [hfile, hnone, Option.getD_none]
      · rintro _ t' ⟨hwithin, hsame⟩
        exact ⟨acts_of_artifact hlive hlogged hwithin (fun hnone ↦ .inl (hsame.trans hnone))
          (.inl rfl), rfl⟩

theorem close_ends :
    Ends (close fs) (w, t) (fun _ s ↦ Acts v none w t s.1 s.2)
      fun _ s ↦ Acts v none w t s.1 s.2 := by
  apply Ends.get_bind
  cases hlog : w.log with
  | none =>
    simp only [hlog]
    exact .throw ((⟨rfl, .refl hs, hlive⟩ : Logged v w t (w, t)).acts hlive.file none)
  | some log =>
    simp only [hlog]
    obtain ⟨taken, hopen⟩ := hlive.stream log hlog
    apply Ends.modify_bind
    have hflush : Ends (attempt (fs.flush log) : EStateM TracerError τ (Except IoError Unit)) t
        (fun _ t₁ ↦ v.Within {v.place w.logPath} t t₁ ∧ v.Open log (v.place w.logPath) taken t₁)
        fun _ _ ↦ False :=
      .attempt ((hfs.flush log _ taken t hs hopen).mono
        (fun _ _ hpost ↦ ⟨hpost.1, hpost.2.1⟩) fun _ _ hpost ↦ hpost)
    refine hflush.onSecond_bind ?_ fun _ _ hfalse ↦ hfalse.elim
    rintro outcome t₁ ⟨hwithin, hopen₁⟩
    obtain ⟨hreleased, hfile, -⟩ := hfs.release log _ taken t₁ hwithin.sound hopen₁
    have hacts : Acts v none w t { w with log := none } (fs.release log t₁) := {
      directory := rfl
      logPath := rfl
      live := ⟨hfile, fun _ hnone ↦ nomatch hnone⟩
      within := (hwithin.trans hreleased).mono (Set.singleton_subset_iff.mpr (Set.mem_insert _ _))
      artifact := fun _ hnone ↦ nomatch hnone
      written := .inl rfl }
    apply Ends.modify_bind
    cases outcome with
    | ok _ => exact .pure hacts
    | error e => exact .throw hacts

end Recording

end CoverageWriter

end ScriptTrace
