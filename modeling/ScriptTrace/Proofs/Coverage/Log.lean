import ScriptTrace.Coverage.Recorder
import ScriptTrace.Proofs.Coverage.Line
import ScriptTrace.Proofs.Storage.Reliable

/-!
The log of a coverage session on a storage that does not fail. Every line that is recorded stands
behind those before it, and the files of scripts leave the log alone.
-/

set_option autoImplicit false
set_option relaxedAutoImplicit false

namespace ScriptTrace

namespace CoverageWriter

variable {τ : Type} {fs : Storage τ} {sound : τ → Prop} {content : τ → Handle → Option Bytes}

/-- The storage is sound, and the log of a writer is open and holds some lines. -/
structure Holds (sound : τ → Prop) (content : τ → Handle → Option Bytes) (w : CoverageWriter)
    (t : τ) (lines : List CoverageLine) : Prop where
  sound : sound t
  content_eq : ∃ log, w.log = some log ∧ content t log = some (CoverageLine.text lines)

section Writing

variable (hfs : fs.Reliable sound content)
include hfs

/-- Pieces stand in the stream one after the other. -/
theorem succeeds_writePieces {h : Handle} {before : Bytes} {t : τ} (ht : sound t)
    (hbefore : content t h = some before) (pieces : List String) :
    Succeeds (pieces.forM fun piece ↦ fs.write h (Bytes.ofString piece)) t fun _ t' ↦ sound t' ∧
      content t' h = some (before ++ pieces.flatMap Bytes.ofString) := by
  induction pieces generalizing before t with
  | nil => exact .pure ⟨ht, by rw [hbefore, List.flatMap_nil, List.append_nil]⟩
  | cons piece rest ih =>
    obtain ⟨t₁, hrun, ht₁, hcontent⟩ := hfs.write h (Bytes.ofString piece) before t ht hbefore
    have hpiece : content t₁ h = some (before ++ Bytes.ofString piece) := by
      rw [hcontent, Function.update_self]
    have hrest := ih ht₁ hpiece
    rw [List.append_assoc] at hrest
    exact Succeeds.bind (P := fun _ t₂ ↦ t₂ = t₁) ⟨(), t₁, hrun, rfl⟩
      fun _ _ heq ↦ heq ▸ hrest

theorem succeeds_writeLine {w : CoverageWriter} {t : τ} {lines : List CoverageLine}
    (hholds : Holds sound content w t lines) (line : CoverageLine) :
    Succeeds (writeLine fs line) (w, t) fun _ next ↦ w = next.1 ∧
      Holds sound content w next.2 (lines ++ [line]) := by
  obtain ⟨log, hlog, hcontent⟩ := hholds.content_eq
  apply Succeeds.get_bind
  simp only [hlog]
  refine .onSecond (.failingWith ((succeeds_writePieces hfs hholds.sound hcontent _).mono ?_))
  intro _ t' hnext
  obtain ⟨ht', hcontent'⟩ := hnext
  refine ⟨rfl, ht', log, hlog, ?_⟩
  rw [hcontent', CoverageLine.text, CoverageLine.text, List.flatMap_append, List.flatMap_cons,
    List.flatMap_nil, List.append_nil, CoverageLine.bytes]

/-- A new file is written, flushed and given up, and another stream keeps what it holds. -/
theorem succeeds_writeNew {file log : Handle} {t : τ} {held : Bytes} (hne : log ≠ file)
    (ht : sound t) (hfile : content t file = some []) (hlog : content t log = some held)
    (path : String) (bs : Bytes) :
    Succeeds (writeNew fs path file bs) t fun _ t' ↦ sound t' ∧ content t' log = some held := by
  obtain ⟨t₁, hwrite, ht₁, hcontent₁⟩ := hfs.write file bs [] t ht hfile
  have hopen : (content t₁ file).isSome := by rw [hcontent₁, Function.update_self]; rfl
  obtain ⟨t₂, hflush, ht₂, hcontent₂⟩ := hfs.flush file t₁ ht₁ hopen
  obtain ⟨ht₃, hcontent₃⟩ := hfs.release file t₂ ht₂
  have hboth : (fs.write file bs >>= fun _ ↦ fs.flush file) t = .ok () t₂ := by
    rw [bind_ok hwrite, hflush]
  refine (Succeeds.attempt (P := fun outcome t' ↦ outcome = .ok () ∧ t₂ = t')
    (.inl ⟨(), t₂, hboth, rfl, rfl⟩)).bind ?_
  intro _ _ hnext
  obtain ⟨rfl, rfl⟩ := hnext
  apply (Succeeds.modify (P := fun _ t' ↦ fs.release file t₂ = t') rfl).bind
  intro _ _ hnext
  subst hnext
  refine .pure ⟨ht₃, ?_⟩
  rw [hcontent₃ log hne, hcontent₂, hcontent₁, Function.update_of_ne hne, hlog]

/-- The file of a script is another stream than the log. -/
theorem succeeds_writeArtifact {w : CoverageWriter} {t : τ} {lines : List CoverageLine}
    (hholds : Holds sound content w t lines) (directory : String) (script : ExecutedScript) :
    Succeeds (writeArtifact fs directory script) t fun _ t' ↦ Holds sound content w t' lines := by
  obtain ⟨log, hlog, hcontent⟩ := hholds.content_eq
  rcases hfs.createNew (joinPath directory script.fileName) t hholds.sound with
    ⟨file, t₁, hrun, ht₁, hfree, hopened⟩ | ⟨e, t₁, hrun, hkind, ht₁, hsame⟩
  · have hne : log ≠ file := by
      rintro rfl
      rw [hfree] at hcontent
      cases hcontent
    have hfile : content t₁ file = some [] := by rw [hopened, Function.update_self]
    have hlog₁ : content t₁ log = some (CoverageLine.text lines) := by
      rw [hopened, Function.update_of_ne hne, hcontent]
    refine (Succeeds.attempt (P := fun outcome t' ↦ outcome = .ok file ∧ t₁ = t')
      (.inl ⟨file, t₁, hrun, rfl, rfl⟩)).bind ?_
    intro _ _ hnext
    obtain ⟨rfl, rfl⟩ := hnext
    apply (succeeds_writeNew hfs hne ht₁ hfile hlog₁ _ _).mono
    intro _ t' hnext
    obtain ⟨ht', hcontent'⟩ := hnext
    exact ⟨ht', log, hlog, hcontent'⟩
  · refine (Succeeds.attempt (P := fun outcome t' ↦ outcome = .error e ∧ t₁ = t')
      (.inr ⟨e, t₁, hrun, rfl, rfl⟩)).bind ?_
    intro _ _ hnext
    obtain ⟨rfl, rfl⟩ := hnext
    simp only [if_pos hkind]
    exact .pure ⟨ht₁, log, hlog, by rw [hsame, hcontent]⟩

/-- Recording the current script is a hash line in the same log, the zero hash standing for none. -/
theorem succeeds_recordContext_log {w : CoverageWriter} {t : τ} {lines : List CoverageLine}
    (hholds : Holds sound content w t lines) (script : Option ExecutedScript) :
    Succeeds (recordContext fs script) (w, t) fun _ next ↦ next.1.log = w.log ∧
      Holds sound content next.1 next.2
        (lines ++ [.current ((script.map (·.hash)).getD Hash.zero)]) := by
  cases script with
  | none =>
    apply (succeeds_writeLine hfs hholds _).mono
    intro _ next hnext
    obtain ⟨_, t'⟩ := next
    obtain ⟨rfl, hholds'⟩ := hnext
    exact ⟨rfl, hholds'⟩
  | some s =>
    apply (succeeds_writeLine hfs hholds _).bind
    intro _ next hnext
    obtain ⟨_, t₁⟩ := next
    obtain ⟨rfl, hholds₁⟩ := hnext
    apply Succeeds.get_bind
    dsimp only
    split
    · exact .pure ⟨rfl, hholds₁⟩
    · have hartifact := succeeds_writeArtifact hfs hholds₁ w.directory s
      refine (Succeeds.onSecond (P := fun _ next ↦ w = next.1 ∧ Holds sound content w next.2 _)
        (hartifact.mono fun _ _ hnext ↦ ⟨rfl, hnext⟩)).bind ?_
      intro _ next hnext
      obtain ⟨_, t₂⟩ := next
      obtain ⟨rfl, hholds₂⟩ := hnext
      exact .modify ⟨rfl, hholds₂.sound, hholds₂.content_eq⟩

theorem succeeds_recordContext {w : CoverageWriter} {t : τ} {lines : List CoverageLine}
    (hholds : Holds sound content w t lines) (script : Option ExecutedScript) :
    Succeeds (recordContext fs script) (w, t) fun _ next ↦ Holds sound content next.1 next.2
      (lines ++ [.current ((script.map (·.hash)).getD Hash.zero)]) :=
  (succeeds_recordContext_log hfs hholds script).mono fun _ _ hnext ↦ hnext.2

/-- A session starts with an empty log. -/
theorem holds_start {directory sessionName : String} {w : CoverageWriter} {t t' : τ}
    (ht : sound t) (hstart : start fs directory sessionName t = .ok w t') :
    Holds sound content w t' [] := by
  obtain ⟨t₁, hdirectory, ht₁, -⟩ := hfs.createDirectory directory t ht
  obtain ⟨_, t₂, hmade, hnext⟩ := bind_eq_ok hstart
  simp only [failing, failingWith, hdirectory, EStateM.Result.ok.injEq] at hmade
  obtain ⟨-, rfl⟩ := hmade
  obtain ⟨log, t₃, hcreate, hlast⟩ := bind_eq_ok hnext
  obtain ⟨rfl, rfl⟩ := EStateM.Result.ok.inj hlast
  rcases hfs.createNew (joinPath directory (sessionName ++ ".neo-coverage")) t₁ ht₁ with
    ⟨file, t₄, hrun, ht₄, -, hopened⟩ | ⟨e, t₄, hrun, -⟩
  · simp only [failing, failingWith, hrun, EStateM.Result.ok.injEq] at hcreate
    obtain ⟨rfl, rfl⟩ := hcreate
    exact ⟨ht₄, file, rfl, by rw [hopened, Function.update_self]; rfl⟩
  · simp only [failing, failingWith, hrun] at hcreate
    cases hcreate

end Writing

end CoverageWriter

/-- An operation of the writer of a recorder. -/
theorem CoverageRecorder.succeeds_onWriter {τ α : Type} {x : CoverageWriter.Recording τ α}
    {r : CoverageRecorder} {t : τ} {P : α → CoverageRecorder × τ → Prop}
    (hx : Succeeds x (r.writer, t) fun a next ↦ P a ({ r with writer := next.1 }, next.2)) :
    Succeeds (onWriter x) (r, t) P := by
  obtain ⟨a, next, hrun, hpost⟩ := hx
  refine ⟨a, ({ r with writer := next.1 }, next.2), ?_, hpost⟩
  simp only [onWriter, hrun]

end ScriptTrace
