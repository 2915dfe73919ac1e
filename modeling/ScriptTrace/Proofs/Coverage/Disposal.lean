import ScriptTrace.Coverage.Engine
import ScriptTrace.Proofs.Coverage.Recording
import ScriptTrace.Proofs.Session.Disposal
import ScriptTrace.Proofs.Storage.Ledger

/-!
The life of a coverage session, by the ledger of its storage. The log is the first stream that is
opened (`fresh_start`). Whatever a recorder is told of, it writes to the log and to streams opened
later, and flushes the latter only (`observer_keeps`); closing flushes the log once, also if the
flush fails (`close_flushes`).
-/

set_option autoImplicit false
set_option relaxedAutoImplicit false

namespace ScriptTrace

open Storage

namespace CoverageWriter

variable {σ : Type} {fs : Storage σ}

/-- The log of a writer is the first stream, and was not flushed. -/
def Fresh (host : CoverageWriter × Ledger × σ) : Prop :=
  host.1.log = some 0 ∧ Unflushed host.2.1

theorem writeLine_fresh {w : CoverageWriter} {s : Ledger × σ} (h : Fresh (w, s))
    (line : CoverageLine) :
    Ends (writeLine fs.noting line) (w, s) (fun _ ↦ Fresh) fun _ ↦ Fresh := by
  obtain ⟨hlog, hunflushed⟩ := h
  replace hlog : w.log = some 0 := hlog
  refine .get_bind ?_
  simp only [hlog]
  have hwrite : ∀ (piece : String) (s : Ledger × σ), Unflushed s.1 →
      Ends (fs.noting.write 0 (Bytes.ofString piece)) s (fun _ s' ↦ Unflushed s'.1)
        fun _ s' ↦ Unflushed s'.1 :=
    fun piece s hs ↦ write_keeps hs 0 (Bytes.ofString piece)
  exact .onSecond (.failingWith ((Ends.forM hwrite line.pieces hunflushed).mono
    (fun _ _ hs ↦ ⟨hlog, hs⟩) fun _ _ hs ↦ ⟨hlog, hs⟩))

section Artifacts

variable {s : Ledger × σ} (hs : Unflushed s.1)
include hs

theorem writeNew_unflushed {path : String} {stream : Nat} (hstream : stream ≠ 0)
    (content : Bytes) :
    Ends (writeNew fs.noting path stream content) s (fun _ s' ↦ Unflushed s'.1)
      fun _ s' ↦ Unflushed s'.1 := by
  have hwritten : Ends (fs.noting.write stream content >>= fun _ ↦ fs.noting.flush stream) s
      (fun _ s' ↦ Unflushed s'.1) fun _ s' ↦ Unflushed s'.1 :=
    (write_keeps hs stream content).bind fun _ s' hs' ↦ flush_keeps hs' hstream
  refine hwritten.attempt_bind ?_ ?_
  · exact fun _ s' hs' ↦ .modify_bind (.pure (release_keeps hs' stream))
  · intro e s' hs'
    refine .modify_bind ?_
    have hreleased : Unflushed (fs.noting.release stream s').1 := release_keeps hs' stream
    have hremove : Ends (fs.noting.removeFile path) (fs.noting.release stream s')
        (fun _ s'' ↦ Unflushed s''.1) fun _ s'' ↦ Unflushed s''.1 :=
      removeFile_keeps hreleased path
    exact hremove.attempt_bind (fun _ _ hs'' ↦ .throw hs'') fun _ _ hs'' ↦ .throw hs''

theorem writeArtifact_unflushed (directory : String) (script : ExecutedScript) :
    Ends (writeArtifact fs.noting directory script) s (fun _ s' ↦ Unflushed s'.1)
      fun _ s' ↦ Unflushed s'.1 := by
  refine (createNew_keeps hs (joinPath directory script.fileName)).attempt_bind ?_ ?_
  · rintro stream s' ⟨hstream, hs'⟩
    exact writeNew_unflushed hs' hstream script.artifact
  · intro e s' hs'
    by_cases hkind : e.kind = .alreadyExists
    · simp only [hkind, if_true]
      exact .pure hs'
    · simp only [hkind, if_false]
      exact .throw hs'

end Artifacts

section Recording

variable {w : CoverageWriter} {s : Ledger × σ} (h : Fresh (w, s))
include h

theorem recordContext_fresh (script : Option ExecutedScript) :
    Ends (recordContext fs.noting script) (w, s) (fun _ ↦ Fresh) fun _ ↦ Fresh := by
  cases script with
  | none => exact writeLine_fresh h _
  | some script =>
    refine (writeLine_fresh h _).bind ?_
    rintro _ ⟨w', s'⟩ ⟨hlog, hunflushed⟩
    refine .get_bind ?_
    dsimp only
    split
    · exact .pure ⟨hlog, hunflushed⟩
    · refine (writeArtifact_unflushed hunflushed w'.directory script).onSecond_bind ?_ ?_
      · exact fun _ t ht ↦ (⟨hlog, ht⟩ : Fresh ({ w' with written := _ }, t))
      · exact fun _ t ht ↦ ⟨hlog, ht⟩

/-- Closing flushes the log once, also if the flush fails. -/
theorem close_flushes :
    Ends (close fs.noting) (w, s) (fun _ host ↦ host.2.1.flushes 0 = 1)
      fun _ host ↦ host.2.1.flushes 0 = 1 := by
  obtain ⟨hlog, hunflushed⟩ := h
  replace hlog : w.log = some 0 := hlog
  refine .get_bind ?_
  simp only [hlog]
  refine .modify_bind ?_
  have hflush : Ends (attempt (fs.noting.flush 0) : EStateM TracerError _ _) s
      (fun _ s' ↦ s'.1.flushes 0 = 1) fun _ _ ↦ False :=
    .attempt (flush_flushes hunflushed)
  refine hflush.onSecond_bind ?_ fun _ _ hfalse ↦ hfalse.elim
  intro outcome s' hflushed
  have hreleased : (fs.noting.release 0 s').1.flushes 0 = 1 := by
    rw [flushes_release, hflushed]
  refine .modify_bind ?_
  cases outcome with
  | ok _ => exact .pure hreleased
  | error e => exact .throw hreleased

end Recording

/-- The log of a new writer is the first stream. -/
theorem fresh_start {directory sessionName : String} {s : Ledger × σ} (hs : Unopened s.1)
    {w : CoverageWriter} {t : Ledger × σ}
    (hstart : start fs.noting directory sessionName s = .ok w t) : Fresh (w, t) := by
  have hends : Ends (start fs.noting directory sessionName) s (fun w t ↦ Fresh (w, t))
      fun _ s' ↦ Unopened s'.1 := by
    refine (Ends.failingWith (createDirectory_unopened directory hs)).bind ?_
    intro _ s₁ hs₁
    refine (Ends.failingWith (createNew_unopened _ hs₁)).bind ?_
    rintro _ s₂ ⟨rfl, hs₂⟩
    exact .pure ⟨rfl, hs₂⟩
  exact hends.of_ok hstart

end CoverageWriter

namespace CoverageRecorder

variable {σ : Type} {fs : Storage σ}

/-- The log of a recorder is the first stream, and was not flushed. -/
def Fresh (host : CoverageRecorder × Ledger × σ) : Prop :=
  host.1.writer.log = some 0 ∧ Unflushed host.2.1

theorem fresh_survives (fs : Storage σ) : Survives fs.noting Fresh where
  remember _ _ _ _ h := h
  line line _ h := ends_onWriter (CoverageWriter.writeLine_fresh h line)
  context script _ h := ends_onWriter (CoverageWriter.recordContext_fresh h script)

/-- Whatever a recorder is told of, it does not flush its log. -/
theorem observer_keeps (fs : Storage σ) : (observer fs.noting).Keeps Fresh := by
  rintro view event ⟨r, s⟩ h
  cases hevent : dispatch? (view, event) with
  | none => exact (fresh_survives fs).notice hevent h
  | some d =>
    obtain ⟨i, rfl, hhash, hposition⟩ := exists_of_dispatch? hevent
    exact (fresh_survives fs).before hhash hposition i h

end CoverageRecorder

end ScriptTrace
