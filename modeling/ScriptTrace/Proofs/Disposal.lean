import ScriptTrace.Proofs.Coverage.Disposal
import ScriptTrace.Proofs.Trace.Disposal
import ScriptTrace.StackMachine
import ScriptTrace.Storage.Memory

/-!
Sessions are closed once. Whatever a host does with a coverage engine or a trace engine, and
whatever fails of it, the first disposal flushes the log or the sink, and nothing is written from
then on (`disposed_once`).
-/

set_option autoImplicit false
set_option relaxedAutoImplicit false

namespace ScriptTrace

/-- Assumes: a session whose observers have numbers from before the next one, as subscribing gives
them. Engines over it, with any storage and any sink, are closed at their first disposal, once, and
do nothing afterwards; the log of a coverage session is the first stream that is opened. -/
theorem disposed_once {M σ : Type} [Machine M] {session : Session M σ}
    (hnumbered : session.Numbered) (checker : Option WitnessChecker) :
    (∀ (fs : Storage σ) (config : CoverageConfig) (sessionName : String) (s : σ)
      (engine : CoverageEngine M (Ledger × σ)) (t : Ledger × σ),
      CoverageEngine.start fs.noting config sessionName checker session.widen (.empty, s) =
        .ok engine t →
      engine.recorder.writer.log = some 0 ∧
        Engine.ClosesOnce (CoverageEngine.close fs.noting) (Ledger.flushes 0)
          (session.nextSubscription + 1) session.observers (engine, t)) ∧
    ∀ (sink : Sink σ) (config : TraceConfig) (names : NameCache) (s : σ),
      Engine.ClosesOnce (TraceEngine.close sink.noting) Sink.flushes
        (session.nextSubscription + 1) session.observers
        (TraceEngine.start sink.noting config names checker session.widen, [], s) := by
  have hwidened {κ : Type} : (session.widen : Session M (κ × σ)).Numbered := by
    intro p hp
    obtain ⟨q, hq, rfl⟩ := List.mem_map.mp hp
    exact hnumbered q hq
  constructor
  · intro fs config sessionName s engine t hstart
    obtain ⟨writer, t', hwriter, hrest⟩ := bind_eq_ok hstart
    obtain ⟨rfl, rfl⟩ := EStateM.Result.ok.inj hrest
    have hunopened : Storage.Unopened Ledger.empty := ⟨rfl, rfl⟩
    have hfresh := CoverageWriter.fresh_start hunopened hwriter
    have hopen : Engine.Open (CoverageRecorder.observer fs.noting) (fun r ↦ r.writer.log = some 0)
        (fun t ↦ Storage.Unflushed t.1) (session.nextSubscription + 1) (lifted session.observers)
        (Engine.start (CoverageRecorder.observer fs.noting) (.ofWriter writer) checker
          session.widen, t') := by
      refine Engine.open_start _ checker hwidened ?_ hfresh.2
      exact hfresh.1
    refine ⟨hfresh.1, hopen.closesOnce (CoverageRecorder.observer_keeps fs) (fun _ h ↦ h.2) ?_⟩
    rintro ⟨r, s'⟩ hlog hunflushed
    exact CoverageRecorder.ends_onWriter (CoverageWriter.close_flushes ⟨hlog, hunflushed⟩)
  · intro sink config names s
    have hopen : Engine.Open (TraceRecorder.observer sink.noting) (fun _ ↦ True)
        (fun t ↦ Sink.flushes t.1 = 0) (session.nextSubscription + 1) (lifted session.observers)
        (TraceEngine.start sink.noting config names checker session.widen, [], s) :=
      Engine.open_start _ checker hwidened trivial rfl
    refine hopen.closesOnce ?_ (fun _ h ↦ h) ?_
    · rintro view event host ⟨-, hhost⟩
      exact (TraceRecorder.observer_unflushed sink view event host hhost).mono
        (fun _ _ h ↦ ⟨trivial, h⟩) fun _ _ h ↦ ⟨trivial, h⟩
    · rintro ⟨r, s'⟩ - hunflushed
      exact TraceRecorder.close_flushes hunflushed

/-- A session with an observer of its own, over files that cannot be flushed and a sink that forgets
its records. Disposing of the coverage engine fails. -/
theorem disposed_once_of_memory :
    let quiet : Observer MemoryStore := ⟨fun _ _ ↦ pure ()⟩
    let session : Session StackMachine MemoryStore :=
      ((Session.ofMachine (.create ⟨1⟩ .empty .default [])).subscribe quiet).2
    let store : MemoryStore :=
      .ofFiles [] [⟨.flush, ".neo-coverage", ⟨.other, "no space"⟩, 0, none⟩]
    let forgetting : Sink MemoryStore := ⟨fun _ ↦ pure (), pure (), fun _ s ↦ s⟩
    session.Numbered ∧
      (∃ (engine : CoverageEngine StackMachine (Ledger × MemoryStore))
        (t : Ledger × MemoryStore),
        CoverageEngine.start MemoryStore.storage.noting .default "run" none session.widen
          (.empty, store) = .ok engine t ∧
        (∃ error next, CoverageEngine.dispose MemoryStore.storage.noting (engine, t) =
          .error error next) ∧
        engine.recorder.writer.log = some 0 ∧
        Engine.ClosesOnce (CoverageEngine.close MemoryStore.storage.noting) (Ledger.flushes 0) 3
          session.observers (engine, t)) ∧
      Engine.ClosesOnce (TraceEngine.close forgetting.noting) Sink.flushes 3 session.observers
        (TraceEngine.start forgetting.noting .default .empty none session.widen, [], store) := by
  intro quiet session store forgetting
  have hnumbered : session.Numbered :=
    Session.Numbered.subscribe (fun _ hp ↦ absurd hp List.not_mem_nil) quiet
  obtain ⟨hcoverage, htrace⟩ := disposed_once hnumbered none
  let begun := CoverageEngine.start MemoryStore.storage.noting .default "run" none session.widen
    (.empty, store)
  have hfails : (match begun with
      | .ok engine t => (match CoverageEngine.dispose MemoryStore.storage.noting (engine, t) with
        | .ok _ _ => false
        | .error _ _ => true)
      | .error _ _ => false) = true := by decide +kernel
  obtain ⟨engine, t, hstart⟩ : ∃ engine t, begun = .ok engine t := ⟨_, _, rfl⟩
  have hdispose : ∃ error next, CoverageEngine.dispose MemoryStore.storage.noting (engine, t) =
      .error error next := by
    rw [hstart] at hfails
    cases hrun : CoverageEngine.dispose MemoryStore.storage.noting (engine, t) with
    | ok _ _ => simp [hrun] at hfails
    | error error next => exact ⟨error, next, rfl⟩
  exact ⟨hnumbered, ⟨engine, t, hstart, hdispose,
    hcoverage MemoryStore.storage .default "run" store engine t hstart⟩,
    htrace forgetting .default .empty store⟩

end ScriptTrace
