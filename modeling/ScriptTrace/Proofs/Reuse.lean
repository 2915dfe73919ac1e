import ScriptTrace.Proofs.Coverage.Reuse
import ScriptTrace.Proofs.Trace.Reuse
import ScriptTrace.Storage.Memory

/-!
One engine for many scripts. When scripts are loaded and run one after the other on one engine, each
of them leaves the records and the lines that it leaves on an engine of its own: nothing of the
scripts before shows but the gas they used.
-/

set_option autoImplicit false
set_option relaxedAutoImplicit false

namespace ScriptTrace

open CoverageLine StackMachine

/-- Assumes: a storage and a sink that do not fail, and sessions without observers and replaced
system calls, on whose machine some scripts ran to their ends, one after the other. The next script
brings a trace engine the records that it brings an engine over another machine that has not run,
with the gas added that was used before, and it adds to the log of a coverage engine the lines that
it adds to the log of such another engine. -/
theorem drive_runs_alone {σ τ : Type} {fs : Storage σ} {sound : σ → Prop}
    {content : σ → Handle → Option Bytes} (hfs : fs.Reliable sound content) {sink : Sink τ}
    {records : τ → List Record} (hsink : sink.Keeps records) (checker : Option WitnessChecker)
    {machine : StackMachine} (hrenewed : machine.Renewed) (identity : SessionId)
    (scripts : List (Bytes × Nat)) (code : Bytes) (budget : Nat) :
    (∀ (config : TraceConfig) (names names' : NameCache) (session : Session StackMachine τ)
      (trace : TraceEngine StackMachine τ) (t₀ t u : τ), session.observers = [] →
      session.overrides = .empty → session.machine = machine →
      Engine.drive (Call.runs scripts) (TraceEngine.start sink config names checker session, t₀) =
        .ok true (trace, t) →
      ∃ (ended : Bool) (trace' : TraceEngine StackMachine τ) (t' : τ)
        (alone : TraceEngine StackMachine τ) (u' : τ) (rs : List Record),
        Engine.drive (Call.runs [(code, budget)]) (trace, t) = .ok ended (trace', t') ∧
        Engine.drive (Call.runs [(code, budget)])
          (TraceEngine.start sink config names' checker (.ofMachine (machine.another identity)),
            u) = .ok ended (alone, u') ∧
        records u' = records u ++ rs ∧
        records t' = records t ++ rs.map (Record.withGas trace.session.machine.gas)) ∧
    ∀ (config config' : CoverageConfig) (sessionName sessionName' : String)
      (session : Session StackMachine σ) (built coverage new : CoverageEngine StackMachine σ)
      (s₀ s₁ s u₀ u : σ), session.observers = [] → session.overrides = .empty →
      session.machine = machine → sound s₀ → sound u₀ →
      CoverageEngine.start fs config sessionName checker session s₀ = .ok built s₁ →
      Engine.drive (Call.runs scripts) (built, s₁) = .ok true (coverage, s) →
      CoverageEngine.start fs config' sessionName' checker
        (.ofMachine (machine.another identity)) u₀ = .ok new u →
      ∃ (ended : Bool) (coverage' : CoverageEngine StackMachine σ) (s' : σ)
        (alone : CoverageEngine StackMachine σ) (u' : σ) (log other : Handle)
        (before lines : List CoverageLine),
        Engine.drive (Call.runs [(code, budget)]) (coverage, s) = .ok ended (coverage', s') ∧
        Engine.drive (Call.runs [(code, budget)]) (new, u) = .ok ended (alone, u') ∧
        alone.recorder.writer.log = some other ∧ content u' other = some (text lines) ∧
        coverage.recorder.writer.log = some log ∧ content s log = some (text before) ∧
        coverage'.recorder.writer.log = some log ∧
        content s' log = some (text (before ++ lines)) := by
  constructor
  · intro config names names' session trace t₀ t u hobservers hoverrides hmachine hscripts
    subst hmachine
    exact TraceRecorder.drive_runs hsink config names names' checker hobservers hoverrides hrenewed
      hscripts identity code budget u
  · intro config config' sessionName sessionName' session built coverage new s₀ s₁ s u₀ u hobservers
      hoverrides hmachine hs₀ hu₀ hbuilt hscripts hnew
    subst hmachine
    obtain ⟨ended, coverage', s', alone, u', before, lines, hnext, halone, hlines, hbefore, hlog,
      hmore⟩ := CoverageRecorder.drive_runs hfs checker hobservers hoverrides hrenewed config
        config' sessionName sessionName' identity hs₀ hu₀ hbuilt hscripts hnew code budget
    obtain ⟨other, hother, hcontent⟩ := hlines.content_eq
    obtain ⟨log, hopen, hheld⟩ := hbefore.content_eq
    obtain ⟨log', hopen', hheld'⟩ := hmore.content_eq
    rw [hlog, hopen] at hopen'
    obtain rfl := Option.some.inj hopen'
    exact ⟨ended, coverage', s', alone, u', log, other, before, lines, hnext, halone, hother,
      hcontent, hopen, hheld, hlog.trans hopen, hheld'⟩

/-- A script halts, another one aborts, and a third one runs after them. -/
theorem drive_runs_alone_of_abort :
    let machine := StackMachine.create ⟨1⟩ .empty .default []
    let scripts := [([Opcode.pushTrue], 9), ([Opcode.abort], 9)]
    let next := Call.runs [([Opcode.pushFalse], 9)]
    let store : MemoryStore := .ofFiles [] []
    (MemoryStore.storage.Reliable MemoryStore.Sound MemoryStore.content ∧
      MemorySink.sink.Keeps MemorySink.records ∧ machine.Renewed ∧ store.Sound) ∧
    (∃ (trace : TraceEngine StackMachine MemorySink) (kept : MemorySink),
      Engine.drive (Call.runs scripts)
        (TraceEngine.start MemorySink.sink .default .empty none (.ofMachine machine), .empty) =
          .ok true (trace, kept) ∧
      ∃ (ended : Bool) (trace' : TraceEngine StackMachine MemorySink) (kept' : MemorySink)
        (alone : TraceEngine StackMachine MemorySink) (other : MemorySink) (rs : List Record),
        Engine.drive next (trace, kept) = .ok ended (trace', kept') ∧
        Engine.drive next
          (TraceEngine.start MemorySink.sink .default .empty none
            (.ofMachine (machine.another ⟨2⟩)), .empty) = .ok ended (alone, other) ∧
        other.records = [] ++ rs ∧
        kept'.records = kept.records ++ rs.map (Record.withGas trace.session.machine.gas)) ∧
    ∃ (built coverage new : CoverageEngine StackMachine MemoryStore)
      (store₁ store₂ store₃ : MemoryStore),
      CoverageEngine.start MemoryStore.storage .default "run" none (.ofMachine machine) store =
        .ok built store₁ ∧
      Engine.drive (Call.runs scripts) (built, store₁) = .ok true (coverage, store₂) ∧
      CoverageEngine.start MemoryStore.storage .default "alone" none
        (.ofMachine (machine.another ⟨2⟩)) store = .ok new store₃ ∧
      ∃ (ended : Bool) (coverage' : CoverageEngine StackMachine MemoryStore) (store' : MemoryStore)
        (alone : CoverageEngine StackMachine MemoryStore) (store'' : MemoryStore)
        (log other : Handle) (before lines : List CoverageLine),
        Engine.drive next (coverage, store₂) = .ok ended (coverage', store') ∧
        Engine.drive next (new, store₃) = .ok ended (alone, store'') ∧
        alone.recorder.writer.log = some other ∧ store''.content other = some (text lines) ∧
        coverage.recorder.writer.log = some log ∧ store₂.content log = some (text before) ∧
        coverage'.recorder.writer.log = some log ∧
        store'.content log = some (text (before ++ lines)) := by
  intro machine scripts next store
  have hsound : store.Sound := MemoryStore.sound_ofFiles []
  have hrenewed : machine.Renewed := rfl
  obtain ⟨htrace, hcoverage⟩ := drive_runs_alone MemoryStore.reliable MemorySink.keeps none hrenewed
    ⟨2⟩ scripts [Opcode.pushFalse] 9
  -- The machine alone shows that both scripts end, the first after two turns, the second after one.
  obtain ⟨told, m, hroute⟩ : ∃ told m,
      Route (Engine.witnessed none .empty) (Call.runs scripts) true machine told m :=
    ⟨_, _, .load (.execute (.cons rfl (.cons rfl (.refl _))) rfl (by decide)
      (.load (.execute (.cons rfl (.refl _)) rfl (by decide) (.nil _))))⟩
  obtain ⟨_, ⟨trace, kept⟩, hscripts, -, _, hother, -, -⟩ :=
    TraceRecorder.drive_start MemorySink.keeps .default .empty none
      (show (Session.ofMachine machine : Session StackMachine MemorySink).observers = [] from rfl)
      (Call.runs scripts) .empty
  obtain ⟨rfl, -, -⟩ := hother.unique hroute
  obtain ⟨built, store₁, hbuilt⟩ : ∃ built store₁,
      CoverageEngine.start MemoryStore.storage .default "run" none (.ofMachine machine) store =
        .ok built store₁ := ⟨_, _, rfl⟩
  obtain ⟨new, store₃, hnew⟩ : ∃ new store₃, CoverageEngine.start MemoryStore.storage .default
      "alone" none (.ofMachine (machine.another ⟨2⟩)) store = .ok new store₃ := ⟨_, _, rfl⟩
  obtain ⟨coverage, store₂, hrun⟩ : ∃ coverage store₂,
      Engine.drive (Call.runs scripts) (built, store₁) = .ok true (coverage, store₂) := by
    obtain ⟨_, _, ⟨coverage, store₂⟩, hrun, -, _, hother, -, -⟩ :=
      CoverageRecorder.drive_start MemoryStore.reliable rfl rfl hsound hbuilt (Call.runs scripts)
    obtain ⟨rfl, -, -⟩ := hother.unique hroute
    exact ⟨coverage, store₂, hrun⟩
  refine ⟨⟨MemoryStore.reliable, MemorySink.keeps, hrenewed, hsound⟩,
    ⟨trace, kept, hscripts, htrace .default .empty .empty (.ofMachine machine) trace .empty kept
      .empty rfl rfl rfl hscripts⟩,
    built, coverage, new, store₁, store₂, store₃, hbuilt, hrun, hnew, ?_⟩
  exact hcoverage .default .default "run" "alone" (.ofMachine machine) built coverage new store
    store₁ store₂ store store₃ rfl rfl rfl hsound hsound hbuilt hrun hnew

end ScriptTrace
