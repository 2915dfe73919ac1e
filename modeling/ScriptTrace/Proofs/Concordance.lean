import ScriptTrace.Proofs.Coverage.Dispatches
import ScriptTrace.Proofs.StackMachine.Guise
import ScriptTrace.Proofs.Trace.Dispatches
import ScriptTrace.Storage.Memory

/-!
A coverage log and a trace of the same calls. The log names an instruction before it runs, by the
hash line and the address line that come before it; the trace shows the machine after each
instruction, and once before the first one. Both are told the same story, so the address lines are
the tops of the call stacks in those Trace records that a dispatch followed.
-/

set_option autoImplicit false
set_option relaxedAutoImplicit false

namespace ScriptTrace

open CoverageLine StackMachine

/-- Assumes: a storage and a sink that do not fail, two sessions without observers and frames whose
machines differ in their identity at most, replaced system calls that do not look at it, and scripts
whose positions 32 bits hold. However the sessions are driven, once under coverage and once under
trace, no call fails, and both sessions come equally far. The bytes of the log are those of some
lines and of no others. The address lines, each with the script of the nearest hash line, are the
tops of the call stacks in the Trace records that were followed by a dispatch. -/
theorem drive_addresses {σ τ : Type} {fs : Storage σ} {sound : σ → Prop}
    {content : σ → Handle → Option Bytes} (hfs : fs.Reliable sound content) {sink : Sink τ}
    {records : τ → List Record} (hsink : sink.Keeps records) (config : CoverageConfig)
    (sessionName : String) (traceConfig : TraceConfig) (names : NameCache)
    (checker : Option WitnessChecker) {covered : Session StackMachine σ}
    {traced : Session StackMachine τ} (hcovered : covered.observers = [])
    (htraced : traced.observers = [])
    (hmachine : covered.machine = traced.machine.under ⟨covered.machine.session, 0⟩)
    (hoverrides : covered.overrides = traced.overrides)
    (hignores : traced.overrides.Ignores traced.machine.session ⟨covered.machine.session, 0⟩)
    (hframes : traced.machine.frames = [])
    (hdeployed : ∀ hash contract, traced.machine.snapshot.contract? hash = some contract →
      contract.code.length < 2 ^ 32)
    {calls : List Call} (hcodes : ∀ code, .load code ∈ calls → code.length < 2 ^ 32)
    {s₀ s₁ : σ} (hsound : sound s₀) {coverage : CoverageEngine StackMachine σ}
    (hstart : CoverageEngine.start fs config sessionName checker covered s₀ = .ok coverage s₁)
    (t : τ) :
    let trace := TraceEngine.start sink traceConfig names checker traced
    ∃ (ended : Bool) (coverage' : CoverageEngine StackMachine σ) (s' : σ)
      (trace' : TraceEngine StackMachine τ) (t' : τ) (log : Handle) (lines : List CoverageLine)
      (rs : List Record) (ps : List (Hash × Nat)),
      Engine.drive calls (coverage, s₁) = .ok ended (coverage', s') ∧
      Engine.drive calls (trace, t) = .ok ended (trace', t') ∧
      coverage'.recorder.writer.log = some log ∧ content s' log = some (text lines) ∧
      (∀ others, text others = text lines → others = lines) ∧
      records t' = records t ++ rs ∧
      addresses lines = ps.map (fun p ↦ (some p.1, p.2)) ∧
      TraceRecorder.Chronicle traceConfig trace.session.overrides calls ended traced.machine rs
        (ps.map some) trace'.session.machine := by
  intro trace
  have hempty : CoverageRecorder.hashesOf covered.machine.reset = [] := by
    have hnone : covered.machine.frames = [] := by rw [hmachine]; exact hframes
    unfold StackMachine.reset CoverageRecorder.hashesOf
    split
    · rfl
    · rw [hnone, List.map_nil]
  -- What the two recorders are told.
  obtain ⟨writer, ended, ⟨coverage', s'⟩, hcoverage, -, told, hroute, hreports, htold⟩ :=
    CoverageRecorder.drive_start hfs hcovered hempty hsound hstart calls
  obtain ⟨ended', ⟨trace', t'⟩, htrace, -, told', hroute', -, hrecords⟩ :=
    TraceRecorder.drive_start hsink traceConfig names checker htraced calls t
  -- The two machines go the same way.
  have hways : ended' = ended ∧ told'.map (Notice.under ⟨covered.machine.session, 0⟩) = told := by
    have hguised := hroute'.under (hignores.witnessed checker)
    rw [← hmachine, ← hoverrides] at hguised
    obtain ⟨hended, hstories, -⟩ := hguised.unique hroute
    exact ⟨hended, hstories⟩
  obtain ⟨rfl, hstories⟩ := hways
  have hdispatches : dispatches told = dispatches told' := by
    rw [← hstories, dispatches_under]
  have hfollows : TraceRecorder.Follows traceConfig traced.machine
      ⟨traced.machine.session, names, traceConfig, false, []⟩ := ⟨rfl, rfl, fun _ ↦ rfl⟩
  have hwithin : Within TraceRecorder.Short traced.machine :=
    ⟨fun f hf ↦ absurd (hframes ▸ hf) List.not_mem_nil, hdeployed⟩
  have hchronicle := TraceRecorder.chronicle_of_route hroute' hcodes hfollows rfl hwithin
  have hreplaced : trace.session.overrides = Engine.witnessed checker traced.overrides :=
    Engine.overrides_start _ _ checker traced
  rw [← hreplaced] at hchronicle
  obtain ⟨log, hopened, hcontent⟩ := htold.holds.content_eq
  refine ⟨ended', coverage', s', trace', t', log, _, _, dispatches told', hcoverage, htrace,
    hopened, hcontent, fun _ ↦ text_injective, hrecords, ?_, hchronicle⟩
  rw [hreports.addresses_eq, hdispatches]

/-- In two sessions of their own, a script halts and another one comes to an operand that is cut
off. -/
theorem drive_addresses_of_memory :
    let covered : Session StackMachine MemoryStore :=
      .ofMachine (.create ⟨1⟩ .empty .default [])
    let traced : Session StackMachine MemorySink := .ofMachine (.create ⟨2⟩ .empty .default [])
    let store : MemoryStore := .ofFiles [] []
    let calls := [Call.load [Opcode.pushTrue], .execute 9,
      .load [Opcode.pushTrue, Opcode.pushData], .execute 9]
    let trace := TraceEngine.start MemorySink.sink .default .empty none traced
    (MemoryStore.storage.Reliable MemoryStore.Sound MemoryStore.content ∧ store.Sound ∧
      MemorySink.sink.Keeps MemorySink.records) ∧
    (covered.observers = [] ∧ traced.observers = [] ∧
      covered.machine = traced.machine.under ⟨covered.machine.session, 0⟩ ∧
      covered.overrides = traced.overrides ∧
      traced.overrides.Ignores traced.machine.session ⟨covered.machine.session, 0⟩ ∧
      traced.machine.frames = [] ∧
      (∀ hash contract, traced.machine.snapshot.contract? hash = some contract →
        contract.code.length < 2 ^ 32) ∧
      ∀ code, .load code ∈ calls → code.length < 2 ^ 32) ∧
    ∃ coverage store₁,
      CoverageEngine.start MemoryStore.storage .default "run" none covered store =
        .ok coverage store₁ ∧
      ∃ (ended : Bool) (coverage' : CoverageEngine StackMachine MemoryStore) (store' : MemoryStore)
        (trace' : TraceEngine StackMachine MemorySink) (kept : MemorySink) (log : Handle)
        (lines : List CoverageLine) (rs : List Record) (ps : List (Hash × Nat)),
        Engine.drive calls (coverage, store₁) = .ok ended (coverage', store') ∧
        Engine.drive calls (trace, .empty) = .ok ended (trace', kept) ∧
        coverage'.recorder.writer.log = some log ∧ store'.content log = some (text lines) ∧
        (∀ others, text others = text lines → others = lines) ∧
        kept.records = [] ++ rs ∧
        addresses lines = ps.map (fun p ↦ (some p.1, p.2)) ∧
        TraceRecorder.Chronicle .default trace.session.overrides calls ended traced.machine rs
          (ps.map some) trace'.session.machine := by
  intro covered traced store calls trace
  have hsound : store.Sound := MemoryStore.sound_ofFiles []
  have hignores : traced.overrides.Ignores traced.machine.session ⟨covered.machine.session, 0⟩ :=
    fun hash handler hhandler ↦ nomatch hhandler
  have hdeployed (hash : Hash) (contract : Contract)
      (h : traced.machine.snapshot.contract? hash = some contract) :
      contract.code.length < 2 ^ 32 := nomatch h
  have hcodes (code : Bytes) (h : .load code ∈ calls) : code.length < 2 ^ 32 := by
    have hcode : code = [Opcode.pushTrue] ∨ code = [Opcode.pushTrue, Opcode.pushData] := by
      simpa [calls] using h
    rcases hcode with rfl | rfl <;> decide
  obtain ⟨coverage, store₁, hstart⟩ : ∃ coverage store₁,
      CoverageEngine.start MemoryStore.storage .default "run" none covered store =
        .ok coverage store₁ := ⟨_, _, rfl⟩
  refine ⟨⟨MemoryStore.reliable, hsound, MemorySink.keeps⟩,
    ⟨rfl, rfl, rfl, rfl, hignores, rfl, hdeployed, hcodes⟩, coverage, store₁, hstart, ?_⟩
  exact drive_addresses MemoryStore.reliable MemorySink.keeps .default "run" .default .empty none
    rfl rfl rfl rfl hignores rfl hdeployed hcodes hsound hstart .empty

end ScriptTrace
