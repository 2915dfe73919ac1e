import ScriptTrace.Coverage.Engine
import ScriptTrace.Proofs.Session.Disposal
import ScriptTrace.Proofs.Session.Mirror
import ScriptTrace.Proofs.StackMachine.Signers
import ScriptTrace.Trace.Engine

/-!
Witness checks that are answered by membership in a list, against those of a machine that has this
list as its signers. The recorders of trace and coverage do not look at the machine's own judgement
on witnesses, so both engines record the same of the two machines (`checker_eq_signers`), as long as
the other replaced system calls and the other observers do not look at it either. Those that do can
tell the machines apart: the predicate answers the system call only (`signers_asked_by_override`).
-/

set_option autoImplicit false
set_option relaxedAutoImplicit false

namespace ScriptTrace

open StackMachine

/-- An observer does the same under another judgement on witnesses. -/
def Observer.Impartial {σ : Type} (judge : Hash → Bool) (o : Observer σ) : Prop :=
  ∀ view event, o.notice (view.judging judge) event = o.notice view event

theorem TraceRecorder.observer_impartial {τ : Type} (sink : Sink τ) (judge : Hash → Bool) :
    (observer sink).Impartial judge := by
  intro view event
  cases event <;> rfl

theorem CoverageRecorder.observer_impartial {τ : Type} (fs : Storage τ) (judge : Hash → Bool) :
    (observer fs).Impartial judge := by
  intro view event
  cases event <;> rfl

namespace StackMachine

/-- A machine comes to a witness check. The machine whose checks are answered by membership in a
list and the machine with this list as its signers both answer whether the account that is named
by the argument is in the list, or fault with the same text. -/
def ChecksAlike (L : List Hash) (overrides : Overrides) (m : StackMachine) (i : Instruction)
    (argument : Item) : Prop :=
  let judged := Engine.witnessed (some L.contains) overrides
  (∀ target, argument.Names target →
    turn judged m = some (replies L.contains target i m) ∧
      turn overrides (m.signedBy L) = some ((replies L.contains target i m).mapNext (signedBy L))) ∧
  ((∀ bs, argument.bytes? = some bs → bs.length ≠ 20 ∧ bs.length ≠ 33) →
    ∃ text next, turn judged m = some ⟨some (.preExecute i), next, [.fault text]⟩ ∧
      turn overrides (m.signedBy L) =
        some ⟨some (.preExecute i), next.signedBy L, [.fault text]⟩ ∧
      next.state = .fault ∧ next.exception = some text)

theorem checksAlike {L : List Hash} {overrides : Overrides}
    (hfree : overrides.get? Syscall.checkWitness.hash = none)
    (himpartial : overrides.Impartial L.contains) {m : StackMachine} {i : Instruction}
    {argument : Item} (h : m.Asks i argument) : m.ChecksAlike L overrides i argument := by
  have hturn := turn_signedBy hfree himpartial m
  constructor
  · intro target hnames
    have hreplies := h.turn_eq L.contains overrides (witnessTarget_eq_ok_iff.mpr hnames)
    exact ⟨hreplies, by rw [hturn, hreplies, Option.map_some]⟩
  · intro hlengths
    obtain ⟨e, he⟩ := exists_witnessTarget_eq hlengths
    obtain ⟨m₁, hfaults⟩ := h.exists_turn_eq L.contains overrides he
    refine ⟨e.message, _, hfaults, ?_, rfl, rfl⟩
    rw [hturn, hfaults, Option.map_some]
    rfl

end StackMachine

namespace Engine

variable {ρ τ : Type}

/-- Two engines run alike, but for the signers of the machine of the second one: the same calls have
the same outcomes, and leave the same records and the same outside state. -/
def RunsAlike (L : List Hash) (engine other : Engine StackMachine ρ τ) (t : τ) : Prop :=
  ∀ calls, ∃ outcomes e e' t', attemptEach calls (engine, t) = .ok outcomes (e, t') ∧
    attemptEach calls (other, t) = .ok (outcomes.map (Prod.map id (signedBy L))) (e', t') ∧
    e'.session.machine = e.session.machine.signedBy L ∧ e'.recorder = e.recorder

/-- Assumes: no replaced system call for witness checks, impartial others and impartial observers.
An engine with the predicate runs like an engine without it over the machine with these signers. -/
theorem runsAlike_start {L : List Hash} {session : Session StackMachine τ}
    (hfree : session.overrides.get? Syscall.checkWitness.hash = none)
    (himpartial : session.overrides.Impartial L.contains)
    (hobservers : ∀ p ∈ session.observers, p.2.Impartial L.contains) {o : Observer (ρ × τ)}
    (ho : o.Impartial L.contains) (recorder : ρ) (t : τ) :
    RunsAlike L (start o recorder (some L.contains) session)
      (start o recorder none { session with machine := session.machine.signedBy L }) t := by
  let engine := start o recorder (some L.contains) session
  have hreflected : engine.session.Reflected (signedBy L) session.overrides := by
    refine ⟨load_signedBy, turn_signedBy hfree himpartial, fun _ ↦ rfl, fun p hp m event ↦ ?_⟩
    have hview : Machine.view (m.signedBy L) = (Machine.view m).judging L.contains := rfl
    rw [hview]
    rcases List.mem_append.mp hp with hlifted | hrecorder
    · obtain ⟨q, hq, rfl⟩ := List.mem_map.mp hlifted
      exact congrArg onSecond (hobservers q hq _ event)
    · rw [List.mem_singleton.mp hrecorder]
      exact ho _ event
  intro calls
  obtain ⟨outcomes, e, t', hrun, hrun'⟩ :=
    attemptEach_mirror (t := t) hreflected rfl calls
  exact ⟨outcomes, e, e.mirror (signedBy L) session.overrides, t', hrun, hrun', rfl, rfl⟩

end Engine

/-- Assumes: no replaced system call for witness checks, others that do not ask for the machine's
own judgement on witnesses, and observers that do not ask for it. A machine whose witness checks are
answered by membership in a list moves like the machine with this list as its signers, and answers
each check alike. Trace engines and coverage engines record the same of both. -/
theorem checker_eq_signers {τ : Type} (L : List Hash) {session : Session StackMachine τ}
    (hfree : session.overrides.get? Syscall.checkWitness.hash = none)
    (himpartial : session.overrides.Impartial L.contains)
    (hobservers : ∀ p ∈ session.observers, p.2.Impartial L.contains) :
    let judged := Engine.witnessed (some L.contains) session.overrides
    let signed : Session StackMachine τ :=
      { session with machine := session.machine.signedBy L }
    (∀ m : StackMachine, (∀ code, load code (m.signedBy L) = (load code m).mapNext (signedBy L)) ∧
      turn session.overrides (m.signedBy L) = (turn judged m).map (Turn.mapNext (signedBy L)) ∧
      ∀ ts m', Moves judged m ts m' →
        Moves session.overrides (m.signedBy L) (ts.map (Turn.mapNext (signedBy L)))
          (m'.signedBy L)) ∧
    (∀ (m : StackMachine) (i : Instruction) (argument : Item), m.Asks i argument →
      m.ChecksAlike L session.overrides i argument) ∧
    (∀ (sink : Sink τ) (config : TraceConfig) (names : NameCache) (t : τ),
      Engine.RunsAlike L (TraceEngine.start sink config names (some L.contains) session)
        (TraceEngine.start sink config names none signed) t) ∧
    ∀ (fs : Storage τ) (config : CoverageConfig) (sessionName : String) (s : τ),
      match CoverageEngine.start fs config sessionName (some L.contains) session s with
      | .error err t => CoverageEngine.start fs config sessionName none signed s = .error err t
      | .ok engine t =>
        ∃ other, CoverageEngine.start fs config sessionName none signed s = .ok other t ∧
          Engine.RunsAlike L engine other t := by
  intro judged signed
  refine ⟨fun m ↦ ⟨fun code ↦ load_signedBy code m, turn_signedBy hfree himpartial m,
    fun ts m' hmoves ↦ moves_signedBy hfree himpartial hmoves⟩,
    fun m i argument hasks ↦ checksAlike hfree himpartial hasks, ?_, ?_⟩
  · intro sink config names t
    exact Engine.runsAlike_start hfree himpartial hobservers
      (TraceRecorder.observer_impartial sink L.contains) _ t
  · intro fs config sessionName s
    have hobserver := CoverageRecorder.observer_impartial fs L.contains
    obtain ⟨answer, t, hwriter⟩ :=
      exists_resultOf (CoverageWriter.start fs config.outputDir sessionName) s
    unfold CoverageEngine.start
    cases answer with
    | error err => rw [bind_error hwriter, bind_error hwriter]
    | ok writer =>
      rw [bind_ok hwriter, bind_ok hwriter]
      exact ⟨_, rfl, Engine.runsAlike_start hfree himpartial hobservers hobserver _ t⟩

/-- A host has replaced signature checks and has an observer. A script checks a witness of an
account in the list, and both engines trace the same. -/
theorem checker_eq_signers_of_signatures :
    let account : Hash := ⟨List.replicate 20 5, rfl⟩
    let quiet : Observer (List Record) := ⟨fun _ _ ↦ pure ()⟩
    let session : Session StackMachine (List Record) :=
      ((Session.ofMachine (.create ⟨1⟩ .empty .default [])).subscribe quiet).2.override
        Syscall.checkSignature.hash fun _ _ ↦ .ok (some (.boolean true))
    let signed : Session StackMachine (List Record) :=
      { session with machine := session.machine.signedBy [account] }
    let keeping : Sink (List Record) :=
      ⟨fun record ↦ modify (· ++ [record]), pure (), fun _ records ↦ records⟩
    session.overrides.get? Syscall.checkWitness.hash = none ∧
      session.overrides.Impartial [account].contains ∧
      (∀ p ∈ session.observers, p.2.Impartial [account].contains) ∧
      Engine.RunsAlike [account]
        (TraceEngine.start keeping .default .empty (some [account].contains) session)
        (TraceEngine.start keeping .default .empty none signed) [] := by
  intro account quiet session signed keeping
  have hfree : session.overrides.get? Syscall.checkWitness.hash = none := by decide +kernel
  have himpartial : session.overrides.Impartial [account].contains := by
    intro hash handler hfound view arguments
    have hset := hfound.symm.trans (Table.get?_set Table.empty _ hash _)
    split at hset
    · rw [Option.some.inj hset]
    · cases hset
  have hobservers : ∀ p ∈ session.observers, p.2.Impartial [account].contains := by
    intro p hp
    rw [List.mem_singleton.mp hp]
    exact fun _ _ ↦ rfl
  obtain ⟨-, -, htrace, -⟩ := checker_eq_signers [account] hfree himpartial hobservers
  exact ⟨hfree, himpartial, hobservers, htrace keeping .default .empty []⟩

/-- A host has replaced signature checks by a question for the machine's own judgement on an account
that is in the list. A script that checks a signature is told false by the machine whose witness
checks are answered by membership, and true by the machine with the list as its signers, and so is
the host if it asks for that judgement itself. -/
theorem signers_asked_by_override :
    let account : Hash := ⟨List.replicate 20 5, rfl⟩
    let session : Session StackMachine Unit :=
      (Session.ofMachine (.create ⟨1⟩ .empty .default [])).override Syscall.checkSignature.hash
        fun view _ ↦ .ok (some (.boolean (view.checkWitness account)))
    let signed : Session StackMachine Unit :=
      { session with machine := session.machine.signedBy [account] }
    let forgetting : Sink Unit := ⟨fun _ ↦ pure (), pure (), fun _ s ↦ s⟩
    let script : Bytes := Opcode.pushTrue :: Opcode.syscall ::
      Bytes.ofUInt32 Syscall.checkSignature.hash
    let after (engine : TraceEngine StackMachine Unit) : StackMachine :=
      (leaves (Engine.attemptEach [.load script, .execute 9])
        (engine, ())).1.session.machine
    let judged := after
      (TraceEngine.start forgetting .default .empty (some [account].contains) session)
    let native := after (TraceEngine.start forgetting .default .empty none signed)
    session.overrides.get? Syscall.checkWitness.hash = none ∧
      judged.results = [.boolean false] ∧ native.results = [.boolean true] ∧
      judged.view.checkWitness account = false ∧ native.view.checkWitness account = true := by
  intro account session signed forgetting script after judged native
  have hfree : session.overrides.get? Syscall.checkWitness.hash = none := by decide +kernel
  have hjudged : judged.results = [.boolean false] ∧ judged.signers = [] := by decide +kernel
  have hnative : native.results = [.boolean true] ∧ native.signers = [account] := by
    decide +kernel
  have hdenied : judged.view.checkWitness account = false := by
    rw [view, hjudged.2]
    rfl
  have hgranted : native.view.checkWitness account = true := by
    rw [view, hnative.2]
    rfl
  exact ⟨hfree, hjudged.1, hnative.1, hdenied, hgranted⟩

end ScriptTrace
