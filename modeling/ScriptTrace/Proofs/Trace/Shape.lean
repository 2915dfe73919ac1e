import ScriptTrace.Proofs.Session.Drive
import ScriptTrace.Proofs.StackMachine.Turns
import ScriptTrace.Proofs.Trace.Emission

/-!
The shape of a trace. `Steps` are the records of completed instructions, `Invocation` those of one
invocation from its opening to its results or its fault, and `Transcript` those of a list of calls,
which are the records of its invocations and nothing else. An execution ends if the machine stops
before its moves are used up; the one that does not end is the last, and its records break off where
its moves did. A recorder whose sink keeps every record produces such a transcript from every
machine and every list of calls (`drive_transcript`).

The proof follows the machine. `Phase` says how far an execution has come and what was emitted in
it; a move takes one phase to another (`follow_phase`), and executions and calls follow by the
lemmas on sessions with one observer.
-/

set_option autoImplicit false
set_option relaxedAutoImplicit false

namespace ScriptTrace

namespace TraceRecorder

open StackMachine

/-! ### Transcripts -/

/-- What may stand between two blocks: nothing, a script, a line or an event. -/
structure IsAside (rs : List Record) : Prop where
  length_le : rs.length ≤ 1
  kind_mem : ∀ r ∈ rs, r.kind ∈ [RecordKind.script, .log, .notify]

/-- The records between two blocks, given the hashes that are known and the frames that the
instruction pushed. -/
inductive Aside (known : List Hash) : List Context → List Record → Prop
  | none : Aside known [] []
  | log (hash : Hash) (message : String) : Aside known [] [.log hash message]
  | notify (hash : Hash) (eventName : String) (state : List Item) :
    Aside known [] [.notify hash eventName state]
  | script (c : Context) :
    Aside known [c] (if c.scriptHash ∈ known then [] else [.script c.scriptHash c.code])

theorem Aside.isAside {known : List Hash} {entered : List Context} {rs : List Record}
    (h : Aside known entered rs) : IsAside rs := by
  have hnone : IsAside [] := ⟨Nat.zero_le 1, fun _ hr ↦ absurd hr List.not_mem_nil⟩
  have hone {record : Record} (hkind : record.kind ∈ [RecordKind.script, .log, .notify]) :
      IsAside [record] := ⟨Nat.le_refl 1, fun _ hr ↦ List.mem_singleton.mp hr ▸ hkind⟩
  cases h with
  | none => exact hnone
  | log => exact hone (by simp [Record.kind])
  | notify => exact hone (by simp [Record.kind])
  | script =>
    split
    · exact hnone
    · exact hone (by simp [Record.kind])

/-- The records of so many completed instructions, which take one machine to another. -/
inductive Steps (config : TraceConfig) (overrides : Overrides) :
    Nat → StackMachine → List Record → StackMachine → Prop
  | refl (m : StackMachine) : Steps config overrides 0 m [] m
  | snoc {n : Nat} {m m₁ m₂ : StackMachine} {rs aside : List Record} {i : Instruction}
    {events : List Event} (hsteps : Steps config overrides n m rs m₁)
    (hcompletes : m₁.Completes overrides i events m₂) (haside : IsAside aside) :
    Steps config overrides (n + 1) m (rs ++ aside ++ block config m₂.view) m₂

/-- The records of an invocation in which so many instructions completed. -/
inductive Invocation (config : TraceConfig) (overrides : Overrides) :
    Nat → StackMachine → List Record → StackMachine → Prop
  /-- The outermost frame returned. -/
  | halted {n : Nat} {m m' : StackMachine} {rs : List Record} (hrunning : m.state = .none)
    (hsteps : Steps config overrides n m rs m') (hstate : m'.state = .halt)
    (hframes : m'.frames = []) :
    Invocation config overrides n m (opening config m.view ++ rs ++
      [.results .halt (Int64.ofNat m'.gas) m'.results]) m'
  /-- An instruction faulted. -/
  | faulted {n : Nat} {m m₁ m₂ : StackMachine} {rs : List Record} {i : Instruction}
    {fault : ScriptFault} (hrunning : m.state = .none) (hsteps : Steps config overrides n m rs m₁)
    (hfaults : m₁.Faults overrides i fault m₂) :
    Invocation config overrides n m (opening config m.view ++ rs ++
      .fault fault.message :: block config (m₂.raise fault).1.view) (m₂.raise fault).1
  /-- An instruction after the first one did not decode. -/
  | undecodable {n : Nat} {m m₁ : StackMachine} {rs : List Record} {fault : ScriptFault}
    (hrunning : m.state = .none) (hsteps : Steps config overrides (n + 1) m rs m₁)
    (hundecodable : m₁.Undecodable fault) :
    Invocation config overrides (n + 1) m (opening config m.view ++ rs ++
      .fault fault.message :: block config (m₁.raise fault).1.view) (m₁.raise fault).1
  /-- The first instruction did not decode. The opening shows the machine after the fault. -/
  | unstarted {m : StackMachine} {fault : ScriptFault} (hundecodable : m.Undecodable fault) :
    Invocation config overrides 0 m (opening config (m.raise fault).1.view ++
      .fault fault.message :: block config (m.raise fault).1.view) (m.raise fault).1

/-- The records of an invocation that goes on. -/
inductive Opened (config : TraceConfig) (overrides : Overrides) :
    StackMachine → List Record → StackMachine → Prop
  | intro {n : Nat} {m m' : StackMachine} {rs : List Record} (hrunning : m.state = .none)
    (hsteps : Steps config overrides (n + 1) m rs m') :
    Opened config overrides m (opening config m.view ++ rs) m'

/-- An execution without an instruction: the machine has stopped, or it halts without frames. -/
inductive Idles : StackMachine → StackMachine → Prop
  | stopped {m : StackMachine} (hstate : m.state ≠ .none) : Idles m m
  | empty {m : StackMachine} (hrunning : m.state = .none) (hframes : m.frames = []) :
    Idles m { m with state := .halt }

/-- The records of an execution that was given too few moves to see the machine stop. -/
inductive Unfinished (config : TraceConfig) (overrides : Overrides) :
    StackMachine → List Record → StackMachine → Prop
  | waiting (m : StackMachine) : Unfinished config overrides m [] m
  | idle {m m' : StackMachine} (hidles : Idles m m') : Unfinished config overrides m [] m'
  | opened {m m' : StackMachine} {rs : List Record} (hopened : Opened config overrides m rs m') :
    Unfinished config overrides m rs m'
  | whole {n : Nat} {m m' : StackMachine} {rs : List Record}
    (hinvocation : Invocation config overrides n m rs m') : Unfinished config overrides m rs m'

/-- The records of a list of calls, given those of a whole invocation and those of an execution that
has not ended. Loads and executions without an instruction bring no records. An execution that ended
took fewer moves than it was given, and one that has not ended took as many. -/
inductive Transcript (overrides : Overrides)
    (invocation unfinished : StackMachine → List Record → StackMachine → Prop) :
    List Call → Bool → StackMachine → List Record → StackMachine → Prop
  | nil (m : StackMachine) : Transcript overrides invocation unfinished [] true m [] m
  | load {code : Bytes} {calls : List Call} {ended : Bool} {m m' : StackMachine}
    {rs : List Record}
    (h : Transcript overrides invocation unfinished calls ended (m.load code).next rs m') :
    Transcript overrides invocation unfinished (.load code :: calls) ended m rs m'
  | idle {budget : Nat} {calls : List Call} {ended : Bool} {m m₁ m' : StackMachine}
    {ts : List (Turn StackMachine)} {rs : List Record} (hmoves : Moves overrides m ts m₁)
    (hlength : ts.length < budget) (hidles : Idles m m₁)
    (h : Transcript overrides invocation unfinished calls ended m₁ rs m') :
    Transcript overrides invocation unfinished (.execute budget :: calls) ended m rs m'
  | invocation {budget : Nat} {calls : List Call} {ended : Bool} {m m₁ m' : StackMachine}
    {ts : List (Turn StackMachine)} {rs us : List Record} (hmoves : Moves overrides m ts m₁)
    (hlength : ts.length < budget) (hinvocation : invocation m rs m₁)
    (h : Transcript overrides invocation unfinished calls ended m₁ us m') :
    Transcript overrides invocation unfinished (.execute budget :: calls) ended m (rs ++ us) m'
  | unfinished {budget : Nat} {calls : List Call} {m m' : StackMachine}
    {ts : List (Turn StackMachine)} {rs : List Record} (hmoves : Moves overrides m ts m')
    (hlength : ts.length = budget) (h : unfinished m rs m') :
    Transcript overrides invocation unfinished (.execute budget :: calls) false m rs m'

/-! ### Counting blocks -/

/-- The number of blocks among some records. -/
def blocks (rs : List Record) : Nat := rs.countP fun r ↦ r.kind = .trace

@[simp] theorem blocks_append (rs us : List Record) : blocks (rs ++ us) = blocks rs + blocks us :=
  List.countP_append

theorem blocks_eq_zero {rs : List Record} (h : ∀ r ∈ rs, r.kind ≠ .trace) : blocks rs = 0 :=
  List.countP_eq_zero.mpr fun r hr ↦ by simpa using h r hr

theorem blocks_block (config : TraceConfig) (view : View) : blocks (block config view) = 1 := by
  obtain ⟨rest, hblock, hkind⟩ := exists_block_eq config view
  have hrest : blocks rest = 0 := blocks_eq_zero fun r hr ↦ by
    rw [hkind r hr]
    exact RecordKind.noConfusion
  rw [hblock, ← List.singleton_append, blocks_append, hrest]
  rfl

theorem blocks_opening (config : TraceConfig) (view : View) :
    blocks (opening config view) = 1 := by
  have hscripts : blocks (scripts view.frames.reverse) = 0 := blocks_eq_zero fun r hr ↦ by
    rw [kind_of_mem_scripts hr]
    exact RecordKind.noConfusion
  rw [opening, List.cons_append, ← List.singleton_append, blocks_append, blocks_append, hscripts,
    blocks_block]
  rfl

variable {config : TraceConfig} {overrides : Overrides}

theorem Steps.blocks_eq {n : Nat} {m m' : StackMachine} {rs : List Record}
    (h : Steps config overrides n m rs m') : blocks rs = n := by
  induction h with
  | refl m => rfl
  | snoc _ _ haside ih =>
    have hzero := blocks_eq_zero fun r hr htrace ↦ by
      have hmem := haside.kind_mem r hr
      rw [htrace] at hmem
      exact absurd hmem (by decide)
    rw [blocks_append, blocks_append, ih, hzero, blocks_block]

/-- There is a block for the state at the beginning, one for each completed instruction, and one for
a fault. -/
theorem Invocation.blocks_eq {n : Nat} {m m' : StackMachine} {rs : List Record}
    (h : Invocation config overrides n m rs m') :
    blocks rs = n + 1 + if m'.state = .fault then 1 else 0 := by
  have hfault (fault : ScriptFault) (view : View) :
      blocks (.fault fault.message :: block config view) = 1 := by
    rw [← List.singleton_append, blocks_append, blocks_block]
    rfl
  cases h with
  | halted _ hsteps hstate _ =>
    rw [blocks_append, blocks_append, blocks_opening, hsteps.blocks_eq, hstate]
    change 1 + n + 0 = n + 1 + 0
    omega
  | faulted _ hsteps _ =>
    rw [blocks_append, blocks_append, blocks_opening, hsteps.blocks_eq, hfault]
    change 1 + n + 1 = n + 1 + 1
    omega
  | undecodable _ hsteps _ =>
    rw [blocks_append, blocks_append, blocks_opening, hsteps.blocks_eq, hfault]
    change 1 + _ + 1 = _ + 1 + 1
    omega
  | unstarted _ =>
    rw [blocks_append, blocks_opening, hfault]
    rfl

/-! ### One move -/

section Moves

variable {τ : Type} {sink : Sink τ} {records : τ → List Record} (hsink : sink.Keeps records)
include hsink

omit hsink in
theorem emits_single {x : Event → Recording τ Unit} {event : Event} {r r' : TraceRecorder}
    {rs : List Record} (h : Emits records (x event) r r' rs) :
    Emits records ([event].forM x) r r' rs := by
  have hlast := h.bind (f := fun _ ↦ pure ()) (.pure r')
  rwa [List.append_nil] at hlast

/-- What a completed operation reports is at most one record. -/
theorem emits_effect {m m' : StackMachine} {events : List Event} (heffect : Effect m events m')
    {r : TraceRecorder} (hstarted : r.started = true) (hsession : r.session = m.session) :
    ∃ r' aside, Emits records (events.forM ((observer sink).notice m'.view)) r r' aside ∧
      Aside r.announced (pushed m m') aside ∧ r'.session = r.session ∧ r'.config = r.config ∧
      r'.started = true ∧ r'.announced = announcing r.announced (pushed m m') := by
  have hsender := heffect.sameSession.session_eq.trans hsession.symm
  have hsame {m₁ : StackMachine} (h : SameScripts m m₁) : pushed m m₁ = [] :=
    pushed_eq_nil (Nat.le_of_eq h.length_eq)
  have hpopped {m₁ : StackMachine} (h : SameScripts m m₁) (m₂ : StackMachine)
      (hlength : m₂.frames.length ≤ m₁.frames.length) : pushed m m₂ = [] :=
    pushed_eq_nil (h.length_eq ▸ hlength)
  cases heffect with
  | silent h =>
    rw [hsame h]
    exact ⟨r, [], .pure r, .none, rfl, rfl, hstarted, rfl⟩
  | logged h message =>
    have hlog := emits_log hsink m'.view ⟨m'.session, m'.currentHash, message⟩ hsender
    rw [hsame h]
    exact ⟨_, _, emits_single hlog, .log _ _, rfl, rfl, hstarted, rfl⟩
  | notified h eventName state =>
    have hnotify := emits_notify hsink m'.view ⟨m'.session, m'.currentHash, eventName, state⟩
      hsender
    rw [hsame h]
    exact ⟨_, _, emits_single hnotify, .notify _ _ _, rfl, rfl, hstarted, rfl⟩
  | called h hdeployed arguments =>
    rw [pushed_enter h.length_eq]
    exact ⟨_, _, emits_single (emits_contextLoaded_of_started hsink _ _ hstarted), .script _, rfl,
      rfl, hstarted, rfl⟩
  | returned h hframes =>
    rw [hpopped h _ (by rw [hframes]; exact Nat.le_succ _)]
    exact ⟨r, [], emits_single (.pure r), .none, rfl, rfl, hstarted, rfl⟩
  | finished h hframes =>
    rw [hpopped h _ (Nat.zero_le _)]
    exact ⟨r, [], emits_single (.pure r), .none, rfl, rfl, hstarted, rfl⟩

/-- The hashes that are announced when an instruction is about to run. -/
def begun (r : TraceRecorder) (view : View) : List Hash :=
  if r.started then r.announced else announcing [] view.frames.reverse

/-- The records of a move in which an instruction completes. -/
theorem emits_follow_completed {overrides : Overrides} {m m' : StackMachine} {i : Instruction}
    {events : List Event} (hcompletes : m.Completes overrides i events m') {r : TraceRecorder}
    (hfresh : r.started = false → r.announced = []) (hsession : r.session = m.session) :
    ∃ r' aside, Emits records
        ((observer sink).follow m ⟨some (.preExecute i), m', events ++ [.postExecute i]⟩) r r'
        ((if r.started then [] else opening r.config m.view) ++ (aside ++ (block r.config m'.view ++
          if m'.state = .halt then [.results m'.state (Int64.ofNat m'.gas) m'.results] else []))) ∧
      Aside (r.begun m.view) (pushed m m') aside ∧ r'.session = m'.session ∧
      r'.config = r.config ∧ r'.started = decide (m'.state ≠ .halt) ∧
      r'.announced = if m'.state = .halt then []
        else announcing (r.begun m.view) (pushed m m') := by
  have hbegun := emits_single (emits_preExecute hsink m.view i hfresh)
  obtain ⟨r₂, aside, hevents, haside, hsession₂, hconfig₂, hstarted₂, hannounced₂⟩ :=
    emits_effect hsink hcompletes.effect (r := { r with
      started := true
      announced := r.begun m.view })
      rfl hsession
  rw [pushed_charge] at haside hannounced₂
  have hlast := emits_single (emits_postExecute hsink m'.view i r₂)
  have hafter := hevents.bind (f := fun _ ↦ [Event.postExecute i].forM _) hlast
  have hblock : block r₂.config m'.view = block r.config m'.view := by rw [hconfig₂]
  rw [← forM_append, hblock] at hafter
  refine ⟨_, aside, hbegun.bind hafter, haside, ?_⟩
  have hsession' : r₂.session = m'.session := by
    rw [hsession₂, hcompletes.effect.sameSession.session_eq]
    exact hsession
  by_cases hhalt : m'.state = .halt
  · rw [if_pos (show m'.view.state = .halt from hhalt), if_pos hhalt]
    exact ⟨hsession', hconfig₂, by simp [hhalt], rfl⟩
  · rw [if_neg (show m'.view.state ≠ .halt from hhalt), if_neg hhalt]
    exact ⟨hsession', hconfig₂, by rw [hstarted₂, decide_eq_true hhalt], hannounced₂⟩

/-- The records of a move in which an instruction faults. -/
theorem emits_follow_faulted (m : StackMachine) (i : Instruction) (fault : ScriptFault)
    (m' : StackMachine) {r : TraceRecorder} (hfresh : r.started = false → r.announced = []) :
    Emits records
      ((observer sink).follow m ⟨some (.preExecute i), (m'.raise fault).1, [.fault fault.message]⟩)
      r { r with started := false, announced := [] }
      ((if r.started then [] else opening r.config m.view) ++
        .fault fault.message :: block r.config (m'.raise fault).1.view) := by
  have hbegun := emits_single (emits_preExecute hsink m.view i hfresh)
  have hfault := emits_fault hsink (m'.raise fault).1.view fault.message (r := { r with
    started := true
    announced := if r.started then r.announced else announcing [] m.view.frames.reverse })
    fun hfalse ↦ Bool.noConfusion hfalse
  exact hbegun.bind (emits_single hfault)

/-- The records of a move in which an instruction does not decode. -/
theorem emits_follow_undecodable (m : StackMachine) (fault : ScriptFault) {r : TraceRecorder}
    (hfresh : r.started = false → r.announced = []) :
    Emits records
      ((observer sink).follow m ⟨none, (m.raise fault).1, [.fault fault.message]⟩)
      r { r with started := false, announced := [] }
      ((if r.started then [] else opening r.config (m.raise fault).1.view) ++
        .fault fault.message :: block r.config (m.raise fault).1.view) :=
  (Emits.pure r).bind (emits_single (emits_fault hsink (m.raise fault).1.view _ hfresh))

end Moves

/-! ### One execution -/

/-- How far an execution has come that began with `m₀`: the machine, whether the recorder is in an
invocation, and the records of the execution so far. -/
inductive Phase (config : TraceConfig) (overrides : Overrides) (m₀ : StackMachine) :
    StackMachine → Bool → List Record → Prop
  | idle {m : StackMachine} (hidles : Idles m₀ m) : Phase config overrides m₀ m false []
  /-- Some instructions completed, perhaps none, and the machine goes on. -/
  | running {n : Nat} {m : StackMachine} {rs : List Record} (hbegin : m₀.state = .none)
    (hsteps : Steps config overrides n m₀ rs m) (hrunning : m.state = .none) :
    Phase config overrides m₀ m (n != 0) (if n = 0 then [] else opening config m₀.view ++ rs)
  | ended {n : Nat} {m : StackMachine} {rs : List Record}
    (hinvocation : Invocation config overrides n m₀ rs m) (hstopped : m.state ≠ .none) :
    Phase config overrides m₀ m false rs

theorem Idles.state_ne {m m' : StackMachine} (h : Idles m m') : m'.state ≠ .none := by
  cases h with
  | stopped hstate => exact hstate
  | empty => exact VmState.noConfusion

/-- Until the first move the machine is the one that the execution began with. -/
theorem Phase.begin (m : StackMachine) : Phase config overrides m m false [] := by
  by_cases hrunning : m.state = .none
  · exact .running hrunning (.refl _) hrunning
  · exact .idle (.stopped hrunning)

theorem Phase.unfinished {m₀ m : StackMachine} {started : Bool} {rs : List Record}
    (h : Phase config overrides m₀ m started rs) : Unfinished config overrides m₀ rs m := by
  cases h with
  | idle hidles => exact .idle hidles
  | running hbegin hsteps hrunning =>
    cases hsteps with
    | refl => exact .waiting m₀
    | snoc hsteps hcompletes haside => exact .opened ⟨hbegin, .snoc hsteps hcompletes haside⟩
  | ended hinvocation => exact .whole hinvocation

/-- An execution that stopped was idle or a whole invocation. -/
theorem Phase.cases_of_stopped {m₀ m : StackMachine} {started : Bool} {rs : List Record}
    (h : Phase config overrides m₀ m started rs) (hstopped : m.state ≠ .none) :
    started = false ∧
      (Idles m₀ m ∧ rs = [] ∨ ∃ n, Invocation config overrides n m₀ rs m) := by
  cases h with
  | idle hidles => exact ⟨rfl, .inl ⟨hidles, rfl⟩⟩
  | running _ _ hrunning => exact absurd hrunning hstopped
  | ended hinvocation => exact ⟨rfl, .inr ⟨_, hinvocation⟩⟩

/-- An instruction completed: the execution goes on, or it halted with its results. -/
theorem Phase.completed {n : Nat} {m₀ m m' : StackMachine} {rs aside : List Record}
    {i : Instruction} {events : List Event} (hbegin : m₀.state = .none) (hmoves : m.state = .none)
    (hsteps : Steps config overrides n m₀ rs m) (hcompletes : m.Completes overrides i events m')
    (haside : IsAside aside) :
    Phase config overrides m₀ m' (decide (m'.state ≠ .halt))
      (opening config m₀.view ++ rs ++ (aside ++ (block config m'.view ++
        if m'.state = .halt then [.results m'.state (Int64.ofNat m'.gas) m'.results] else []))) := by
  have hnext := Steps.snoc hsteps hcompletes haside
  rcases hcompletes.effect.state_eq_or with hstate | ⟨hstate, hframes⟩
  · have hgoes : m'.state = .none := hstate.trans hmoves
    have hne : m'.state ≠ .halt := by
      rw [hgoes]
      exact VmState.noConfusion
    have hphase : Phase config overrides m₀ m' true _ := .running hbegin hnext hgoes
    rw [if_neg (Nat.succ_ne_zero n)] at hphase
    rw [if_neg hne, decide_eq_true hne, List.append_nil]
    simpa only [List.append_assoc] using hphase
  · have hne : m'.state ≠ .none := by
      rw [hstate]
      exact VmState.noConfusion
    have hended := Phase.ended (.halted hbegin hnext hstate hframes) hne
    rw [if_pos hstate, decide_eq_false (not_not.mpr hstate), hstate]
    simpa only [List.append_assoc] using hended

/-- An instruction did not decode, the first one of the execution or a later one. -/
theorem Phase.undecodable {n : Nat} {m₀ m : StackMachine} {rs : List Record} {fault : ScriptFault}
    (hbegin : m₀.state = .none) (hsteps : Steps config overrides n m₀ rs m)
    (hundecodable : m.Undecodable fault) :
    Phase config overrides m₀ (m.raise fault).1 false
      ((if n = 0 then [] else opening config m₀.view ++ rs) ++
        ((if n != 0 then [] else opening config (m.raise fault).1.view) ++
          .fault fault.message :: block config (m.raise fault).1.view)) := by
  cases hsteps with
  | refl => exact .ended (.unstarted hundecodable) VmState.noConfusion
  | snoc hsteps hcompletes haside =>
    exact .ended (.undecodable hbegin (.snoc hsteps hcompletes haside) hundecodable)
      VmState.noConfusion

/-- What a recorder knows of a machine it follows. -/
structure Follows (config : TraceConfig) (m : StackMachine) (r : TraceRecorder) : Prop where
  config_eq : r.config = config
  session_eq : r.session = m.session
  fresh : r.started = false → r.announced = []

theorem Follows.load {m : StackMachine} {r : TraceRecorder} (hfollows : Follows config m r)
    (code : Bytes) : Follows config (m.load code).next r :=
  ⟨hfollows.config_eq, hfollows.session_eq.trans (session_load m code).symm, hfollows.fresh⟩

section Execution

variable {τ : Type} {sink : Sink τ} {records : τ → List Record} (hsink : sink.Keeps records)
include hsink

/-- A move takes one phase of an execution to another. -/
theorem follow_phase {m₀ m : StackMachine} {r : TraceRecorder} {rs : List Record}
    (hfollows : Follows config m r) (hphase : Phase config overrides m₀ m r.started rs)
    {t : Turn StackMachine} (hturn : turn overrides m = some t) :
    ∃ r' us, Emits records ((observer sink).follow m t) r r' us ∧ Follows config t.next r' ∧
      Phase config overrides m₀ t.next r'.started (rs ++ us) := by
  have hmoves := running_of_turn hturn
  obtain ⟨rfl, hsession, hfresh⟩ := hfollows
  generalize hbegun : r.started = begun at hphase
  cases hphase with
  | idle hidles => exact absurd hmoves hidles.state_ne
  | ended _ hstopped => exact absurd hmoves hstopped
  | @running n _ us hbegin hsteps _ =>
    -- Until the first move the machine is the one that the execution began with.
    have hopening : (if n = 0 then [] else opening r.config m₀.view ++ us) ++
        (if r.started then [] else opening r.config m.view) = opening r.config m₀.view ++ us := by
      rw [hbegun]
      cases hsteps with
      | refl => simp
      | snoc => simp
    cases outcome_of_turn hturn with
    | empty _ hframes =>
      cases hsteps with
      | refl =>
        refine ⟨r, [], (Emits.pure r).bind (.pure r), ⟨rfl, hsession, hfresh⟩, ?_⟩
        rw [hbegun]
        exact .idle (.empty hmoves hframes)
      | snoc _ hcompletes _ => exact absurd hframes (hcompletes.frames_ne_nil hmoves)
    | @undecodable fault hundecodable =>
      refine ⟨_, _, emits_follow_undecodable hsink m fault hfresh, ⟨rfl, hsession, fun _ ↦ rfl⟩, ?_⟩
      rw [hbegun]
      exact .undecodable hbegin hsteps hundecodable
    | @completed i events m' hcompletes =>
      obtain ⟨r', aside, hemits, haside, hsession', hconfig', hstarted', hannounced'⟩ :=
        emits_follow_completed hsink hcompletes hfresh hsession
      have hfresh' : r'.started = false → r'.announced = [] := by
        intro hfalse
        rw [hstarted'] at hfalse
        rw [hannounced', if_pos (by simpa using hfalse)]
      refine ⟨r', _, hemits, ⟨hconfig', hsession', hfresh'⟩, ?_⟩
      rw [hstarted', ← List.append_assoc, hopening]
      exact .completed hbegin hmoves hsteps hcompletes haside.isAside
    | @faulted i fault m' hfaults =>
      refine ⟨_, _, emits_follow_faulted hsink m i fault m' hfresh, ⟨rfl, ?_, fun _ ↦ rfl⟩, ?_⟩
      · exact hsession.trans (sameScripts_of_operate hfaults.operate).sameSession.session_eq.symm
      · rw [← List.append_assoc, hopening]
        exact .ended (.faulted hbegin hsteps hfaults) VmState.noConfusion

/-- `phase` is a condition on the machine that an execution began with, the one it has come to, the
recorder, and the records so far. Moves preserve it. For an execution that has stopped it implies
`invocation`, or that there were no instructions, and for any other it implies `unfinished`. -/
structure Account (config : TraceConfig) (overrides : Overrides) (sink : Sink τ)
    (records : τ → List Record)
    (phase : StackMachine → StackMachine → TraceRecorder → List Record → Prop)
    (invocation unfinished : StackMachine → List Record → StackMachine → Prop) : Prop where
  begins : ∀ m r, Follows config m r → r.started = false → phase m m r []
  moves : τ → ∀ m₀ m r rs move, Follows config m r → phase m₀ m r rs →
    turn overrides m = some move → ∃ r' us,
      Emits records ((observer sink).follow m move) r r' us ∧ Follows config move.next r' ∧
        phase m₀ move.next r' (rs ++ us)
  unfinished : ∀ m₀ m r rs, phase m₀ m r rs → unfinished m₀ rs m
  stops : ∀ m₀ m r rs, phase m₀ m r rs → m.state ≠ .none → r.started = false ∧
    (Idles m₀ m ∧ rs = [] ∨ invocation m₀ rs m)

theorem account_phase : Account config overrides sink records
    (fun m₀ m r rs ↦ Phase config overrides m₀ m r.started rs)
    (fun m us m' ↦ ∃ n, Invocation config overrides n m us m' ∧
      blocks us = n + 1 + if m'.state = .fault then 1 else 0)
    (Unfinished config overrides) where
  begins m r _ hstarted := hstarted ▸ .begin m
  moves _ _ _ _ _ _ hfollows hphase hturn := follow_phase hsink hfollows hphase hturn
  unfinished _ _ _ _ hphase := hphase.unfinished
  stops m₀ m r rs hphase hstopped := by
    obtain ⟨hstarted, hcases⟩ := hphase.cases_of_stopped hstopped
    refine ⟨hstarted, hcases.imp_right ?_⟩
    rintro ⟨n, hinvocation⟩
    exact ⟨n, hinvocation, hinvocation.blocks_eq⟩

end Execution

/-! ### Calls -/

section Calls

variable {τ : Type} {sink : Sink τ}

/-- Loading a script outside an invocation brings no records. -/
theorem load_follows (records : τ → List Record) {e : TraceEngine StackMachine τ} {t : τ}
    (he : e.Watches (observer sink) overrides)
    (hfollows : Follows config e.session.machine e.recorder)
    (hstarted : e.recorder.started = false) (code : Bytes) :
    Succeeds (Engine.load code) (e, t) fun _ next ↦ next.1.Watches (observer sink) overrides ∧
      next.1.session.machine = (e.session.machine.load code).next ∧
      Follows config next.1.session.machine next.1.recorder ∧
      next.1.recorder.started = false ∧ records next.2 = records t := by
  have hfollow : Succeeds ((observer sink).follow e.session.machine (e.session.machine.load code))
      (e.recorder, t) fun _ host ↦ host.1 = e.recorder ∧ records host.2 = records t := by
    have hemits : Emits records
        ((observer sink).follow e.session.machine (e.session.machine.load code)) e.recorder
        e.recorder [] :=
      (Emits.pure _).bind (emits_single (emits_contextLoaded_of_not_started _ _ hstarted))
    refine (hemits t).mono fun _ host hhost ↦ ?_
    rwa [List.append_nil] at hhost
  apply (he.load hfollow).mono
  intro _ next hnext
  obtain ⟨e', t'⟩ := next
  obtain ⟨he', hmachine, hrecorder, hrecords⟩ := hnext
  change e'.session.machine = (e.session.machine.load code).next at hmachine
  change e'.recorder = e.recorder at hrecorder
  have hfollows' : Follows config e'.session.machine e'.recorder := by
    rw [hmachine, hrecorder]
    exact hfollows.load code
  exact ⟨he', hmachine, hfollows', (congrArg started hrecorder).trans hstarted, hrecords⟩

variable {records : τ → List Record}
  {phase : StackMachine → StackMachine → TraceRecorder → List Record → Prop}
  {invocation unfinished : StackMachine → List Record → StackMachine → Prop}

/-- An execution ends in a phase that it began, with moves to spare, or it has used them all. -/
theorem Account.execute
    (haccount : Account config overrides sink records phase invocation unfinished)
    {e : TraceEngine StackMachine τ} {t : τ} (he : e.Watches (observer sink) overrides)
    (hfollows : Follows config e.session.machine e.recorder)
    (hstarted : e.recorder.started = false) (budget : Nat) :
    Succeeds (Engine.execute budget) (e, t) fun answer next ↦
      next.1.Watches (observer sink) overrides ∧
      Follows config next.1.session.machine next.1.recorder ∧
      ∃ rs ts, records next.2 = records t ++ rs ∧
        phase e.session.machine next.1.session.machine next.1.recorder rs ∧
        Moves overrides e.session.machine ts next.1.session.machine ∧
        (answer ≠ none → next.1.session.machine.state ≠ .none ∧ ts.length < budget) ∧
        (answer = none → ts.length = budget) := by
  let inv (m : StackMachine) (host : TraceRecorder × τ) : Prop :=
    Follows config m host.1 ∧ ∃ rs, records host.2 = records t ++ rs ∧
      phase e.session.machine m host.1 rs
  have hstep (m : StackMachine) (host : TraceRecorder × τ) (move : Turn StackMachine)
      (hinv : inv m host) (hturn : turn overrides m = some move) :
      Succeeds ((observer sink).follow m move) host fun _ ↦ inv move.next := by
    obtain ⟨r, t₁⟩ := host
    obtain ⟨hfollows₁, rs, hrecords, hphase⟩ := hinv
    obtain ⟨r', us, hemits, hfollows', hphase'⟩ :=
      haccount.moves t₁ _ _ _ _ _ hfollows₁ hphase hturn
    apply (hemits t₁).mono
    intro _ next hnext
    obtain ⟨_, t'⟩ := next
    obtain ⟨rfl, hmore⟩ := hnext
    exact ⟨hfollows', rs ++ us, by rw [hmore, hrecords, List.append_assoc], hphase'⟩
  have hbegin : inv e.session.machine (e.recorder, t) :=
    ⟨hfollows, [], (List.append_nil _).symm, haccount.begins _ _ hfollows hstarted⟩
  apply (he.execute hstep hbegin budget).mono
  intro answer next hnext
  obtain ⟨e', t'⟩ := next
  obtain ⟨he', ⟨hfollows', rs, hrecords, hphase⟩, ts, hmoves, hended, hunended⟩ := hnext
  refine ⟨he', hfollows', rs, ts, hrecords, hphase, hmoves, fun hanswer ↦ ?_, hunended⟩
  obtain ⟨hstop, hlength⟩ := hended hanswer
  exact ⟨(turn_eq_none_iff overrides _).mp hstop, hlength⟩

/-- Calls on an engine whose recorder is outside an invocation. -/
theorem Account.drive
    (haccount : Account config overrides sink records phase invocation unfinished)
    {e : TraceEngine StackMachine τ} {t : τ} (he : e.Watches (observer sink) overrides)
    (hfollows : Follows config e.session.machine e.recorder)
    (hstarted : e.recorder.started = false) (calls : List Call) :
    Succeeds (Engine.drive calls) (e, t) fun ended next ↦ ∃ rs, records next.2 = records t ++ rs ∧
      Transcript overrides invocation unfinished calls ended e.session.machine rs
        next.1.session.machine := by
  induction calls generalizing e t with
  | nil => exact .pure ⟨[], (List.append_nil _).symm, .nil _⟩
  | cons call rest ih =>
    cases call with
    | load code =>
      apply (load_follows records he hfollows hstarted code).bind
      intro _ next hnext
      obtain ⟨e', t'⟩ := next
      obtain ⟨he', hmachine, hfollows', hstarted', hrecords⟩ := hnext
      apply (ih he' hfollows' hstarted').mono
      intro ended next hnext
      obtain ⟨e'', t''⟩ := next
      obtain ⟨rs, hmore, htranscript⟩ := hnext
      rw [hmachine] at htranscript
      exact ⟨rs, hmore.trans (congrArg (· ++ rs) hrecords), .load htranscript⟩
    | execute budget =>
      apply (haccount.execute he hfollows hstarted budget).bind
      intro answer next hnext
      obtain ⟨e', t'⟩ := next
      obtain ⟨he', hfollows', rs, ts, hrecords, hphase, hmoves, hended, hunended⟩ := hnext
      cases answer with
      | none =>
        have hpaused := haccount.unfinished _ _ _ _ hphase
        exact .pure ⟨rs, hrecords, .unfinished hmoves (hunended rfl) hpaused⟩
      | some state =>
        obtain ⟨hstopped, hlength⟩ := hended (Option.some_ne_none state)
        obtain ⟨hstarted', hcases⟩ := haccount.stops _ _ _ _ hphase hstopped
        apply (ih he' hfollows' hstarted').mono
        intro ended next hnext
        obtain ⟨e'', t''⟩ := next
        obtain ⟨us, hmore, htranscript⟩ := hnext
        rcases hcases with ⟨hidles, rfl⟩ | hinvocation
        · rw [List.append_nil] at hrecords
          exact ⟨us, hmore.trans (congrArg (· ++ us) hrecords),
            .idle hmoves hlength hidles htranscript⟩
        · refine ⟨rs ++ us, ?_, .invocation hmoves hlength hinvocation htranscript⟩
          rw [hmore, hrecords, List.append_assoc]

/-- Calls on an engine that was just built over a session without observers. -/
theorem Account.drive_start (names : NameCache) (checker : Option WitnessChecker)
    {session : Session StackMachine τ} (hobservers : session.observers = [])
    (haccount : Account config
      (TraceEngine.start sink config names checker session).session.overrides sink records phase
      invocation unfinished) (calls : List Call) (t : τ) :
    let engine := TraceEngine.start sink config names checker session
    ∃ ended engine' t' rs, Engine.drive calls (engine, t) = .ok ended (engine', t') ∧
      records t' = records t ++ rs ∧
      Transcript engine.session.overrides invocation unfinished calls ended session.machine rs
        engine'.session.machine := by
  intro engine
  have he : engine.Watches (observer sink) engine.session.overrides :=
    Engine.watches_start _ _ checker hobservers
  have hmachine : engine.session.machine = session.machine := by
    cases checker <;> rfl
  have hfollows : Follows config engine.session.machine engine.recorder := by
    rw [hmachine]
    exact ⟨rfl, rfl, fun _ ↦ rfl⟩
  obtain ⟨ended, ⟨engine', t'⟩, hrun, rs, hrecords, htranscript⟩ :=
    haccount.drive he hfollows (t := t) rfl calls
  rw [hmachine] at htranscript
  exact ⟨ended, engine', t', rs, hrun, hrecords, htranscript⟩

end Calls

/-- Assumes: a sink that keeps every record, and a session without observers. However the engine
over such a session is driven, no call fails, and the records are a transcript of the calls. -/
theorem drive_transcript {τ : Type} {sink : Sink τ} {records : τ → List Record}
    (hsink : sink.Keeps records) (config : TraceConfig) (names : NameCache)
    (checker : Option WitnessChecker) {session : Session StackMachine τ}
    (hobservers : session.observers = []) (calls : List Call) (t : τ) :
    let engine := TraceEngine.start sink config names checker session
    ∃ ended engine' t' rs, Engine.drive calls (engine, t) = .ok ended (engine', t') ∧
      records t' = records t ++ rs ∧
      Transcript engine.session.overrides
        (fun m us m' ↦ ∃ n, Invocation config engine.session.overrides n m us m' ∧
          blocks us = n + 1 + if m'.state = .fault then 1 else 0)
        (Unfinished config engine.session.overrides) calls ended session.machine rs
        engine'.session.machine :=
  (account_phase hsink).drive_start names checker hobservers calls t

/-- A script that was loaded before the engine was built halts, and another one aborts. -/
theorem drive_transcript_of_loaded :
    let machine := ((StackMachine.create ⟨1⟩ .empty .default []).load [Opcode.pushTrue]).next
    let session : Session StackMachine MemorySink := .ofMachine machine
    let engine := TraceEngine.start MemorySink.sink .default .empty none session
    let calls := [Call.execute 9, .load [Opcode.abort], .execute 9]
    session.observers = [] ∧ MemorySink.sink.Keeps MemorySink.records ∧
      ∃ ended engine' t', Engine.drive calls (engine, .empty) = .ok ended (engine', t') ∧
        Transcript engine.session.overrides
          (fun m us m' ↦ ∃ n, Invocation .default engine.session.overrides n m us m' ∧
            blocks us = n + 1 + if m'.state = .fault then 1 else 0)
          (Unfinished .default engine.session.overrides) calls ended machine t'.records
          engine'.session.machine := by
  intro machine session engine calls
  have hobservers : session.observers = [] := rfl
  obtain ⟨ended, engine', t', rs, hrun, hrecords, htranscript⟩ :=
    drive_transcript MemorySink.keeps .default .empty none hobservers calls .empty
  have hrs : t'.records = rs := hrecords
  rw [← hrs] at htranscript
  exact ⟨hobservers, MemorySink.keeps, ended, engine', t', hrun, htranscript⟩

end TraceRecorder

end ScriptTrace
