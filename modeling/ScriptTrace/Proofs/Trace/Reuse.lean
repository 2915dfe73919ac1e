import ScriptTrace.Proofs.StackMachine.Guise
import ScriptTrace.Proofs.Trace.Telling

/-!
A trace engine that is used again. What a recorder makes of a story depends on its session only in
so far as it ignores what others report, and on the gas so far only in the results. So a recorder
outside an invocation makes of a story under a guise what a new one makes of the story, with the gas
added (`Alike.recount`), and the records of a script do not show the scripts that ran before it
(`drive_alone`).
-/

set_option autoImplicit false
set_option relaxedAutoImplicit false

namespace ScriptTrace

/-- A record of a machine that had used some gas before. -/
def Record.withGas (gas : Nat) : Record → Record
  | .results state consumed stack => .results state (consumed + Int64.ofNat gas) stack
  | r => r

/-- An event that is reported by a session itself. -/
def Notice.Own (session : SessionId) (n : Notice) : Prop :=
  match n.2 with
  | .log event => event.sender = session
  | .notify event => event.sender = session
  | _ => True

/-! ### Own events -/

section Own

open StackMachine

variable {overrides : Overrides} {m m' : StackMachine}

theorem own_of_effect {events : List Event} (heffect : Effect m events m') {event : Event}
    (hevent : event ∈ events) : Notice.Own m'.session (m'.view, event) := by
  cases heffect with
  | silent => cases hevent
  | logged => exact List.mem_singleton.mp hevent ▸ rfl
  | notified => exact List.mem_singleton.mp hevent ▸ rfl
  | called => exact List.mem_singleton.mp hevent ▸ trivial
  | returned => exact List.mem_singleton.mp hevent ▸ trivial
  | finished => exact List.mem_singleton.mp hevent ▸ trivial

theorem own_of_turn {t : Turn StackMachine} (hturn : turn overrides m = some t) :
    ∀ n ∈ t.notices m, n.Own m.session := by
  intro n hn
  cases outcome_of_turn hturn with
  | empty => cases hn
  | undecodable => exact List.mem_singleton.mp hn ▸ trivial
  | @completed i events m' hcompletes =>
    rcases List.mem_append.mp hn with hbefore | hafter
    · exact List.mem_singleton.mp hbefore ▸ trivial
    · obtain ⟨event, hevent, rfl⟩ := List.mem_map.mp hafter
      rcases List.mem_append.mp hevent with hreported | hlast
      · rw [← session_eq_of_setting_eq (setting_of_turn hturn)]
        exact own_of_effect hcompletes.effect hreported
      · obtain rfl := List.mem_singleton.mp hlast
        exact trivial
  | faulted =>
    rcases List.mem_append.mp hn with hbefore | hafter
    · exact List.mem_singleton.mp hbefore ▸ trivial
    · exact List.mem_singleton.mp hafter ▸ trivial

/-- All that is told on the way of a machine is reported by its session. -/
theorem own_of_route {calls : List Call} {ended : Bool} {told : List Notice}
    (hroute : Route overrides calls ended m told m') : ∀ n ∈ told, n.Own m.session := by
  let inv (told : List Notice) (m₁ : StackMachine) : Prop :=
    m₁.setting = m.setting ∧ ∀ n ∈ told, n.Own m.session
  have hload (told : List Notice) (m₁ : StackMachine) (code : Bytes) (hinv : inv told m₁) :
      inv (told ++ (m₁.load code).notices m₁) (m₁.load code).next := by
    refine ⟨(setting_load code m₁).trans hinv.1, fun n hn ↦ ?_⟩
    rcases List.mem_append.mp hn with hold | hnew
    · exact hinv.2 n hold
    · exact List.mem_singleton.mp hnew ▸ trivial
  have hnext (told : List Notice) (m₁ : StackMachine) (t : Turn StackMachine)
      (hinv : inv told m₁) (hturn : turn overrides m₁ = some t) :
      inv (told ++ t.notices m₁) t.next := by
    refine ⟨(setting_of_turn hturn).trans hinv.1, fun n hn ↦ ?_⟩
    rcases List.mem_append.mp hn with hold | hnew
    · exact hinv.2 n hold
    · rw [← session_eq_of_setting_eq hinv.1]
      exact own_of_turn hturn n hnew
  have hbegin : inv [] m := ⟨rfl, fun n hn ↦ absurd hn List.not_mem_nil⟩
  have hend : inv ([] ++ told) m' := hroute.preserves hload hnext [] hbegin
  exact hend.2

end Own

namespace TraceRecorder

open StackMachine

/-! ### Recorders under a guise -/

/-- Records other than results do not show the gas. -/
theorem map_withGas {rs : List Record} (h : ∀ r ∈ rs, r.kind ≠ .results) (gas : Nat) :
    rs.map (Record.withGas gas) = rs := by
  have hsame : ∀ r ∈ rs, r.withGas gas = id r := by
    intro r hr
    have hkind := h r hr
    cases r with
    | results => exact absurd rfl hkind
    | _ => rfl
  rw [List.map_congr_left hsame, List.map_id]

theorem map_block (config : TraceConfig) (view : View) (gas : Nat) :
    (block config view).map (Record.withGas gas) = block config view := by
  obtain ⟨rest, hblock, hkind⟩ := exists_block_eq config view
  rw [hblock]
  refine map_withGas (List.forall_mem_cons.mpr ⟨RecordKind.noConfusion, fun r hr ↦ ?_⟩) gas
  rw [hkind r hr]
  exact RecordKind.noConfusion

theorem map_opening (config : TraceConfig) (view : View) (gas : Nat) :
    (opening config view).map (Record.withGas gas) = opening config view := by
  have hscripts : (scripts view.frames.reverse).map (Record.withGas gas) =
      scripts view.frames.reverse := map_withGas (fun r hr ↦ by
    rw [kind_of_mem_scripts hr]
    exact RecordKind.noConfusion) gas
  rw [opening, List.map_append, List.map_cons, hscripts, map_block]
  rfl

/-- A recorder that follows a machine, and one that follows it under a guise. -/
structure Alike (g : Guise) (r r' : TraceRecorder) : Prop where
  config_eq : r'.config = r.config
  session_eq : r'.session = g.session
  started_eq : r'.started = r.started
  announced_eq : r'.announced = r.announced

theorem session_tell (r : TraceRecorder) (n : Notice) : (r.tell n).1.session = r.session := by
  obtain ⟨view, event⟩ := n
  unfold tell
  cases event with
  | contextLoaded c =>
    dsimp only
    split <;> rfl
  | contextUnloaded c => rfl
  | preExecute i => rfl
  | postExecute i =>
    dsimp only
    split <;> rfl
  | fault exception => rfl
  | log event =>
    dsimp only
    split <;> rfl
  | notify event =>
    dsimp only
    split <;> rfl

theorem Alike.tell {g : Guise} {r r' : TraceRecorder} (h : Alike g r r') {n : Notice}
    (hown : n.Own r.session) : Alike g (r.tell n).1 (r'.tell (n.under g)).1 ∧
      (r'.tell (n.under g)).2 = (r.tell n).2.map (Record.withGas g.gas) := by
  obtain ⟨view, event⟩ := n
  obtain ⟨session, names, config, started, announced⟩ := r
  obtain ⟨session', names', config', started', announced'⟩ := r'
  obtain ⟨hconfig, hsession, hstarted, hannounced⟩ := h
  obtain rfl : config' = config := hconfig
  obtain rfl : session' = g.session := hsession
  obtain rfl : started' = started := hstarted
  obtain rfl : announced' = announced := hannounced
  have hopening : (if started' then [] else opening config' view) =
      (if started' then [] else opening config' view).map (Record.withGas g.gas) := by
    split
    · rfl
    · rw [map_opening]
  cases event with
  | contextLoaded c =>
    simp only [TraceRecorder.tell, Notice.under, Event.under]
    split
    · refine ⟨⟨rfl, rfl, rfl, rfl⟩, ?_⟩
      split <;> rfl
    · exact ⟨⟨rfl, rfl, rfl, rfl⟩, rfl⟩
  | contextUnloaded c => exact ⟨⟨rfl, rfl, rfl, rfl⟩, rfl⟩
  | preExecute i => exact ⟨⟨rfl, rfl, rfl, rfl⟩, hopening⟩
  | postExecute i =>
    simp only [TraceRecorder.tell, Notice.under, Event.under, List.map_append, map_block]
    constructor
    · show Alike g (if view.state = .halt then _ else _) (if view.state = .halt then _ else _)
      split <;> exact ⟨rfl, rfl, rfl, rfl⟩
    · show block config' view ++ (if view.state = .halt then _ else _) = _
      split <;> rfl
  | fault exception =>
    refine ⟨⟨rfl, rfl, rfl, rfl⟩, ?_⟩
    simp only [TraceRecorder.tell, Notice.under, Event.under, List.map_append, List.map_cons,
      map_block, ← hopening]
    rfl
  | log event =>
    obtain rfl : event.sender = session := hown
    simp only [TraceRecorder.tell, Notice.under, Event.under, if_pos]
    exact ⟨⟨rfl, rfl, rfl, rfl⟩, rfl⟩
  | notify event =>
    obtain rfl : event.sender = session := hown
    simp only [TraceRecorder.tell, Notice.under, Event.under, if_pos]
    exact ⟨⟨rfl, rfl, rfl, rfl⟩, rfl⟩

theorem Alike.recount {g : Guise} {r r' : TraceRecorder} (h : Alike g r r') {told : List Notice}
    (hown : ∀ n ∈ told, n.Own r.session) :
    (ScriptTrace.recount TraceRecorder.tell (r', []) (told.map (Notice.under g))).2 =
      (ScriptTrace.recount TraceRecorder.tell (r, []) told).2.map (Record.withGas g.gas) := by
  induction told generalizing r r' with
  | nil => rfl
  | cons n rest ih =>
    obtain ⟨halike, hrecords⟩ := h.tell (hown n List.mem_cons_self)
    have hrest := ih halike fun n hn ↦ by
      rw [session_tell]
      exact hown n (.tail _ hn)
    rw [List.map_cons, snd_recount_cons, snd_recount_cons, List.map_append, hrecords, hrest]

/-! ### Sessions -/

/-- A recorder is outside an invocation again after calls that ended. -/
theorem follows_of_route {config : TraceConfig} {overrides : Overrides} {calls : List Call}
    {m m' : StackMachine} {told : List Notice} (hroute : Route overrides calls true m told m')
    {r : TraceRecorder} (hfollows : Follows config m r) (hstarted : r.started = false) :
    Follows config m' (ScriptTrace.recount tell (r, []) told).1 ∧
      (ScriptTrace.recount tell (r, []) told).1.started = false := by
  generalize hended : true = ended at hroute
  induction hroute generalizing r with
  | nil m => exact ⟨hfollows, hstarted⟩
  | @load code calls ended m m' told _ ih =>
    rw [show Machine.load code m = m.load code from rfl, recount_load hstarted]
    exact ih (hfollows.load code) hstarted hended
  | execute hmoves hstop _ _ ih =>
    obtain ⟨hfollows₁, hphase⟩ := phase_of_moves hmoves hfollows hstarted
    obtain ⟨hstarted₁, -⟩ := hphase.cases_of_stopped ((turn_eq_none_iff overrides _).mp hstop)
    rw [recount_append, fst_recount]
    exact ih hfollows₁ hstarted₁ hended
  | unfinished => cases hended

/-- Assumes: two engines outside an invocation, the machine of one being new and that of the other
beginning anew. Calls that begin with a load bring the same records, but for the gas. -/
theorem drive_alone {τ : Type} {sink : Sink τ} {records : τ → List Record}
    (hsink : sink.Keeps records) {overrides : Overrides} {e f : TraceEngine StackMachine τ}
    (he : e.Watches (observer sink) overrides) (hf : f.Watches (observer sink) overrides)
    {config : TraceConfig} (hfollows : Follows config e.session.machine e.recorder)
    (hstarted : e.recorder.started = false) (hrenewed : e.session.machine.Renewed)
    {session : SessionId} {names : NameCache}
    (hmachine : f.session.machine = e.session.machine.another session)
    (hrecorder : f.recorder = ⟨session, names, config, false, []⟩)
    (hignores : overrides.Ignores session ⟨e.session.machine.session, e.session.machine.gas⟩)
    (code : Bytes) (calls : List Call) (t u : τ) :
    ∃ ended e' t' f' u' us, Engine.drive (.load code :: calls) (e, t) = .ok ended (e', t') ∧
      Engine.drive (.load code :: calls) (f, u) = .ok ended (f', u') ∧
      records u' = records u ++ us ∧
      records t' = records t ++ us.map (Record.withGas e.session.machine.gas) := by
  obtain ⟨ended, ⟨e', t'⟩, hrun, -, told, hroute, -, hrecords⟩ :=
    drive_recount hsink he hfollows.fresh (.load code :: calls) t
  obtain ⟨ended', ⟨f', u'⟩, halone, -, others, hother, -, hkept⟩ :=
    drive_recount hsink hf (by
      rw [hrecorder]
      exact fun _ ↦ rfl) (.load code :: calls) u
  rw [hmachine] at hother
  obtain ⟨rfl, rfl, -⟩ := (hother.of_another hrenewed hignores).unique hroute
  have hown := own_of_route hother
  have halike : Alike ⟨e.session.machine.session, e.session.machine.gas⟩ f.recorder e.recorder := by
    rw [hrecorder]
    exact ⟨hfollows.config_eq, hfollows.session_eq, hstarted, hfollows.fresh hstarted⟩
  rw [halike.recount (by
    rw [hrecorder]
    exact hown)] at hrecords
  exact ⟨ended', e', t', f', u', _, hrun, halone, hkept, hrecords⟩

/-- Assumes: a session without observers and replaced system calls, on which some scripts ran to
their ends. The next script brings the records that it brings a new session. -/
theorem drive_runs {τ : Type} {sink : Sink τ} {records : τ → List Record}
    (hsink : sink.Keeps records) (config : TraceConfig) (names names' : NameCache)
    (checker : Option WitnessChecker) {session : Session StackMachine τ}
    (hobservers : session.observers = []) (hoverrides : session.overrides = .empty)
    (hrenewed : session.machine.Renewed) {scripts : List (Bytes × Nat)}
    {e : TraceEngine StackMachine τ} {t₀ t : τ}
    (hscripts : Engine.drive (Call.runs scripts)
      (TraceEngine.start sink config names checker session, t₀) = .ok true (e, t))
    (identity : SessionId) (code : Bytes) (budget : Nat) (u : τ) :
    ∃ ended e' t' f u' rs,
      Engine.drive (Call.runs [(code, budget)]) (e, t) = .ok ended (e', t') ∧
      Engine.drive (Call.runs [(code, budget)]) (TraceEngine.start sink config names' checker
        (.ofMachine (session.machine.another identity)), u) = .ok ended (f, u') ∧
      records u' = records u ++ rs ∧
      records t' = records t ++ rs.map (Record.withGas e.session.machine.gas) := by
  have hnew : (TraceEngine.start sink config names' checker
      (.ofMachine (session.machine.another identity))).Watches (observer sink)
        (Engine.witnessed checker .empty) := Engine.watches_witnessed _ _ checker rfl
  obtain ⟨_, _, hrun, he, told, hroute, hrecorder, -⟩ :=
    drive_start hsink config names checker hobservers (Call.runs scripts) t₀
  obtain ⟨rfl, rfl⟩ := EStateM.Result.ok.inj (hrun.symm.trans hscripts)
  rw [hoverrides] at he hroute
  have hbegin : Follows config session.machine
      ⟨session.machine.session, names, config, false, []⟩ := ⟨rfl, rfl, fun _ ↦ rfl⟩
  obtain ⟨hfollows, hstarted⟩ := follows_of_route hroute hbegin rfl
  rw [← hrecorder] at hfollows hstarted
  obtain ⟨hrenewed', hsetting⟩ := hroute.renewed hrenewed
  refine drive_alone hsink he hnew hfollows hstarted hrenewed' ?_ rfl
    ((Overrides.ignores_empty identity _).witnessed checker) code [.execute budget] t u
  rw [another_eq_of_setting_eq hsetting]
  exact Engine.machine_start _ _ checker _

end TraceRecorder

end ScriptTrace
