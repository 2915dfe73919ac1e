import ScriptTrace.Proofs.Session.Recount
import ScriptTrace.Proofs.Trace.Shape

/-!
What a trace session makes of a story. With a sink that keeps every record a recorder retells events
(`retells`): `tell` is the recorder after an event and the records of the event. What is recounted
of an execution is therefore in the phase that the execution has come to (`phase_of_moves`).
-/

set_option autoImplicit false
set_option relaxedAutoImplicit false

namespace ScriptTrace

namespace TraceRecorder

open StackMachine

/-- A recorder after an event, and the records it emits. -/
def tell (r : TraceRecorder) : Notice → TraceRecorder × List Record
  | (_, .contextLoaded c) =>
    if r.started then
      ({ r with announced := announcing r.announced [c] },
        if c.scriptHash ∈ r.announced then [] else [.script c.scriptHash c.code])
    else (r, [])
  | (_, .contextUnloaded _) => (r, [])
  | (view, .preExecute _) =>
    ({ r with started := true, announced := r.begun view },
      if r.started then [] else opening r.config view)
  | (view, .postExecute _) =>
    (if view.state = .halt then { r with started := false, announced := [] } else r,
      block r.config view ++
        if view.state = .halt then [.results view.state view.gasConsumed view.resultStack] else [])
  | (view, .fault exception) =>
    ({ r with started := false, announced := [] },
      (if r.started then [] else opening r.config view) ++
        .fault exception :: block r.config view)
  | (view, .log event) =>
    if event.sender = r.session then
      ({ r with names := (r.named view event.scriptHash).2 }, [.log event.scriptHash event.message])
    else (r, [])
  | (view, .notify event) =>
    if event.sender = r.session then
      ({ r with names := (r.named view event.scriptHash).2 },
        [.notify event.scriptHash event.eventName event.state])
    else (r, [])

/-- Outside an invocation no script is announced. -/
def Fresh (r : TraceRecorder) : Prop := r.started = false → r.announced = []

theorem Fresh.tell {r : TraceRecorder} (hfresh : r.Fresh) (n : Notice) : (r.tell n).1.Fresh := by
  obtain ⟨view, event⟩ := n
  unfold TraceRecorder.tell
  cases event with
  | contextLoaded c =>
    dsimp only
    split
    · rename_i hstarted
      exact fun hfalse ↦ absurd hfalse (by simp [hstarted])
    · exact hfresh
  | contextUnloaded c => exact hfresh
  | preExecute i => exact fun hfalse ↦ Bool.noConfusion hfalse
  | postExecute i =>
    dsimp only
    split
    · exact fun _ ↦ rfl
    · exact hfresh
  | fault exception => exact fun _ ↦ rfl
  | log event =>
    dsimp only
    split <;> exact hfresh
  | notify event =>
    dsimp only
    split <;> exact hfresh

/-- A sink has kept, besides some records before, those of a recorder. -/
structure Told {τ : Type} (records : τ → List Record) (before : List Record)
    (q : TraceRecorder × List Record) (host : TraceRecorder × τ) : Prop where
  recorder_eq : host.1 = q.1
  records_eq : records host.2 = before ++ q.2
  fresh : q.1.Fresh

section Retells

variable {τ : Type} {sink : Sink τ} {records : τ → List Record} (hsink : sink.Keeps records)
include hsink

/-- What an event emits. -/
theorem emits_tell {r : TraceRecorder} (hfresh : r.Fresh) (n : Notice) :
    Emits records ((observer sink).notice n.1 n.2) r (r.tell n).1 (r.tell n).2 := by
  obtain ⟨view, event⟩ := n
  unfold tell
  cases event with
  | contextLoaded c =>
    dsimp only
    by_cases hstarted : r.started = true
    · rw [if_pos hstarted]
      exact emits_contextLoaded_of_started hsink view c hstarted
    · rw [if_neg hstarted]
      exact emits_contextLoaded_of_not_started view c (by simpa using hstarted)
  | contextUnloaded c => exact .pure r
  | preExecute i => exact emits_preExecute hsink view i hfresh
  | postExecute i => exact emits_postExecute hsink view i r
  | fault exception => exact emits_fault hsink view exception hfresh
  | log event =>
    dsimp only
    by_cases hsender : event.sender = r.session
    · rw [if_pos hsender]
      exact emits_log hsink view event hsender
    · rw [if_neg hsender]
      refine .get_bind fun _ ↦ ?_
      simp only [if_neg hsender]
      exact .pure r
  | notify event =>
    dsimp only
    by_cases hsender : event.sender = r.session
    · rw [if_pos hsender]
      exact emits_notify hsink view event hsender
    · rw [if_neg hsender]
      refine .get_bind fun _ ↦ ?_
      simp only [if_neg hsender]
      exact .pure r

/-- Assumes: a sink that keeps every record. A recorder retells events. -/
theorem retells (before : List Record) :
    (observer sink).Retells tell (fun _ _ ↦ True) (Told records before) where
  notice q n host _ htold := by
    obtain ⟨r, t⟩ := host
    obtain ⟨hrecorder, hrecords, hfresh⟩ := htold
    obtain rfl : r = q.1 := hrecorder
    apply (emits_tell hsink hfresh n t).mono
    intro _ next hnext
    obtain ⟨hrecorder', hrecords'⟩ := hnext
    exact ⟨hrecorder', by rw [hrecords', hrecords, List.append_assoc]; rfl, hfresh.tell n⟩

/-- What a move emits. -/
theorem emits_follow {r : TraceRecorder} (hfresh : r.Fresh) (m : StackMachine)
    (move : Turn StackMachine) :
    Emits records ((observer sink).follow m move) r (recount tell (r, []) (move.notices m)).1
      (recount tell (r, []) (move.notices m)).2 := by
  intro t
  have hbegin : Told records (records t) (r, []) (r, t) := ⟨rfl, (List.append_nil _).symm, hfresh⟩
  apply ((retells hsink (records t)).follow (allowed_of_forall (fun _ _ ↦ trivial) r)
    hbegin).mono
  intro _ next htold
  exact ⟨htold.recorder_eq, htold.records_eq⟩

/-- What calls leave behind is recounted of their route. -/
theorem drive_recount {overrides : Overrides} {e : TraceEngine StackMachine τ}
    (he : e.Watches (observer sink) overrides) (hfresh : e.recorder.Fresh) (calls : List Call)
    (t : τ) :
    Succeeds (Engine.drive calls) (e, t) fun ended next ↦
      next.1.Watches (observer sink) overrides ∧
      ∃ told, Route overrides calls ended e.session.machine told next.1.session.machine ∧
        next.1.recorder = (recount tell (e.recorder, []) told).1 ∧
        records next.2 = records t ++ (recount tell (e.recorder, []) told).2 := by
  let always (_ : List Notice) (_ : StackMachine) : Prop := True
  have hbegin : always [] e.session.machine := trivial
  have hholds : Told records (records t) (e.recorder, []) (e.recorder, t) :=
    ⟨rfl, (List.append_nil _).symm, hfresh⟩
  have hallowed (r : TraceRecorder) (told : List Notice) :=
    @allowed_of_forall _ _ tell (fun _ _ ↦ True) told (fun _ _ ↦ trivial) r
  apply ((retells hsink (records t)).drive (fun _ _ _ _ ↦ ⟨hallowed _ _, trivial⟩)
    (fun _ _ _ _ _ ↦ ⟨hallowed _ _, trivial⟩) he hbegin hholds calls).mono
  intro ended next hnext
  obtain ⟨he', told, hroute, -, -, htold⟩ := hnext
  exact ⟨he', told, hroute, htold.recorder_eq, htold.records_eq⟩

/-- Assumes: a session without observers. What calls on a new engine leave behind is recounted of
their route. -/
theorem drive_start (config : TraceConfig) (names : NameCache) (checker : Option WitnessChecker)
    {session : Session StackMachine τ} (hobservers : session.observers = []) (calls : List Call)
    (t : τ) :
    let r : TraceRecorder := ⟨session.machine.session, names, config, false, []⟩
    let overrides := Engine.witnessed checker session.overrides
    Succeeds (Engine.drive calls) (TraceEngine.start sink config names checker session, t)
      fun ended next ↦ next.1.Watches (observer sink) overrides ∧
        ∃ told, Route overrides calls ended session.machine told next.1.session.machine ∧
          next.1.recorder = (recount tell (r, []) told).1 ∧
          records next.2 = records t ++ (recount tell (r, []) told).2 := by
  intro r overrides
  have hwatches : (TraceEngine.start sink config names checker session).Watches (observer sink)
      overrides := Engine.watches_witnessed _ _ checker hobservers
  have hmachine : (TraceEngine.start sink config names checker session).session.machine =
      session.machine := Engine.machine_start _ _ checker session
  have hdrive := drive_recount hsink hwatches (fun _ ↦ rfl) calls t
  rwa [hmachine] at hdrive

end Retells

/-- Outside an invocation a load brings no records. -/
theorem recount_load {r : TraceRecorder} (hstarted : r.started = false) (m : StackMachine)
    (code : Bytes) (told : List Notice) :
    recount tell (r, []) ((m.load code).notices m ++ told) = recount tell (r, []) told := by
  rw [recount_append]
  refine congrArg (recount tell · told) ?_
  show (_, [] ++ _) = (r, [])
  simp [tell, hstarted]

/-- Assumes: a recorder that is not in an invocation. What is recounted of an execution is in the
phase that the execution has come to. -/
theorem phase_of_moves {config : TraceConfig} {overrides : Overrides} {m₀ m : StackMachine}
    {ts : List (Turn StackMachine)} (hmoves : Moves overrides m₀ ts m) {r : TraceRecorder}
    (hfollows : Follows config m₀ r) (hstarted : r.started = false) :
    Follows config m (recount tell (r, []) (story m₀ ts)).1 ∧
      Phase config overrides m₀ m (recount tell (r, []) (story m₀ ts)).1.started
        (recount tell (r, []) (story m₀ ts)).2 := by
  let inv (told : List Notice) (m : StackMachine) : Prop :=
    Follows config m (recount tell (r, []) told).1 ∧ Phase config overrides m₀ m
      (recount tell (r, []) told).1.started (recount tell (r, []) told).2
  have hbegin : inv [] m₀ := by
    refine ⟨hfollows, ?_⟩
    show Phase config overrides m₀ m₀ r.started []
    rw [hstarted]
    exact .begin m₀
  refine hmoves.preserves (fun told m t hinv hturn ↦ ?_) [] hbegin
  obtain ⟨hfollows₁, hphase⟩ := hinv
  -- Records in memory do for what an event emits with any sink.
  obtain ⟨r', us, hemits, hfollows', hphase'⟩ :=
    follow_phase MemorySink.keeps hfollows₁ hphase hturn
  obtain ⟨hrecorder, hrecords⟩ :=
    hemits.unique .empty (emits_follow MemorySink.keeps hfollows₁.fresh m t)
  have hrecount := @recount_eq _ _ tell (t.notices m) (recount tell (r, []) told).1
    (recount tell (r, []) told).2
  show Follows config t.next (recount tell (r, []) (told ++ t.notices m)).1 ∧ Phase config
    overrides m₀ t.next (recount tell (r, []) (told ++ t.notices m)).1.started
      (recount tell (r, []) (told ++ t.notices m)).2
  rw [recount_append, hrecount, ← hrecorder, ← hrecords]
  exact ⟨hfollows', hphase'⟩

end TraceRecorder

end ScriptTrace
