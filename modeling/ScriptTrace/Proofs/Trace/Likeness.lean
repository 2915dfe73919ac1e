import ScriptTrace.Proofs.StackMachine.Depth
import ScriptTrace.Trace.Engine

/-!
Two sinks under one trace. If two sinks match each other at the records that a recorder may make,
the recorders over them match each other at every notice that such records are made of, and so do
the engines that they instrument (`EngineCall.matches_perform`). Other observers of the session have
a state of their own, which the sinks do not touch.
-/

set_option autoImplicit false
set_option relaxedAutoImplicit false

namespace ScriptTrace

/-- A sink beside other states. -/
def Sink.onFirst {τ ω : Type} (sink : Sink τ) : Sink (τ × ω) where
  write record := ScriptTrace.onFirst (sink.write record)
  flush := ScriptTrace.onFirst sink.flush
  nameContract name s := (sink.nameContract name s.1, s.2)

/-- Two sinks match each other at allowed records. -/
structure Sink.Matches {τ τ' : Type} (L : Likeness τ τ') (raises : TracerError → Prop)
    (allows : Record → Prop) (sink : Sink τ) (sink' : Sink τ') : Prop where
  write : ∀ record t, allows record → L.sound t →
    ScriptTrace.Matches L raises (sink.write record) (sink'.write record) t
  flush : ∀ t, L.sound t → ScriptTrace.Matches L raises sink.flush sink'.flush t
  nameContract : ∀ name t, L.sound t → ScriptTrace.Matches L raises
    (modify (sink.nameContract name)) (modify (sink'.nameContract name)) t

section Sinks

variable {τ τ' : Type} {L : Likeness τ τ'} {raises : TracerError → Prop}
  {allows : Record → Prop} {sink : Sink τ} {sink' : Sink τ'}
  (hsinks : sink.Matches L raises allows sink')
include hsinks

/-- A record that is handed over with the name of a contract. -/
theorem Sink.Matches.named (name : String) {record : Record} (hrecord : allows record) {t : τ}
    (ht : L.sound t) : ScriptTrace.Matches L raises
      (modify (sink.nameContract name) >>= fun _ ↦ sink.write record)
      (modify (sink'.nameContract name) >>= fun _ ↦ sink'.write record) t :=
  (hsinks.nameContract name t ht).bind fun _ next hnext ↦ hsinks.write record next hrecord hnext

theorem Sink.Matches.onFirst (ω : Type) :
    sink.onFirst.Matches (L.beside ω) raises allows (sink'.onFirst (ω := ω)) where
  write record t hrecord ht := (hsinks.write record t.1 hrecord ht).onFirst t.2
  flush t ht := (hsinks.flush t.1 ht).onFirst t.2
  nameContract name t ht := (hsinks.nameContract name t.1 ht).onFirst t.2

end Sinks

/-! ### Recorders -/

/-- The items of a record are shallow. -/
def Record.Shallow (r : Record) : Prop := ∀ x ∈ r.items, x.Shallow

namespace TraceRecorder

variable {τ τ' : Type} {L : Likeness τ τ'} {raises : TracerError → Prop} {sink : Sink τ}
  {sink' : Sink τ'} {s : TraceRecorder × τ} (hs : (L.behind TraceRecorder).sound s)
include hs

theorem matches_update (f : TraceRecorder → TraceRecorder) :
    Matches (L.behind TraceRecorder) raises (modify fun (r, t) ↦ (f r, t))
      (modify fun (r, t) ↦ (f r, t)) s := by
  refine .modify hs rfl ?_
  rintro ⟨_, t'⟩ ⟨rfl, hlike⟩
  exact ⟨rfl, hlike⟩

variable (hsinks : sink.Matches L raises Record.Shallow sink')
include hsinks

theorem matches_write {record : Record} (hrecord : record.Shallow) :
    Matches (L.behind TraceRecorder) raises (onSecond (sink.write record))
      (onSecond (sink'.write record)) s :=
  (hsinks.write record s.2 hrecord hs).onSecond s.1

theorem matches_announce (c : Context) :
    Matches (L.behind TraceRecorder) raises (announce sink c) (announce sink' c) s := by
  refine .get_behind (fun _ ↦ by dsimp only) ?_
  dsimp only
  split
  · exact .pure hs _
  · have hscript : (Record.script c.scriptHash c.code).Shallow := nofun
    let known (r : TraceRecorder) := { r with announced := c.scriptHash :: r.announced }
    exact (matches_update hs known).bind fun _ _ hnext ↦ matches_write hnext hsinks hscript

/-- Assumes: a view of shallow items. -/
theorem matches_emitTrace {view : View} (hview : ∀ x ∈ view.items, x.Shallow) :
    Matches (L.behind TraceRecorder) raises (emitTrace sink view) (emitTrace sink' view) s := by
  have hframes : (Record.trace view.state (view.frames.map Context.toRecord)).Shallow :=
    fun x hx ↦ hview x (List.mem_append_left _ hx)
  refine .get_behind (fun _ ↦ by dsimp only) ?_
  refine (matches_write hs hsinks hframes).bind fun _ next hnext ↦ ?_
  split
  · refine .forM (fun hash _ next hnext ↦ ?_) hnext
    cases view.snapshot.contract? hash with
    | none => exact .pure hnext _
    | some contract => exact matches_write hnext hsinks nofun
  · exact .pure hnext _

/-- Assumes: a view of shallow items. -/
theorem matches_ensureStarted {view : View} (hview : ∀ x ∈ view.items, x.Shallow) :
    Matches (L.behind TraceRecorder) raises (ensureStarted sink view) (ensureStarted sink' view)
      s := by
  refine .get_behind (fun _ ↦ by dsimp only) ?_
  dsimp only
  split
  · exact .pure hs _
  · have hsettings : (Record.settings view.settings.network
      view.settings.addressVersion).Shallow := nofun
    refine (matches_update hs fun r ↦ { r with started := true }).bind fun _ _ h₁ ↦ ?_
    refine (matches_write h₁ hsinks hsettings).bind fun _ _ h₂ ↦ ?_
    refine Matches.bind (.forM (fun c _ _ h ↦ ?_) h₂) fun _ _ h₃ ↦ ?_
    · exact matches_announce h hsinks c
    · exact matches_emitTrace h₃ hsinks hview

/-- The name of a contract, and a record that goes with it. -/
theorem matches_named (view : View) (hash : Hash) {record : Record} (hrecord : record.Shallow) :
    Matches (L.behind TraceRecorder) raises
      (do
        let name ← resolveName view hash
        onSecond (do
          modify (sink.nameContract name)
          sink.write record))
      (do
        let name ← resolveName view hash
        onSecond (do
          modify (sink'.nameContract name)
          sink'.write record)) s := by
  have hresolve : Matches (L.behind TraceRecorder) raises (resolveName view hash)
      (resolveName view hash) s := by
    let found := Id.run (s.1.names.resolve (fun h ↦ pure (view.snapshot.contract? h)) hash)
    refine .get_behind (fun _ ↦ by dsimp only) ?_
    exact (matches_update hs fun r ↦ { r with names := found.2 }).bind fun _ _ hnext ↦
      .pure hnext _
  refine hresolve.bind fun name next hnext ↦ ?_
  exact (hsinks.named name hrecord hnext).onSecond next.1

omit hsinks in
theorem matches_finish : Matches (L.behind TraceRecorder) raises finish finish s :=
  matches_update hs fun r ↦ { r with started := false, announced := [] }

omit hs in
/-- Assumes: sinks that match each other at records of shallow items. Recorders match each other at
notices of shallow items. -/
theorem matches_observer :
    (observer sink).Matches (L.behind TraceRecorder) raises Notice.Shallow (observer sink') := by
  intro view event s hnotice hs
  have hview := hnotice.view
  cases event with
  | contextLoaded c =>
    refine .get_behind (fun _ ↦ by dsimp only) ?_
    dsimp only
    split
    · exact matches_announce hs hsinks c
    · exact .pure hs _
  | contextUnloaded c => exact .pure hs _
  | preExecute i => exact matches_ensureStarted hs hsinks hview
  | postExecute i =>
    refine (matches_emitTrace hs hsinks hview).bind fun _ _ h₁ ↦ ?_
    split
    · have hresults : (Record.results view.state view.gasConsumed view.resultStack).Shallow :=
        fun x hx ↦ hview x (List.mem_append_right _ hx)
      exact (matches_write h₁ hsinks hresults).bind fun _ _ h₂ ↦ matches_finish h₂
    · exact .pure h₁ _
  | fault exception =>
    have hfault : (Record.fault exception).Shallow := nofun
    refine (matches_ensureStarted hs hsinks hview).bind fun _ _ h₁ ↦ ?_
    refine (matches_write h₁ hsinks hfault).bind fun _ _ h₂ ↦ ?_
    exact (matches_emitTrace h₂ hsinks hview).bind fun _ _ h₃ ↦ matches_finish h₃
  | log event =>
    refine .get_behind (fun _ ↦ by dsimp only) ?_
    dsimp only
    split
    · exact matches_named hs hsinks view event.scriptHash nofun
    · exact .pure hs _
  | notify event =>
    refine .get_behind (fun _ ↦ by dsimp only) ?_
    dsimp only
    split
    · exact matches_named hs hsinks view event.scriptHash hnotice.event
    · exact .pure hs _

end TraceRecorder

/-! ### Engines -/

/-- A call of a host on a trace engine. -/
inductive EngineCall where
  | load (code : Bytes)
  /-- An execution, which is given a number of moves to end. -/
  | execute (budget : Nat)
  | dispose

/-- An observer of a session fails with this error at something. -/
def Session.Raises {M ω : Type} (session : Session M ω) (e : TracerError) : Prop :=
  ∃ o ∈ session.observers, ∃ view event host host', o.2.notice view event host = .error e host'

section Engines

variable {M τ τ' ω : Type} [Machine M]

namespace EngineCall

/-- Make a call, answering the state of the machine if it is an execution that has ended. -/
def perform (sink : Sink τ) : EngineCall → Engine.Act M TraceRecorder τ (Option VmState)
  | load code => do
    Engine.load code
    return none
  | execute budget => Engine.execute budget
  | dispose => do
    TraceEngine.dispose sink
    return none

/-- Make calls one after the other and go on after failures. -/
def performEach (sink : Sink τ) (calls : List EngineCall) :
    Engine.Act M TraceRecorder τ (List (Except TracerError (Option VmState))) :=
  calls.mapM fun call ↦ attempt (call.perform sink)

variable {L : Likeness (TraceRecorder × τ) (TraceRecorder × τ')} {raises : TracerError → Prop}
  {allows : Notice → Prop} {sink : Sink τ} {sink' : Sink τ'} {inv : M → Prop}
  {overrides : Overrides} {observers : List (Nat × Observer (TraceRecorder × τ))}
  {others : List (Nat × Observer (TraceRecorder × τ'))}

/-- Assumes: matching observers, matching flushes, a condition on the machine under which it tells
allowed things only, and that the refusal of a closed session is among the errors. Calls match each
other. -/
theorem matches_perform
    (hobservers : List.Forall₂ (fun o o' ↦ o.2.Matches L raises allows o'.2) observers others)
    (hflush : ∀ s, L.sound s → Matches L raises (onSecond sink.flush) (onSecond sink'.flush) s)
    (hinv : Preserved overrides inv allows) (hclosed : raises .sessionClosed)
    {s : Engine M TraceRecorder τ × τ} (hs : (L.engine inv overrides observers others).sound s)
    (call : EngineCall) :
    Matches (L.engine inv overrides observers others) raises (call.perform sink)
      (call.perform sink') s := by
  cases call with
  | load code =>
    refine Matches.bind (Engine.matches_onSession hs hclosed fun hsession ↦ ?_)
      fun _ _ hnext ↦ .pure hnext none
    exact Session.matches_load hobservers hinv hsession code
  | execute budget =>
    refine Engine.matches_onSession hs hclosed fun hsession ↦ ?_
    exact Session.matches_execute hobservers hinv hsession budget
  | dispose =>
    have hclose := hflush (s.1.recorder, s.2) hs.1
    exact (Engine.matches_dispose hs hclose).bind fun _ _ hnext ↦ .pure hnext none

end EngineCall

namespace TraceEngine

/-- The observers of a session under trace, those that it had before in front. -/
def observers (sink : Sink (τ × ω)) (session : Session M ω) :
    List (Nat × Observer (TraceRecorder × τ × ω)) :=
  session.observers.map (fun o ↦ (o.1, o.2.onSecond.onSecond)) ++
    [(session.nextSubscription, TraceRecorder.observer sink)]

theorem session_start (sink : Sink (τ × ω)) (config : TraceConfig) (names : NameCache)
    (checker : Option WitnessChecker) (session : Session M ω) :
    (start sink config names checker session.widen).session =
      ⟨session.machine, observers sink session, session.nextSubscription + 1,
        Engine.witnessed checker session.overrides⟩ := by
  have hmap : (session.observers.map fun o ↦ (o.1, o.2.onSecond)).map
      (fun o : Nat × Observer (τ × ω) ↦ (o.1, o.2.onSecond (σ := TraceRecorder))) =
        session.observers.map fun o ↦ (o.1, o.2.onSecond.onSecond) := List.map_map
  unfold observers
  rw [← hmap]
  cases checker <;> rfl

theorem recorder_start (sink : Sink (τ × ω)) (config : TraceConfig) (names : NameCache)
    (checker : Option WitnessChecker) (session : Session M ω) :
    (start sink config names checker session.widen).recorder =
      ⟨(Machine.view session.machine).session, names, config, false, []⟩ := by
  cases checker <;> rfl

/-- What a new engine may answer with an error: that it is closed, or what another observer of the
session fails with. -/
def MayAnswer (session : Session M ω) (e : TracerError) : Prop :=
  e = .sessionClosed ∨ session.Raises e

variable {L : Likeness τ τ'} {sink : Sink τ} {sink' : Sink τ'} {session : Session M ω}

omit [Machine M] in
/-- Assumes: matching sinks. The observers of two sessions under trace match each other. -/
theorem matches_observers (hsinks : sink.Matches L (MayAnswer session) Record.Shallow sink') :
    List.Forall₂ (fun o o' ↦ o.2.Matches ((L.beside ω).behind TraceRecorder) (MayAnswer session)
        Notice.Shallow o'.2)
      (observers sink.onFirst session) (observers sink'.onFirst session) := by
  refine List.rel_append (List.forall₂_map_left_iff.mpr (List.forall₂_map_right_iff.mpr
    (List.forall₂_same.mpr fun o ho ↦ ?_))) (.cons ?_ .nil)
  · rintro view event ⟨r, t, host⟩ - ht
    have hsink : L.sound t := ht
    have hother : Matches (L.beside ω) (MayAnswer session)
        (ScriptTrace.onSecond (o.2.notice view event))
        (ScriptTrace.onSecond (o.2.notice view event)) (t, host) :=
      Matches.besides hsink fun e host' hfails ↦ .inr ⟨o, ho, view, event, host, host', hfails⟩
    exact hother.onSecond r
  · exact TraceRecorder.matches_observer (hsinks.onFirst ω)

/-- Assumes: sinks that match each other at records of shallow items, and a condition on the machine
under which it shows no others. New engines over one sink and the other answer calls alike, as long
as all records have encodings, and leave like sinks; of themselves they fail only where they have
been disposed of. -/
theorem exists_performEach (hsinks : sink.Matches L (MayAnswer session) Record.Shallow sink')
    (config : TraceConfig) (names : NameCache) (checker : Option WitnessChecker) {inv : M → Prop}
    (hinv : Preserved (Engine.witnessed checker session.overrides) inv Notice.Shallow)
    (hmachine : inv session.machine) {t : τ} (ht : L.sound t) (calls : List EngineCall)
    (host : ω) :
    ∃ answers e t₁ host₁, EngineCall.performEach sink.onFirst calls
        (start sink.onFirst config names checker session.widen, (t, host)) =
          .ok answers (e, (t₁, host₁)) ∧
      L.sound t₁ ∧ (∀ e, .error e ∈ answers → MayAnswer session e) ∧
      ((∀ r ∈ L.records t₁, r.Encodes) → ∀ t', L.like t t' → ∃ e' t₁',
        EngineCall.performEach sink'.onFirst calls
          (start sink'.onFirst config names checker session.widen, (t', host)) =
            .ok answers (e', (t₁', host₁)) ∧ L.like t₁ t₁') := by
  let engines : Likeness (TraceEngine M (τ × ω) × τ × ω) (TraceEngine M (τ' × ω) × τ' × ω) :=
    ((L.beside ω).behind TraceRecorder).engine inv (Engine.witnessed checker session.overrides)
      (observers sink.onFirst session) (observers sink'.onFirst session)
  let engine := start sink.onFirst config names checker session.widen
  have hsound : engines.sound (engine, (t, host)) := by
    refine ⟨ht, fun _ ↦ ?_⟩
    dsimp only [engine]
    rw [session_start]
    exact ⟨hmachine, rfl, rfl⟩
  have hcalls (call : EngineCall) (s : TraceEngine M (τ × ω) × τ × ω) (hs : engines.sound s) :
      Matches engines (MayAnswer session) (call.perform sink.onFirst) (call.perform sink'.onFirst)
        s :=
    call.matches_perform (matches_observers hsinks)
      (fun s hs ↦ ((hsinks.onFirst ω).flush s.2 hs).onSecond s.1) hinv (.inl rfl) hs
  obtain ⟨answers, ⟨e, t₁, host₁⟩, hrun, hend, -, hraises, hlike⟩ :=
    Matches.attempts hcalls calls hsound
  refine ⟨answers, e, t₁, host₁, hrun, hend.1, hraises, fun hall t' hbegin ↦ ?_⟩
  have hengines : engines.like (engine, (t, host))
      (start sink'.onFirst config names checker session.widen, (t', host)) := by
    refine ⟨rfl, ⟨?_, hbegin, rfl⟩, fun _ ↦ ?_⟩
    · cases checker <;> rfl
    · dsimp only [engine]
      rw [session_start, session_start]
      rfl
  obtain ⟨⟨e', t₁', host'⟩, hrun', -, ⟨-, hsame, rfl⟩, -⟩ := hlike hall _ hengines
  exact ⟨e', t₁', hrun', hsame⟩

end TraceEngine

end Engines

end ScriptTrace
