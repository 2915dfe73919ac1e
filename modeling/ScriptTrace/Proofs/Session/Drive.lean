import ScriptTrace.Engine
import ScriptTrace.Proofs.Act
import ScriptTrace.Proofs.Session.Moves

/-!
Sessions whose observers never fail, and the calls a host makes. The observers of a session are
together one observer (`Session.audience`), and `Observer.follow` is what that one is told of a
move; when it never fails, the machine goes its way and the state of the observer with it.
`Engine.drive` makes a list of calls, and stops at an execution that has not ended
after the moves it was given: a host waits for it for ever. `Route` is what observers are told on
the way of a machine through a list of calls. What every move preserves holds after every list of
calls, also if it speaks of all that was told before (`Watches.drive_route`), and the audience comes
to where it would come if it were told the story of the route at once (`Watches.drive_hears`).
-/

set_option autoImplicit false
set_option relaxedAutoImplicit false

namespace ScriptTrace

/-! ### One observer -/

section Follow

variable {M σ : Type}

/-- The observers of a session as one, which tells an event to each of them in turn. -/
def Session.audience (s : Session M σ) : Observer σ where
  notice view event := s.observers.forM fun p ↦ p.2.notice view event

theorem Session.audience_of_single {s : Session M σ} {k : Nat} {o : Observer σ}
    (hobservers : s.observers = [(k, o)]) : s.audience = o := by
  have hnotice (view : View) (event : Event) : s.audience.notice view event =
      o.notice view event := by
    rw [audience, hobservers]
    exact bind_pure _
  exact congrArg Observer.mk (funext fun view ↦ funext (hnotice view))

theorem Session.report_eq_forM {s : Session M σ} {o : Observer σ} (haudience : s.audience = o)
    (view : View) (events : List Event) :
    s.report view events = events.forM (o.notice view) := by
  rw [← haudience]
  rfl

theorem Session.succeeds_announce {s : Session M σ} {o : Observer σ}
    (haudience : s.audience = o) {view : View} {events : List Event} {host : σ}
    {P : σ → Prop}
    (h : Succeeds (events.forM (o.notice view)) host fun _ ↦ P) :
    Succeeds (Session.announce view events) (s, host) fun _ next ↦ next.1 = s ∧ P next.2 := by
  refine .get_bind (.onSecond ?_)
  rw [s.report_eq_forM haudience]
  exact h.mono fun _ host' hpost ↦ ⟨rfl, hpost⟩

/-- An observer is told of events, one after the other. -/
def Observer.hear (o : Observer σ) (told : List Notice) : EStateM TracerError σ Unit :=
  told.forM fun n ↦ o.notice n.1 n.2

theorem Observer.hear_append (o : Observer σ) (told others : List Notice) :
    o.hear (told ++ others) = (o.hear told >>= fun _ ↦ o.hear others) :=
  forM_append _ told others

variable [Machine M]

/-- What an observer is told of a move. -/
def Observer.follow (o : Observer σ) (m : M) (t : Turn M) : EStateM TracerError σ Unit := do
  t.before.toList.forM (o.notice (Machine.view m))
  t.after.forM (o.notice (Machine.view t.next))

theorem Observer.hear_notices (o : Observer σ) (m : M) (t : Turn M) :
    o.hear (t.notices m) = o.follow m t := by
  have hmap (view : View) (events : List Event) :
      o.hear (events.map (Prod.mk view)) = events.forM (o.notice view) := List.forM_map
  rw [Turn.notices, hear_append, hmap, hmap]
  rfl

/-- Assumes: the audience of a session follows a move without failing. The machine moves,
and nothing else of the session changes. -/
theorem Session.succeeds_move {s : Session M σ} {o : Observer σ}
    (haudience : s.audience = o) {t : Turn M} {host : σ} {P : σ → Prop}
    (h : Succeeds (o.follow s.machine t) host fun _ ↦ P) :
    Succeeds (Session.move t) (s, host) fun _ next ↦
      next.1 = { s with machine := t.next } ∧ P next.2 := by
  obtain ⟨_, host', hrun, hpost⟩ := h
  obtain ⟨_, host₁, hbefore, hafter⟩ := bind_eq_ok hrun
  refine .get_bind ((succeeds_announce haudience ⟨_, host₁, hbefore, rfl⟩).bind ?_)
  intro _ next hnext
  obtain ⟨_, _⟩ := next
  obtain ⟨hsession, rfl⟩ := hnext
  obtain rfl := hsession.symm
  have hmoved := succeeds_announce (s := { s with machine := t.next }) haudience
    ⟨_, host', hafter, hpost⟩
  exact (Succeeds.modify (P := fun _ next ↦ next = ({ s with machine := t.next }, host₁))
    rfl).bind fun _ _ hnext ↦ hnext ▸ hmoved

section Invariant

variable {s : Session M σ} {o : Observer σ} {inv : List Notice → M → σ → Prop}
  {told : List Notice} {host : σ}

/-- Assumes: a condition that is preserved by every move and under which the audience never fails.
Taking the next move preserves it, if there is one. -/
theorem Session.succeeds_step (haudience : s.audience = o)
    (hstep : ∀ told m host t, inv told m host → Machine.turn s.overrides m = some t →
      Succeeds (o.follow m t) host fun _ ↦ inv (told ++ t.notices m) t.next)
    (hinv : inv told s.machine host) :
    Succeeds Session.step (s, host) fun more next ↦
      (more = true → ∃ t, Machine.turn s.overrides s.machine = some t ∧
        next.1 = { s with machine := t.next } ∧ inv (told ++ t.notices s.machine) t.next next.2) ∧
      (more = false → Machine.turn s.overrides s.machine = none ∧ next = (s, host)) := by
  apply Succeeds.get_bind
  cases hturn : Machine.turn s.overrides s.machine with
  | none =>
    simp only [hturn]
    exact .pure ⟨fun htrue ↦ Bool.noConfusion htrue, fun _ ↦ ⟨trivial, rfl⟩⟩
  | some t =>
    simp only [hturn]
    apply (succeeds_move haudience (hstep told s.machine host t hinv hturn)).bind
    intro _ next hnext
    exact .pure ⟨fun _ ↦ ⟨t, rfl, hnext⟩, fun hfalse ↦ Bool.noConfusion hfalse⟩

/-- Assumes: a condition that is preserved by every move and under which the audience never fails.
Running the machine preserves it. A run that ends within its budget
ends where the machine has no further move, and any other takes as many moves as it was given. -/
theorem Session.succeeds_execute (haudience : s.audience = o)
    (hstep : ∀ told m host t, inv told m host → Machine.turn s.overrides m = some t →
      Succeeds (o.follow m t) host fun _ ↦ inv (told ++ t.notices m) t.next)
    (hinv : inv told s.machine host) (budget : Nat) :
    Succeeds (Session.execute budget) (s, host) fun answer next ↦
      ∃ ts m, next.1 = { s with machine := m } ∧ Moves s.overrides s.machine ts m ∧
        inv (told ++ story s.machine ts) m next.2 ∧
        (answer ≠ none → Machine.turn s.overrides m = none ∧ ts.length < budget) ∧
        (answer = none → ts.length = budget) := by
  induction budget generalizing s told host with
  | zero =>
    refine .pure ⟨[], s.machine, rfl, .refl _, ?_, fun hsome ↦ absurd rfl hsome, fun _ ↦ rfl⟩
    rwa [story, List.append_nil]
  | succ budget ih =>
    apply (succeeds_step haudience hstep hinv).bind
    intro more next hnext
    obtain ⟨s₁, host₁⟩ := next
    obtain ⟨hmore, hlast⟩ := hnext
    by_cases hgoes : more = true
    · rw [if_pos hgoes]
      obtain ⟨t, hturn, rfl, hinv₁⟩ := hmore hgoes
      apply (ih (s := { s with machine := t.next }) haudience hstep hinv₁).mono
      intro answer next hnext
      obtain ⟨ts, m, hnext, hmoves, hinv', hended, hunended⟩ := hnext
      rw [List.append_assoc] at hinv'
      refine ⟨t :: ts, m, hnext, .cons hturn hmoves, hinv', fun hanswer ↦ ?_, fun hanswer ↦ ?_⟩
      · obtain ⟨hstop, hlength⟩ := hended hanswer
        exact ⟨hstop, Nat.succ_lt_succ hlength⟩
      · exact congrArg (· + 1) (hunended hanswer)
    · rw [if_neg hgoes]
      obtain ⟨hstop, hsame⟩ := hlast (by simpa using hgoes)
      obtain ⟨rfl, rfl⟩ := Prod.mk.inj hsame
      refine .get_bind (.pure ⟨[], s₁.machine, rfl, .refl _, ?_, fun _ ↦ ?_,
        fun hnone ↦ absurd hnone (Option.some_ne_none _)⟩)
      · rwa [story, List.append_nil]
      · exact ⟨hstop, Nat.succ_pos budget⟩

end Invariant

end Follow

/-! ### Calls of a host -/

/-- A call of a host on an engine. -/
inductive Call where
  | load (code : Bytes)
  /-- An execution, which is given a number of moves to end. -/
  | execute (budget : Nat)
deriving DecidableEq

/-- What observers are told on the way of a machine through a list of calls, and whether all of the
calls ended. An execution that has not ended took as many moves as it was given. -/
inductive Route {M : Type} [Machine M] (overrides : Overrides) :
    List Call → Bool → M → List Notice → M → Prop
  | nil (m : M) : Route overrides [] true m [] m
  | load {code : Bytes} {calls : List Call} {ended : Bool} {m m' : M} {told : List Notice}
    (hrest : Route overrides calls ended (Machine.load code m).next told m') :
    Route overrides (.load code :: calls) ended m ((Machine.load code m).notices m ++ told) m'
  | execute {budget : Nat} {calls : List Call} {ended : Bool} {m m₁ m' : M} {ts : List (Turn M)}
    {told : List Notice} (hmoves : Moves overrides m ts m₁)
    (hstop : Machine.turn overrides m₁ = none) (hlength : ts.length < budget)
    (hrest : Route overrides calls ended m₁ told m') :
    Route overrides (.execute budget :: calls) ended m (story m ts ++ told) m'
  | unfinished {budget : Nat} {calls : List Call} {m m' : M} {ts : List (Turn M)}
    (hmoves : Moves overrides m ts m') (hlength : ts.length = budget) :
    Route overrides (.execute budget :: calls) false m (story m ts) m'

namespace Route

variable {M : Type} [Machine M] {overrides : Overrides} {calls : List Call} {m m₁ m₂ : M}
  {told others : List Notice}

/-- There is one way through a list of calls. -/
theorem unique {ended₁ ended₂ : Bool} (hfirst : Route overrides calls ended₁ m told m₁)
    (hsecond : Route overrides calls ended₂ m others m₂) :
    ended₁ = ended₂ ∧ told = others ∧ m₁ = m₂ := by
  induction hfirst generalizing others with
  | nil m =>
    cases hsecond
    exact ⟨rfl, rfl, rfl⟩
  | @load code _ _ m _ _ _ ih =>
    cases hsecond with
    | load hrest =>
      obtain ⟨hended, htold, hmachine⟩ := ih hrest
      exact ⟨hended, congrArg ((Machine.load code m).notices m ++ ·) htold, hmachine⟩
  | @execute budget _ _ m _ _ ts _ hmoves hstop hlength _ ih =>
    cases hsecond with
    | execute hmoves' hstop' _ hrest =>
      obtain ⟨hturns, hmachine⟩ := hmoves.unique hstop hmoves' hstop'
      subst hturns hmachine
      obtain ⟨hended, htold, hmachine⟩ := ih hrest
      exact ⟨hended, congrArg (story m ts ++ ·) htold, hmachine⟩
    | unfinished hmoves' hlength' =>
      have hle := hmoves.length_le_of_stopped hstop hmoves'
      omega
  | unfinished hmoves hlength =>
    cases hsecond with
    | execute hmoves' hstop' hlength' _ =>
      have hle := hmoves'.length_le_of_stopped hstop' hmoves
      omega
    | unfinished hmoves' hlength' =>
      obtain ⟨hturns, hmachine⟩ := hmoves.eq_of_length_eq hmoves' (hlength.trans hlength'.symm)
      exact ⟨rfl, congrArg (story _) hturns, hmachine⟩

/-- What every load and every turn preserves holds at the end of a way, along with what was told
on it. -/
theorem preserves {inv : List Notice → M → Prop} {ended : Bool}
    (hload : ∀ told m code, inv told m →
      inv (told ++ (Machine.load code m).notices m) (Machine.load code m).next)
    (hturn : ∀ told m t, inv told m → Machine.turn overrides m = some t →
      inv (told ++ t.notices m) t.next)
    (hroute : Route overrides calls ended m others m₁) (told : List Notice)
    (hinv : inv told m) :
    inv (told ++ others) m₁ := by
  induction hroute generalizing told with
  | nil m => rwa [List.append_nil]
  | @load code _ _ m _ _ _ ih =>
    have hrest := ih _ (hload told m code hinv)
    rwa [List.append_assoc] at hrest
  | execute hmoves _ _ _ ih =>
    have hrest := ih _ (hmoves.preserves hturn told hinv)
    rwa [List.append_assoc] at hrest
  | unfinished hmoves _ => exact hmoves.preserves hturn told hinv

end Route

namespace Engine

variable {M ρ τ : Type}

/-- Make calls one after the other, up to an execution that does not end. The answer is whether all
of them ended. -/
def drive [Machine M] : List Call → Act M ρ τ Bool
  | [] => return true
  | .load code :: rest => do
    load code
    drive rest
  | .execute budget :: rest => do
    match ← execute budget with
    | none => return false
    | some _ => drive rest

section Operations

variable {e : Engine M ρ τ} {t t' : τ}

theorem ensureOpen_of_open (hopen : e.isDisposed = false) :
    ensureOpen (e, t) = .ok () (e, t) := by
  unfold ensureOpen
  rw [get_bind_eq]
  simp only [hopen, Bool.false_eq_true, if_false]
  rfl

theorem ensureOpen_of_disposed (hdisposed : e.isDisposed = true) :
    ensureOpen (e, t) = .error .sessionClosed (e, t) := by
  unfold ensureOpen
  rw [get_bind_eq]
  simp only [hdisposed, if_true]
  rfl

theorem onSession_eq {α : Type} {x : EStateM TracerError (Session M (ρ × τ) × ρ × τ) α}
    {answer : Except TracerError α} {s : Session M (ρ × τ)} {r : ρ}
    (hx : x (e.session, e.recorder, t) = resultOf answer (s, r, t')) :
    onSession x (e, t) = resultOf answer ({ e with session := s, recorder := r }, t') := by
  rw [onSession, hx]
  cases answer <;> rfl

theorem dispose_of_disposed (hdisposed : e.isDisposed = true)
    (close : EStateM TracerError (ρ × τ) Unit) (t : τ) :
    dispose close (e, t) = .ok () (e, t) := by
  rw [isDisposed, Option.isNone_iff_eq_none] at hdisposed
  unfold dispose
  rw [get_bind_eq]
  simp only [hdisposed]
  rfl

end Operations

/-- An engine that drives its session with an audience. -/
structure Watches (e : Engine M ρ τ) (o : Observer (ρ × τ)) (overrides : Overrides) : Prop where
  audience : e.session.audience = o
  overrides : e.session.overrides = overrides
  not_disposed : e.isDisposed = false

variable {o : Observer (ρ × τ)} {overrides : Overrides}

theorem audience_start (o : Observer (ρ × τ)) (recorder : ρ) (checker : Option WitnessChecker)
    {session : Session M τ} (hobservers : session.observers = []) :
    (start o recorder checker session).session.audience = o := by
  refine Session.audience_of_single (k := session.nextSubscription) ?_
  cases checker with
  | none =>
    simp only [start, Session.widen, Session.subscribe, hobservers, List.map_nil,
      List.nil_append]
  | some c =>
    simp only [start, Session.widen, Session.subscribe, Session.overrideWitness,
      Session.override, hobservers, List.map_nil, List.nil_append]

theorem watches_start (o : Observer (ρ × τ)) (recorder : ρ) (checker : Option WitnessChecker)
    {session : Session M τ} (hobservers : session.observers = []) :
    (start o recorder checker session).Watches o
      (start o recorder checker session).session.overrides :=
  ⟨audience_start o recorder checker hobservers, rfl, rfl⟩

theorem machine_start (o : Observer (ρ × τ)) (recorder : ρ) (checker : Option WitnessChecker)
    (session : Session M τ) : (start o recorder checker session).session.machine =
      session.machine := by
  cases checker <;> rfl

/-- The system calls that are replaced in a session with a predicate for witness checks. -/
def witnessed (checker : Option WitnessChecker) (overrides : Overrides) : Overrides :=
  match checker with
  | none => overrides
  | some c => overrides.set Syscall.checkWitness.hash c.handler

theorem overrides_start (o : Observer (ρ × τ)) (recorder : ρ) (checker : Option WitnessChecker)
    (session : Session M τ) : (start o recorder checker session).session.overrides =
      witnessed checker session.overrides := by
  cases checker <;> rfl

/-- The audience of a new engine is its recorder in the company of other observers. -/
theorem watches_audience (o : Observer (ρ × τ)) (recorder : ρ) (checker : Option WitnessChecker)
    (session : Session M τ) : (start o recorder checker session).Watches
      (start o recorder checker session).session.audience
      (witnessed checker session.overrides) :=
  ⟨rfl, overrides_start o recorder checker session, rfl⟩

theorem watches_witnessed (o : Observer (ρ × τ)) (recorder : ρ) (checker : Option WitnessChecker)
    {session : Session M τ} (hobservers : session.observers = []) :
    (start o recorder checker session).Watches o (witnessed checker session.overrides) := by
  have hwatches := watches_audience o recorder checker session
  rwa [audience_start o recorder checker hobservers] at hwatches

namespace Watches

variable [Machine M] {e : Engine M ρ τ} {t : τ}

omit [Machine M] in
theorem succeeds_onSession {α : Type} (he : e.Watches o overrides)
    {x : EStateM TracerError (Session M (ρ × τ) × ρ × τ) α} {P : α → M → ρ × τ → Prop}
    (hx : Succeeds x (e.session, e.recorder, t) fun a next ↦
      ∃ m, next.1 = { e.session with machine := m } ∧ P a m next.2) :
    Succeeds (ensureOpen >>= fun _ ↦ onSession x) (e, t) fun a next ↦
      next.1.Watches o overrides ∧ P a next.1.session.machine (next.1.recorder, next.2) := by
  obtain ⟨a, ⟨_, r, t'⟩, hrun, m, rfl, hpost⟩ := hx
  have hopen : ensureOpen (e, t) = .ok () (e, t) := ensureOpen_of_open he.not_disposed
  have hcall : onSession x (e, t) = resultOf (.ok a)
      ({ e with session := { e.session with machine := m }, recorder := r }, t') :=
    onSession_eq hrun
  exact ⟨a, _, (bind_ok hopen _).trans hcall, ⟨he.audience, he.overrides, he.not_disposed⟩, hpost⟩

/-- Loading a script, when the observer does not fail at it. -/
theorem load (he : e.Watches o overrides) {code : Bytes} {P : ρ × τ → Prop}
    (h : Succeeds (o.follow e.session.machine (Machine.load code e.session.machine))
      (e.recorder, t) fun _ ↦ P) :
    Succeeds (Engine.load code) (e, t) fun _ next ↦ next.1.Watches o overrides ∧
      next.1.session.machine = (Machine.load code e.session.machine).next ∧
      P (next.1.recorder, next.2) := by
  refine he.succeeds_onSession
    (P := fun _ m host ↦ m = (Machine.load code e.session.machine).next ∧ P host) ?_
  refine .get_bind ((Session.succeeds_move he.audience h).mono ?_)
  intro _ next hnext
  obtain ⟨_, host⟩ := next
  obtain ⟨rfl, hpost⟩ := hnext
  exact ⟨_, rfl, rfl, hpost⟩

/-- Running a machine, under a condition that every move preserves without a failure of the
observer. -/
theorem execute_moves (he : e.Watches o overrides) {inv : List Notice → M → ρ × τ → Prop}
    (hstep : ∀ told m host move, inv told m host → Machine.turn overrides m = some move →
      Succeeds (o.follow m move) host fun _ ↦ inv (told ++ move.notices m) move.next)
    (told : List Notice) (hinv : inv told e.session.machine (e.recorder, t)) (budget : Nat) :
    Succeeds (Engine.execute budget) (e, t) fun answer next ↦ next.1.Watches o overrides ∧
      ∃ ts, Moves overrides e.session.machine ts next.1.session.machine ∧
        inv (told ++ story e.session.machine ts) next.1.session.machine
          (next.1.recorder, next.2) ∧
        (answer ≠ none → Machine.turn overrides next.1.session.machine = none ∧
          ts.length < budget) ∧
        (answer = none → ts.length = budget) := by
  rw [← he.overrides] at hstep
  refine he.succeeds_onSession (P := fun answer m host ↦
    ∃ ts, Moves overrides e.session.machine ts m ∧
      inv (told ++ story e.session.machine ts) m host ∧
      (answer ≠ none → Machine.turn overrides m = none ∧ ts.length < budget) ∧
      (answer = none → ts.length = budget)) ?_
  rw [← he.overrides]
  apply (Session.succeeds_execute he.audience hstep hinv budget).mono
  intro answer next hnext
  obtain ⟨ts, m, hnext, hrest⟩ := hnext
  exact ⟨m, hnext, ts, hrest⟩

/-- Running a machine, under a condition on the machine alone. -/
theorem execute (he : e.Watches o overrides) {inv : M → ρ × τ → Prop}
    (hstep : ∀ m host move, inv m host → Machine.turn overrides m = some move →
      Succeeds (o.follow m move) host fun _ ↦ inv move.next)
    (hinv : inv e.session.machine (e.recorder, t)) (budget : Nat) :
    Succeeds (Engine.execute budget) (e, t) fun answer next ↦ next.1.Watches o overrides ∧
      inv next.1.session.machine (next.1.recorder, next.2) ∧
      ∃ ts, Moves overrides e.session.machine ts next.1.session.machine ∧
        (answer ≠ none → Machine.turn overrides next.1.session.machine = none ∧
          ts.length < budget) ∧
        (answer = none → ts.length = budget) := by
  let always (_ : List Notice) (m : M) (host : ρ × τ) : Prop := inv m host
  have hbegin : always [] e.session.machine (e.recorder, t) := hinv
  apply (he.execute_moves (fun _ ↦ hstep) [] hbegin budget).mono
  intro answer next hnext
  obtain ⟨he', ts, hmoves, hinv', hended⟩ := hnext
  exact ⟨he', hinv', ts, hmoves, hended⟩

/-- Assumes: a condition that every load and every move preserves without a failure of the observer.
Every list of calls preserves it, and none of them fails. -/
theorem drive_route (he : e.Watches o overrides) {inv : List Notice → M → ρ × τ → Prop}
    (hload : ∀ told m host code, inv told m host →
      Succeeds (o.follow m (Machine.load code m)) host fun _ ↦
        inv (told ++ (Machine.load code m).notices m) (Machine.load code m).next)
    (hstep : ∀ told m host move, inv told m host → Machine.turn overrides m = some move →
      Succeeds (o.follow m move) host fun _ ↦ inv (told ++ move.notices m) move.next)
    (told : List Notice) (hinv : inv told e.session.machine (e.recorder, t)) (calls : List Call) :
    Succeeds (Engine.drive calls) (e, t) fun ended next ↦ next.1.Watches o overrides ∧
      ∃ more, Route overrides calls ended e.session.machine more next.1.session.machine ∧
        inv (told ++ more) next.1.session.machine (next.1.recorder, next.2) := by
  induction calls generalizing e t told with
  | nil =>
    refine .pure ⟨he, [], .nil _, ?_⟩
    rwa [List.append_nil]
  | cons call rest ih =>
    cases call with
    | load code =>
      apply (he.load (hload _ _ _ code hinv)).bind
      intro _ next hnext
      obtain ⟨e', t'⟩ := next
      obtain ⟨he', hmachine, hinv'⟩ := hnext
      rw [← hmachine] at hinv'
      apply (ih he' _ hinv').mono
      intro ended next hnext
      obtain ⟨he'', more, hroute, hinv''⟩ := hnext
      rw [hmachine] at hroute
      rw [List.append_assoc] at hinv''
      exact ⟨he'', _, .load hroute, hinv''⟩
    | execute budget =>
      apply (he.execute_moves hstep _ hinv budget).bind
      intro answer next hnext
      obtain ⟨e', t'⟩ := next
      obtain ⟨he', ts, hmoves, hinv', hended, hunended⟩ := hnext
      cases answer with
      | none => exact .pure ⟨he', _, .unfinished hmoves (hunended rfl), hinv'⟩
      | some state =>
        obtain ⟨hstop, hlength⟩ := hended (Option.some_ne_none state)
        apply (ih he' _ hinv').mono
        intro ended next hnext
        obtain ⟨he'', more, hroute, hinv''⟩ := hnext
        rw [List.append_assoc] at hinv''
        exact ⟨he'', _, .execute hmoves hstop hlength hroute, hinv''⟩

/-- What the observer was told on the way of the calls leads it where they left it. -/
theorem drive_hears (he : e.Watches o overrides) {inv : List Notice → M → ρ × τ → Prop}
    (hload : ∀ told m host code, inv told m host →
      Succeeds (o.follow m (Machine.load code m)) host fun _ ↦
        inv (told ++ (Machine.load code m).notices m) (Machine.load code m).next)
    (hstep : ∀ told m host move, inv told m host → Machine.turn overrides m = some move →
      Succeeds (o.follow m move) host fun _ ↦ inv (told ++ move.notices m) move.next)
    (hinv : inv [] e.session.machine (e.recorder, t)) (calls : List Call) :
    Succeeds (Engine.drive calls) (e, t) fun ended next ↦ next.1.Watches o overrides ∧
      ∃ told, Route overrides calls ended e.session.machine told next.1.session.machine ∧
        o.hear told (e.recorder, t) = .ok () (next.1.recorder, next.2) ∧
        inv told next.1.session.machine (next.1.recorder, next.2) := by
  let heard (told : List Notice) (m : M) (host : ρ × τ) : Prop :=
    o.hear told (e.recorder, t) = .ok () host ∧ inv told m host
  have hmove (told : List Notice) (m : M) (host : ρ × τ) (move : Turn M)
      (hheard : heard told m host)
      (hfollow : Succeeds (o.follow m move) host fun _ ↦ inv (told ++ move.notices m) move.next) :
      Succeeds (o.follow m move) host fun _ ↦ heard (told ++ move.notices m) move.next := by
    obtain ⟨_, host', hrun, hinv'⟩ := hfollow
    refine ⟨(), host', hrun, ?_, hinv'⟩
    rw [Observer.hear_append, bind_ok hheard.1, Observer.hear_notices, hrun]
  have hbegin : heard [] e.session.machine (e.recorder, t) := ⟨rfl, hinv⟩
  exact he.drive_route
    (fun told m host code hheard ↦ hmove told m host _ hheard (hload told m host code hheard.2))
    (fun told m host move hheard hturn ↦
      hmove told m host move hheard (hstep told m host move hheard.2 hturn))
    [] hbegin calls

/-- Calls under a condition on the machine alone. -/
theorem drive (he : e.Watches o overrides) {inv : M → ρ × τ → Prop}
    (hload : ∀ m host code, inv m host →
      Succeeds (o.follow m (Machine.load code m)) host fun _ ↦ inv (Machine.load code m).next)
    (hstep : ∀ m host move, inv m host → Machine.turn overrides m = some move →
      Succeeds (o.follow m move) host fun _ ↦ inv move.next)
    (hinv : inv e.session.machine (e.recorder, t)) (calls : List Call) :
    Succeeds (Engine.drive calls) (e, t) fun _ next ↦ next.1.Watches o overrides ∧
      inv next.1.session.machine (next.1.recorder, next.2) := by
  let always (_ : List Notice) (m : M) (host : ρ × τ) : Prop := inv m host
  have hbegin : always [] e.session.machine (e.recorder, t) := hinv
  apply (he.drive_route (fun _ ↦ hload) (fun _ ↦ hstep) [] hbegin calls).mono
  intro _ next hnext
  obtain ⟨he', more, -, hinv'⟩ := hnext
  exact ⟨he', hinv'⟩

end Watches

end Engine

end ScriptTrace
