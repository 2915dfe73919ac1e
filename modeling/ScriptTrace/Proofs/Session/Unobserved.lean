import ScriptTrace.Proofs.Act
import ScriptTrace.Proofs.Session.Moves
import ScriptTrace.Proofs.StackMachine.Turns

/-!
Observers do not change where a machine goes. An observer that fails stops a session before a move
or after it, never in the middle, so a host that calls an execution again goes on where the machine
stands. `Journey` are the turns that a machine takes for the requests of a host. Every session
serves a request by the turns of the machine alone, whatever its observers answer
(`succeeds_serve`), and a machine has one journey for given requests (`Journey.unique`); so a
session with observers ends where one without any does (`serve_unobserved`).
-/

set_option autoImplicit false
set_option relaxedAutoImplicit false

namespace ScriptTrace

/-! ### Requests of a host -/

/-- A request of a host on a session. -/
inductive Request where
  | load (code : Bytes)
  /-- An execution, which is called again after each error. The calls are given so many moves. -/
  | run (budgets : List Nat)
deriving DecidableEq

/-- The script that a request loads, or nothing for an execution. -/
def Request.script? : Request → Option Bytes
  | load code => some code
  | run _ => none

/-- The turns that a machine takes for the requests of a host: a script is loaded once, and an
execution goes on until the machine has stopped. -/
inductive Journey {M : Type} [Machine M] (overrides : Overrides) :
    List (Option Bytes) → M → List (Turn M) → M → Prop
  | nil (m : M) : Journey overrides [] m [] m
  | load {code : Bytes} {scripts : List (Option Bytes)} {m m' : M} {ts : List (Turn M)}
    (hrest : Journey overrides scripts (Machine.load code m).next ts m') :
    Journey overrides (some code :: scripts) m ts m'
  | run {scripts : List (Option Bytes)} {m m₁ m' : M} {ts us : List (Turn M)}
    (hmoves : Moves overrides m ts m₁) (hstop : Machine.turn overrides m₁ = none)
    (hrest : Journey overrides scripts m₁ us m') :
    Journey overrides (none :: scripts) m (ts ++ us) m'

/-- A machine has one journey. -/
theorem Journey.unique {M : Type} [Machine M] {overrides : Overrides}
    {scripts : List (Option Bytes)} {m m₁ m₂ : M} {ts us : List (Turn M)}
    (hfirst : Journey overrides scripts m ts m₁) (hsecond : Journey overrides scripts m us m₂) :
    ts = us ∧ m₁ = m₂ := by
  induction hfirst generalizing us with
  | nil m =>
    cases hsecond
    exact ⟨rfl, rfl⟩
  | load _ ih =>
    cases hsecond with
    | load hrest => exact ih hrest
  | run hmoves hstop _ ih =>
    cases hsecond with
    | run hmoves' hstop' hrest =>
      obtain ⟨rfl, rfl⟩ := hmoves.unique hstop hmoves' hstop'
      obtain ⟨rfl, rfl⟩ := ih hrest
      exact ⟨rfl, rfl⟩

namespace Session

variable {M σ : Type} [Machine M]

/-- Call an execution again after each error. The answer is whether one of the calls came back
without an error and saw the machine stop. -/
def insist : List Nat → EStateM TracerError (Session M σ × σ) Bool
  | [] => return false
  | budget :: rest => do
    match ← attempt (execute budget) with
    | .ok answer => return answer.isSome
    | .error _ => insist rest

/-- Serve requests one after the other, whatever errors they meet, up to an execution that does not
come back. The answer is whether all of them came back. -/
def serve : List Request → EStateM TracerError (Session M σ × σ) Bool
  | [] => return true
  | .load code :: rest => do
    let _ ← attempt (load code)
    serve rest
  | .run budgets :: rest => do
    if ← insist budgets then serve rest else return false

/-! ### Sessions with any observers -/

variable {s : Session M σ} {host : σ}

omit [Machine M] in
/-- Reporting leaves the session alone, whatever the observers answer. -/
theorem announce_ends (s : Session M σ) (host : σ) (view : View) (events : List Event) :
    Ends (announce view events) (s, host) (fun _ next ↦ next.1 = s) fun _ next ↦ next.1 = s := by
  refine .get_bind (.onSecond ?_)
  exact .of_cases (fun _ _ _ ↦ rfl) fun _ _ _ ↦ rfl

/-- A move is made as a whole, or, if an observer fails before it, not at all. -/
theorem move_ends (s : Session M σ) (host : σ) (t : Turn M) :
    Ends (move t) (s, host) (fun _ next ↦ next.1 = { s with machine := t.next }) fun _ next ↦
      next.1 = { s with machine := t.next } ∨ next.1 = s ∧ t.before ≠ none := by
  refine .get_bind ?_
  have hbefore : Ends (announce (Machine.view s.machine) t.before.toList) (s, host)
      (fun _ next ↦ next.1 = s) fun _ next ↦ next.1 = s ∧ t.before ≠ none := by
    by_cases hnone : t.before = none
    · rw [hnone]
      exact .pure rfl
    · exact (announce_ends s host _ _).mono_error fun _ _ hsame ↦ ⟨hsame, hnone⟩
  refine (hbefore.mono_error fun _ _ h ↦ .inr h).bind ?_
  rintro _ ⟨_, host'⟩ rfl
  refine .modify_bind ?_
  exact (announce_ends _ _ _ _).mono_error fun _ _ hsame ↦ .inl hsame

/-- A machine whose scripts are loaded without an event before the move. -/
theorem load_ends (s : Session M σ) (host : σ) {code : Bytes}
    (hsilent : (Machine.load code s.machine).before = none) :
    Ends (load code) (s, host)
      (fun _ next ↦ next.1 = { s with machine := (Machine.load code s.machine).next })
      fun _ next ↦ next.1 = { s with machine := (Machine.load code s.machine).next } := by
  refine .get_bind ((move_ends s host _).mono_error ?_)
  rintro _ next (hmoved | ⟨-, hloud⟩)
  · exact hmoved
  · exact absurd hsilent hloud

/-- The session went on by some turns of the machine. -/
def Went (s next : Session M σ) (ts : List (Turn M)) : Prop :=
  ∃ m, next = { s with machine := m } ∧ Moves s.overrides s.machine ts m

theorem Went.refl (s : Session M σ) : Went s s [] := ⟨s.machine, rfl, .refl _⟩

theorem Went.trans {s₁ s₂ : Session M σ} {ts us : List (Turn M)} (hfirst : Went s s₁ ts)
    (hsecond : Went s₁ s₂ us) : Went s s₂ (ts ++ us) := by
  obtain ⟨m₁, rfl, hmoves⟩ := hfirst
  obtain ⟨m₂, rfl, hmoves'⟩ := hsecond
  exact ⟨m₂, rfl, hmoves.trans hmoves'⟩

/-- One move: the machine takes its turn, or an observer failed before it. -/
theorem step_ends (s : Session M σ) (host : σ) :
    Ends step (s, host)
      (fun more next ↦ ∃ ts, Went s next.1 ts ∧
        (more = false → Machine.turn s.overrides next.1.machine = none))
      fun _ next ↦ ∃ ts, Went s next.1 ts := by
  refine .get_bind ?_
  cases hturn : Machine.turn s.overrides s.machine with
  | none =>
    simp only [hturn]
    exact .pure ⟨[], .refl s, fun _ ↦ hturn⟩
  | some t =>
    simp only [hturn]
    have hwent : Went s { s with machine := t.next } [t] := ⟨t.next, rfl, .cons hturn (.refl _)⟩
    refine ((move_ends s host t).mono_error ?_).bind ?_
    · rintro _ next (hmoved | ⟨hsame, -⟩)
      · exact ⟨[t], hmoved ▸ hwent⟩
      · exact ⟨[], hsame ▸ .refl s⟩
    · intro _ next hmoved
      exact .pure ⟨[t], hmoved ▸ hwent, fun hfalse ↦ Bool.noConfusion hfalse⟩

/-- An execution takes turns of the machine and nothing else, also if it fails. -/
theorem execute_ends (s : Session M σ) (host : σ) (budget : Nat) :
    Ends (execute budget) (s, host)
      (fun answer next ↦ ∃ ts, Went s next.1 ts ∧
        (answer.isSome → Machine.turn s.overrides next.1.machine = none))
      fun _ next ↦ ∃ ts, Went s next.1 ts := by
  induction budget generalizing s host with
  | zero => exact .pure ⟨[], .refl s, fun hsome ↦ Bool.noConfusion hsome⟩
  | succ budget ih =>
    refine (step_ends s host).bind ?_
    intro more next hnext
    obtain ⟨s₁, host₁⟩ := next
    obtain ⟨ts, hwent, hstop⟩ := hnext
    by_cases hmore : more = true
    · rw [if_pos hmore]
      have hoverrides : s₁.overrides = s.overrides := by
        obtain ⟨m, rfl, -⟩ := hwent
        rfl
      refine (ih s₁ host₁).mono ?_ ?_
      · intro answer next hnext
        obtain ⟨us, hwent', hstop'⟩ := hnext
        rw [hoverrides] at hstop'
        exact ⟨ts ++ us, hwent.trans hwent', hstop'⟩
      · intro _ next hnext
        obtain ⟨us, hwent'⟩ := hnext
        exact ⟨ts ++ us, hwent.trans hwent'⟩
    · rw [if_neg hmore]
      exact .get_bind (.pure ⟨ts, hwent, fun _ ↦ hstop (by simpa using hmore)⟩)

/-- Calling again goes on where the machine stands. -/
theorem succeeds_insist (s : Session M σ) (host : σ) (budgets : List Nat) :
    Succeeds (insist budgets) (s, host) fun back next ↦ ∃ ts, Went s next.1 ts ∧
      (back = true → Machine.turn s.overrides next.1.machine = none) := by
  induction budgets generalizing s host with
  | nil => exact .pure ⟨[], .refl s, fun hback ↦ Bool.noConfusion hback⟩
  | cons budget rest ih =>
    have hends := execute_ends s host budget
    cases hrun : execute budget (s, host) with
    | ok answer next =>
      refine (Succeeds.attempt (P := fun outcome next' ↦ outcome = .ok answer ∧ next = next')
        (.inl ⟨answer, next, hrun, rfl, rfl⟩)).bind ?_
      intro _ _ hnext
      obtain ⟨rfl, rfl⟩ := hnext
      exact .pure (hends.of_ok hrun)
    | error e next =>
      refine (Succeeds.attempt (P := fun outcome next' ↦ outcome = .error e ∧ next = next')
        (.inr ⟨e, next, hrun, rfl, rfl⟩)).bind ?_
      intro _ _ hnext
      obtain ⟨rfl, rfl⟩ := hnext
      obtain ⟨s₁, host₁⟩ := next
      obtain ⟨ts, hwent⟩ := hends.of_error hrun
      have hoverrides : s₁.overrides = s.overrides := by
        obtain ⟨m, rfl, -⟩ := hwent
        rfl
      refine (ih s₁ host₁).mono ?_
      intro back next hnext
      obtain ⟨us, hwent', hstop⟩ := hnext
      rw [hoverrides] at hstop
      exact ⟨ts ++ us, hwent.trans hwent', hstop⟩

/-- Assumes: a machine whose scripts are loaded without an event before the move. Requests take the
machine on its journey, whatever the observers answer. -/
theorem succeeds_serve (hsilent : ∀ code (m : M), (Machine.load code m).before = none)
    (s : Session M σ) (host : σ) (requests : List Request) :
    Succeeds (serve requests) (s, host) fun all next ↦
      (∃ m, next.1 = { s with machine := m }) ∧ (all = true → ∃ ts,
        Journey s.overrides (requests.map Request.script?) s.machine ts next.1.machine) := by
  induction requests generalizing s host with
  | nil => exact .pure ⟨⟨s.machine, rfl⟩, fun _ ↦ ⟨[], .nil _⟩⟩
  | cons request rest ih =>
    cases request with
    | load code =>
      refine (load_ends s host (hsilent code s.machine)).succeeds_attempt.bind ?_
      rintro _ ⟨_, host₁⟩ rfl
      refine (ih _ host₁).mono ?_
      intro all next hend
      obtain ⟨⟨m, hnext⟩, hjourney⟩ := hend
      refine ⟨⟨m, hnext⟩, fun hall ↦ ?_⟩
      obtain ⟨ts, hrest⟩ := hjourney hall
      exact ⟨ts, .load hrest⟩
    | run budgets =>
      refine (succeeds_insist s host budgets).bind ?_
      intro back next hnext
      obtain ⟨_, host₁⟩ := next
      obtain ⟨ts, ⟨m₁, rfl, hmoves⟩, hstop⟩ := hnext
      by_cases hback : back = true
      · rw [if_pos hback]
        refine (ih _ host₁).mono ?_
        intro all next hend
        obtain ⟨⟨m, hnext⟩, hjourney⟩ := hend
        refine ⟨⟨m, hnext⟩, fun hall ↦ ?_⟩
        obtain ⟨us, hrest⟩ := hjourney hall
        exact ⟨ts ++ us, .run hmoves (hstop hback) hrest⟩
      · rw [if_neg hback]
        exact .pure ⟨⟨m₁, rfl⟩, fun hall ↦ Bool.noConfusion hall⟩

/-! ### Sessions without observers -/

section Unobserved

variable (hobservers : s.observers = [])
include hobservers

omit [Machine M] in
theorem announce_unobserved (view : View) (events : List Event) :
    announce view events (s, host) = .ok ⟨⟩ (s, host) := by
  have hreport : s.report view events host = .ok ⟨⟩ host := by
    unfold report
    rw [hobservers]
    induction events with
    | nil => rfl
    | cons event rest ih => exact ih
  change onSecond (s.report view events) (s, host) = _
  simp only [onSecond, hreport]

theorem move_unobserved (t : Turn M) :
    move t (s, host) = .ok ⟨⟩ ({ s with machine := t.next }, host) := by
  change (announce (Machine.view s.machine) t.before.toList >>= fun _ ↦ _) (s, host) = _
  rw [bind_ok (announce_unobserved hobservers _ _)]
  exact announce_unobserved (s := { s with machine := t.next }) hobservers _ _

theorem load_unobserved (code : Bytes) : load code (s, host) =
    .ok ⟨⟩ ({ s with machine := (Machine.load code s.machine).next }, host) :=
  move_unobserved hobservers _

/-- A machine that nobody observes goes its way, if it is given enough moves. -/
theorem execute_unobserved {m : M} {ts : List (Turn M)}
    (hmoves : Moves s.overrides s.machine ts m) (hstop : Machine.turn s.overrides m = none) :
    execute (ts.length + 1) (s, host) =
      .ok (some (Machine.view m).state) ({ s with machine := m }, host) := by
  obtain ⟨start, observers, nextSubscription, overrides⟩ := s
  obtain rfl : observers = [] := hobservers
  change Moves overrides start ts m at hmoves
  induction hmoves with
  | refl m =>
    have hlast : step (⟨m, [], nextSubscription, overrides⟩, host) =
        .ok false (⟨m, [], nextSubscription, overrides⟩, host) := by
      unfold step
      rw [get_bind_eq]
      simp only [hstop]
      rfl
    exact bind_ok hlast _
  | @cons m _ t us hturn _ ih =>
    have hmore : step (⟨m, [], nextSubscription, overrides⟩, host) =
        .ok true (⟨t.next, [], nextSubscription, overrides⟩, host) := by
      unfold step
      rw [get_bind_eq]
      simp only [hturn]
      exact bind_ok (move_unobserved (s := ⟨m, [], nextSubscription, overrides⟩) rfl t) _
    exact (bind_ok hmore _).trans (ih hstop)

/-- Given enough moves, a machine that nobody observes ends its journey. -/
theorem exists_serve_unobserved {scripts : List (Option Bytes)} {m : M} {ts : List (Turn M)}
    (hjourney : Journey s.overrides scripts s.machine ts m) : ∃ requests : List Request,
    requests.map Request.script? = scripts ∧
      serve requests (s, host) = .ok true ({ s with machine := m }, host) := by
  obtain ⟨start, observers, nextSubscription, overrides⟩ := s
  obtain rfl : observers = [] := hobservers
  change Journey overrides scripts start ts m at hjourney
  induction hjourney with
  | nil m => exact ⟨[], rfl, rfl⟩
  | @load code scripts m _ _ _ ih =>
    obtain ⟨requests, hscripts, hserve⟩ := ih
    refine ⟨.load code :: requests, by rw [List.map_cons, hscripts]; rfl, ?_⟩
    have hload : load code (⟨m, [], nextSubscription, overrides⟩, host) =
        .ok ⟨⟩ (⟨(Machine.load code m).next, [], nextSubscription, overrides⟩, host) :=
      load_unobserved rfl code
    exact (bind_ok (attempt_ok hload) _).trans hserve
  | @run scripts m m₁ _ us _ hmoves hstop _ ih =>
    obtain ⟨requests, hscripts, hserve⟩ := ih
    refine ⟨.run [us.length + 1] :: requests, by rw [List.map_cons, hscripts]; rfl, ?_⟩
    have hinsist : insist [us.length + 1] (⟨m, [], nextSubscription, overrides⟩, host) =
        .ok true (⟨m₁, [], nextSubscription, overrides⟩, host) := by
      have hexecute : execute (us.length + 1) (⟨m, [], nextSubscription, overrides⟩, host) =
          .ok (some (Machine.view m₁).state) (⟨m₁, [], nextSubscription, overrides⟩, host) :=
        execute_unobserved rfl hmoves hstop
      exact bind_ok (attempt_ok hexecute) _
    exact (bind_ok hinsist _).trans hserve

end Unobserved

/-- The machine of a session, with nobody to observe it. -/
def unobserved (s : Session M σ) : Session M Unit :=
  ⟨s.machine, [], s.nextSubscription, s.overrides⟩

end Session

/-! ### The gas of a journey -/

namespace StackMachine

open Session

/-- A turn charges the instruction that it reports to be about to run, and no other. -/
theorem gas_of_turn {overrides : Overrides} {m : StackMachine} {t : Turn StackMachine}
    (hturn : turn overrides m = some t) :
    t.next.gas = m.gas + if t.before.isSome then 1 else 0 := by
  cases outcome_of_turn hturn with
  | empty => rfl
  | undecodable => rfl
  | completed hcompletes => exact hcompletes.effect.sameSession.gas_eq
  | faulted hfaults => exact (sameScripts_of_operate hfaults.operate).sameSession.gas_eq

theorem gas_of_moves {overrides : Overrides} {m m' : StackMachine} {ts : List (Turn StackMachine)}
    (hmoves : Moves overrides m ts m') :
    m'.gas = m.gas + ts.countP fun t ↦ t.before.isSome := by
  induction hmoves with
  | refl m => rfl
  | cons hturn _ ih =>
    rw [ih, gas_of_turn hturn, List.countP_cons]
    omega

theorem gas_of_load (code : Bytes) (m : StackMachine) : (m.load code).next.gas = m.gas := by
  simp only [load, reset, enter]
  split <;> rfl

theorem gas_of_journey {overrides : Overrides} {scripts : List (Option Bytes)}
    {m m' : StackMachine} {ts : List (Turn StackMachine)}
    (hjourney : Journey overrides scripts m ts m') :
    m'.gas = m.gas + ts.countP fun t ↦ t.before.isSome := by
  induction hjourney with
  | nil m => rfl
  | @load code _ m _ _ _ ih => exact ih.trans (congrArg (· + _) (gas_of_load code m))
  | run hmoves _ _ ih =>
    rw [ih, gas_of_moves hmoves, List.countP_append, Nat.add_assoc]

/-- Assumes: a session with any observers, and requests that have all come back. Then the machine is
the one that the same requests leave without observers, as soon as they are given enough moves; the
turns it took are those of a machine alone, each once and in their order; and it was charged one
unit for each instruction among them. -/
theorem serve_unobserved {σ : Type} {s s' : Session StackMachine σ} {host host' : σ}
    {requests : List Request} (hserve : serve requests (s, host) = .ok true (s', host')) :
    (∃ others, others.map Request.script? = requests.map Request.script? ∧
      serve others (s.unobserved, ()) = .ok true (s'.unobserved, ())) ∧
    (∀ others alone, others.map Request.script? = requests.map Request.script? →
      serve others (s.unobserved, ()) = .ok true (alone, ()) → alone.machine = s'.machine) ∧
    ∃ ts, Journey s.overrides (requests.map Request.script?) s.machine ts s'.machine ∧
      s'.machine.gas = s.machine.gas + ts.countP fun t ↦ t.before.isSome := by
  have hjourney {τ : Type} {u u' : Session StackMachine τ} {h h' : τ} {others : List Request}
      (hrun : serve others (u, h) = .ok true (u', h')) : (∃ m, u' = { u with machine := m }) ∧
        ∃ ts, Journey u.overrides (others.map Request.script?) u.machine ts u'.machine := by
    obtain ⟨all, next, hrun', hsession, hall⟩ := succeeds_serve (fun _ _ ↦ rfl) u h others
    obtain ⟨rfl, rfl⟩ := EStateM.Result.ok.inj (hrun'.symm.trans hrun)
    exact ⟨hsession, hall rfl⟩
  obtain ⟨⟨m, rfl⟩, ts, hobserved⟩ := hjourney hserve
  refine ⟨?_, ?_, ts, hobserved, gas_of_journey hobserved⟩
  · exact exists_serve_unobserved (s := s.unobserved) rfl hobserved
  · intro others alone hsame hrun
    obtain ⟨-, us, halone⟩ := hjourney hrun
    rw [hsame] at halone
    exact (hobserved.unique halone).2.symm

/-- Two observers fail at the first eight events they are told of, whatever these are. -/
theorem serve_unobserved_of_failing :
    let observer : Observer Nat := ⟨fun _ _ ↦ do
      let failures ← get
      unless failures = 0 do
        set (failures - 1)
        throw .unknownScriptState⟩
    let machine := StackMachine.create ⟨1⟩ .empty .default []
    let s : Session StackMachine Nat := ⟨machine, [(1, observer), (2, observer)], 3, .empty⟩
    let requests := [Request.load [Opcode.pushTrue], .run (List.replicate 9 9),
      .load [Opcode.abort], .run [9]]
    ∃ s' host', serve requests (s, 8) = .ok true (s', host') ∧
      (∃ others, others.map Request.script? = requests.map Request.script? ∧
        serve others (s.unobserved, ()) = .ok true (s'.unobserved, ())) ∧
      (∀ others alone, others.map Request.script? = requests.map Request.script? →
        serve others (s.unobserved, ()) = .ok true (alone, ()) → alone.machine = s'.machine) ∧
      ∃ ts, Journey s.overrides (requests.map Request.script?) s.machine ts s'.machine ∧
        s'.machine.gas = s.machine.gas + ts.countP fun t ↦ t.before.isSome := by
  intro observer machine s requests
  obtain ⟨s', host', hserve⟩ : ∃ s' host', serve requests (s, 8) = .ok true (s', host') :=
    ⟨_, _, rfl⟩
  exact ⟨s', host', hserve, serve_unobserved hserve⟩

end StackMachine

end ScriptTrace
