import ScriptTrace.Engine
import ScriptTrace.Proofs.Session.Company
import ScriptTrace.Proofs.Session.Drive

/-!
Engines among the observers of a host. While an engine is open its recorder is one of the observers
of the session (`Engine.Attends`), and a call on the engine is a call on the session underneath
(`Engine.make_of_open`). Such a call changes the machine and the recorder and nothing else of the
engine (`Engine.onSession_stands`). A host may go on after a call that failed
(`Engine.attemptEach`).
-/

set_option autoImplicit false
set_option relaxedAutoImplicit false

namespace ScriptTrace

namespace Session

variable {M σ : Type} {s : Session M σ}

/-- Make a call on a session without looking at its answer. -/
def make [Machine M] : Call → EStateM TracerError (Session M σ × σ) Unit
  | .load code => load code
  | .execute budget => do
    let _ ← execute budget

theorem make_keeps [Machine M] {host : σ} {inv : σ → Prop}
    (hobservers : ∀ o ∈ s.observers, o.2.Keeps inv) (hinv : inv host) (c : Call) :
    Ends (make c) (s, host) (fun _ ↦ s.Stands fun _ ↦ inv) fun _ ↦ s.Stands fun _ ↦ inv := by
  cases c with
  | load code => exact load_keeps hobservers hinv code
  | execute budget =>
    exact (execute_keeps hobservers hinv budget).bind fun _ _ hstands ↦ .pure hstands

/-- Every observer of a session has a number from before the next one. -/
def Numbered (s : Session M σ) : Prop := ∀ p ∈ s.observers, p.1 < s.nextSubscription

theorem Numbered.subscribe (h : s.Numbered) (o : Observer σ) : (s.subscribe o).2.Numbered := by
  intro p hp
  rcases List.mem_append.mp hp with hold | hnew
  · exact Nat.lt_succ_of_lt (h p hold)
  · rw [List.mem_singleton.mp hnew]
    exact Nat.lt_succ_self s.nextSubscription

end Session

namespace Engine

variable {M ρ τ : Type}

/-- Make a call without looking at its answer. -/
def make [Machine M] : Call → Act M ρ τ Unit
  | .load code => load code
  | .execute budget => do
    let _ ← execute budget

/-- An engine is open: its recorder is an observer of the session among those of the host, under a
number that no other one has or will get. -/
def Attends (e : Engine M ρ τ) (o : Observer (ρ × τ)) (others : List (Nat × Observer τ)) : Prop :=
  ∃ k front back, e.subscription = some k ∧ others = front ++ back ∧
    e.session.observers = lifted front ++ (k, o) :: lifted back ∧ (∀ p ∈ others, p.1 ≠ k) ∧
    k < e.session.nextSubscription

theorem observers_start (o : Observer (ρ × τ)) (recorder : ρ) (checker : Option WitnessChecker)
    (session : Session M τ) : (start o recorder checker session).session.observers =
      lifted session.observers ++ [(session.nextSubscription, o)] := by
  cases checker <;> rfl

/-- An engine that was just built over a session. -/
theorem attends_start (o : Observer (ρ × τ)) (recorder : ρ) (checker : Option WitnessChecker)
    {session : Session M τ} (hnumbered : session.Numbered) :
    (start o recorder checker session).Attends o session.observers := by
  have hobservers := observers_start o recorder checker session
  have hnext : (start o recorder checker session).session.nextSubscription =
      session.nextSubscription + 1 := by
    cases checker <;> rfl
  refine ⟨session.nextSubscription, session.observers, [], ?_, (List.append_nil _).symm, hobservers,
    fun p hp ↦ Nat.ne_of_lt (hnumbered p hp), ?_⟩
  · cases checker <;> rfl
  · rw [hnext]
    exact Nat.lt_succ_self session.nextSubscription

theorem Attends.not_disposed {e : Engine M ρ τ} {o : Observer (ρ × τ)}
    {others : List (Nat × Observer τ)} (h : e.Attends o others) : e.isDisposed = false := by
  obtain ⟨k, front, back, hsubscription, -⟩ := h
  rw [isDisposed, hsubscription, Option.isNone_some]

/-- Of an engine only the machine and the recorder have changed, and a condition on them and on the
outside state holds. -/
def Stands (e : Engine M ρ τ) (inv : M → ρ × τ → Prop) (next : Engine M ρ τ × τ) : Prop :=
  ∃ m r, next.1 = { e with session := { e.session with machine := m }, recorder := r } ∧
    inv m (r, next.2)

/-- An engine stays open. -/
theorem Stands.attends {e : Engine M ρ τ} {inv : M → ρ × τ → Prop} {next : Engine M ρ τ × τ}
    {o : Observer (ρ × τ)} {others : List (Nat × Observer τ)} (h : e.Stands inv next)
    (he : e.Attends o others) : next.1.Attends o others := by
  obtain ⟨m, r, hnext, -⟩ := h
  rw [hnext]
  exact he

/-- An engine keeps its audience. -/
theorem Stands.watches {e : Engine M ρ τ} {inv : M → ρ × τ → Prop} {next : Engine M ρ τ × τ}
    {o : Observer (ρ × τ)} {overrides : Overrides} (h : e.Stands inv next)
    (he : e.Watches o overrides) : next.1.Watches o overrides := by
  obtain ⟨m, r, hnext, -⟩ := h
  rw [hnext]
  exact ⟨he.audience, he.overrides, he.not_disposed⟩

theorem onSession_stands {α : Type} {x : EStateM TracerError (Session M (ρ × τ) × ρ × τ) α}
    {P : α → M → ρ × τ → Prop} {Q : TracerError → M → ρ × τ → Prop} {e : Engine M ρ τ} {t : τ}
    (hx : Ends x (e.session, e.recorder, t) (fun a ↦ e.session.Stands (P a))
      fun err ↦ e.session.Stands (Q err)) :
    Ends (onSession x) (e, t) (fun a ↦ e.Stands (P a)) fun err ↦ e.Stands (Q err) := by
  have hstands {inv : M → ρ × τ → Prop} {next : Session M (ρ × τ) × ρ × τ}
      (h : e.session.Stands inv next) :
      e.Stands inv ({ e with session := next.1, recorder := next.2.1 }, next.2.2) := by
    obtain ⟨_, r, t'⟩ := next
    obtain ⟨m, rfl, hinv⟩ := h
    exact ⟨m, r, rfl, hinv⟩
  cases hrun : x (e.session, e.recorder, t) with
  | ok a next =>
    have hnext := hstands (hx.of_ok hrun)
    simpa only [Ends, onSession, hrun] using hnext
  | error err next =>
    have hnext := hstands (hx.of_error hrun)
    simpa only [Ends, onSession, hrun] using hnext

/-! ### Calls -/

theorem onSession_bind {α β : Type} (x : EStateM TracerError (Session M (ρ × τ) × ρ × τ) α)
    (f : α → EStateM TracerError (Session M (ρ × τ) × ρ × τ) β) (s : Engine M ρ τ × τ) :
    onSession (x >>= f) s = (onSession x >>= fun a ↦ onSession (f a)) s := by
  obtain ⟨e, t⟩ := s
  obtain ⟨answer, ⟨s', r, t'⟩, hrun⟩ := exists_resultOf x (e.session, e.recorder, t)
  have hfirst : onSession x (e, t) =
      resultOf answer ({ e with session := s', recorder := r }, t') := onSession_eq hrun
  cases answer with
  | ok a =>
    rw [bind_ok hfirst, onSession, bind_ok hrun]
    rfl
  | error err => rw [bind_error hfirst, onSession, bind_error hrun]

/-- A call on an open engine is a call on the session underneath. -/
theorem make_of_open [Machine M] {e : Engine M ρ τ} {t : τ} (hopen : e.isDisposed = false)
    (c : Call) : make c (e, t) = onSession (Session.make c) (e, t) := by
  cases c with
  | load code => exact bind_ok (ensureOpen_of_open hopen) _
  | execute budget =>
    have hexecute : execute budget (e, t) = onSession (Session.execute budget) (e, t) :=
      bind_ok (ensureOpen_of_open hopen) _
    rw [Session.make, onSession_bind]
    change (execute budget >>= fun _ ↦ pure ()) (e, t) = _
    cases hrun : onSession (Session.execute budget) (e, t) with
    | ok a next => rw [bind_ok (hexecute.trans hrun), bind_ok hrun]; rfl
    | error err next => rw [bind_error (hexecute.trans hrun), bind_error hrun]

/-- An engine that was disposed of refuses calls. -/
theorem make_of_disposed [Machine M] {e : Engine M ρ τ} {t : τ} (hdisposed : e.isDisposed = true)
    (c : Call) : make c (e, t) = .error .sessionClosed (e, t) := by
  cases c with
  | load code => exact bind_error (ensureOpen_of_disposed hdisposed) _
  | execute budget => exact bind_error (bind_error (ensureOpen_of_disposed hdisposed) _) _

/-- A call on the session underneath changes nothing else of an engine. -/
theorem stands_make [Machine M] (e : Engine M ρ τ) (t : τ) (c : Call) :
    Ends (onSession (Session.make c)) (e, t) (fun _ ↦ e.Stands fun _ _ ↦ True)
      fun _ ↦ e.Stands fun _ _ ↦ True := by
  have hkeeps : ∀ o ∈ e.session.observers, o.2.Keeps fun _ ↦ True := fun o _ ↦ o.2.keeps_true
  exact onSession_stands (Session.make_keeps hkeeps trivial c)

/-- What holds where a call on the session underneath ends or fails holds there of a call on an open
engine. -/
theorem make_stands [Machine M] {e : Engine M ρ τ} {t : τ} {P : M → ρ × τ → Prop}
    {Q : TracerError → M → ρ × τ → Prop} (hopen : e.isDisposed = false) {c : Call}
    (hmake : Ends (Session.make c) (e.session, e.recorder, t) (fun _ ↦ e.session.Stands P)
      fun err ↦ e.session.Stands (Q err)) :
    Ends (make c) (e, t) (fun _ ↦ e.Stands P) fun err ↦ e.Stands (Q err) := by
  have hends := onSession_stands hmake
  unfold Ends at hends ⊢
  rwa [make_of_open hopen]

/-- Make calls one after the other, where the host goes on after a failure. The answer is the
outcome of each call, with the machine as the call leaves it. -/
def attemptEach [Machine M] : List Call → Act M ρ τ (List (Except TracerError Unit × M))
  | [] => return []
  | call :: rest => do
    let outcome ← attempt (make call)
    let (e, _) ← get
    let outcomes ← attemptEach rest
    return (outcome, e.session.machine) :: outcomes

theorem attemptEach_cons [Machine M] {c : Call} {rest : List Call} {s s₁ next : Engine M ρ τ × τ}
    {answer : Except TracerError Unit} {outcomes : List (Except TracerError Unit × M)}
    (hcall : make c s = resultOf answer s₁) (hrest : attemptEach rest s₁ = .ok outcomes next) :
    attemptEach (c :: rest) s = .ok ((answer, s₁.1.session.machine) :: outcomes) next := by
  obtain ⟨e₁, t₁⟩ := s₁
  rw [attemptEach, bind_ok (attempt_eq hcall), get_bind_eq]
  exact bind_ok hrest _

end Engine

end ScriptTrace
