import ScriptTrace.Proofs.Session.Attendance

/-!
Observers that may fail. A failure stops a session before a move or after it, and the host may make
another call then. `Observer.Bears` says that a condition on a machine and its observer survives a
move in this sense. What survives every move survives every call, whatever comes of it
(`Watches.make`).
-/

set_option autoImplicit false
set_option relaxedAutoImplicit false

namespace ScriptTrace

section Session

variable {M σ : Type} [Machine M]

/-- An observer, which may fail, is told of a move. A condition holds where the session stands after
that: behind the move, or in front of it if the observer failed there. -/
def Observer.Bears (o : Observer σ) (inv : M → σ → Prop) (m : M) (t : Turn M) (host : σ) : Prop :=
  Ends (t.before.toList.forM (o.notice (Machine.view m))) host
    (fun _ host' ↦ Ends (t.after.forM (o.notice (Machine.view t.next))) host'
      (fun _ ↦ inv t.next) fun _ ↦ inv t.next)
    fun _ ↦ inv m

namespace Session

variable {s : Session M σ} {o : Observer σ} {inv : M → σ → Prop} {host : σ}

theorem bears_of_observer (haudience : s.audience = o) {t : Turn M}
    (h : o.Bears inv s.machine t host) : s.Bears inv inv t host := by
  unfold Bears
  rw [s.report_eq_forM haudience, s.report_eq_forM haudience]
  exact h

theorem move_bears (haudience : s.audience = o) {t : Turn M}
    (h : o.Bears inv s.machine t host) :
    Ends (move t) (s, host) (fun _ next ↦ next.1 = { s with machine := t.next } ∧ inv t.next next.2)
      fun _ ↦ s.Stands inv :=
  (bears_of_observer haudience h).move

/-- Assumes: a condition that survives every turn with the audience of a session. An execution
leaves it true, also if it fails. -/
theorem execute_bears (haudience : s.audience = o)
    (hturn : ∀ m host t, inv m host → Machine.turn s.overrides m = some t → o.Bears inv m t host)
    (hinv : inv s.machine host) (budget : Nat) :
    Ends (execute budget) (s, host) (fun _ ↦ s.Stands inv) fun _ ↦ s.Stands inv :=
  execute_of_bears (fun m host t hinv hnext ↦
    bears_of_observer (s := { s with machine := m }) haudience (hturn m host t hinv hnext))
    hinv budget

end Session

end Session

namespace Engine

variable {M ρ τ : Type} [Machine M]

/-- An engine drives its session with an audience, and a condition on the machine and the audience
holds. -/
structure Holds (o : Observer (ρ × τ)) (overrides : Overrides) (inv : M → ρ × τ → Prop)
    (next : Engine M ρ τ × τ) : Prop where
  watches : next.1.Watches o overrides
  holds : inv next.1.session.machine (next.1.recorder, next.2)

variable {o : Observer (ρ × τ)} {overrides : Overrides} {inv : M → ρ × τ → Prop}
  {e : Engine M ρ τ} {t : τ}

omit [Machine M] in
theorem Watches.ends_onSession {α : Type} (he : e.Watches o overrides)
    {x : EStateM TracerError (Session M (ρ × τ) × ρ × τ) α}
    (hx : Ends x (e.session, e.recorder, t) (fun _ ↦ e.session.Stands inv)
      fun _ ↦ e.session.Stands inv) :
    Ends (ensureOpen >>= fun _ ↦ onSession x) (e, t) (fun _ ↦ Holds o overrides inv)
      fun _ ↦ Holds o overrides inv := by
  have hholds {next : Engine M ρ τ × τ} (h : e.Stands inv next) : Holds o overrides inv next := by
    have hwatches := h.watches he
    obtain ⟨_, t'⟩ := next
    obtain ⟨m, r, rfl, hinv⟩ := h
    exact ⟨hwatches, hinv⟩
  have hopen : ensureOpen (e, t) = .ok () (e, t) := ensureOpen_of_open he.not_disposed
  have hends := (onSession_stands hx).mono (fun _ _ h ↦ hholds h) fun _ _ h ↦ hholds h
  unfold Ends at hends ⊢
  rwa [bind_ok hopen]

/-- Assumes: a condition that survives every turn and a load of the machine as it is. A call leaves
it true, whatever comes of the call. -/
theorem Watches.make (he : e.Watches o overrides)
    (hload : ∀ code, o.Bears inv e.session.machine (Machine.load code e.session.machine)
      (e.recorder, t))
    (hturn : ∀ m host move, inv m host → Machine.turn overrides m = some move →
      o.Bears inv m move host)
    (hinv : inv e.session.machine (e.recorder, t)) (call : Call) :
    Ends (Engine.make call) (e, t) (fun _ ↦ Holds o overrides inv)
      fun _ ↦ Holds o overrides inv := by
  cases call with
  | load code =>
    refine he.ends_onSession (.get_bind ?_)
    exact (Session.move_bears he.audience (hload code)).mono (fun _ _ hmoved ↦ ⟨_, hmoved⟩)
      fun _ _ hstands ↦ hstands
  | execute budget =>
    rw [← he.overrides] at hturn
    have hexecute := he.ends_onSession (Session.execute_bears he.audience hturn hinv budget)
    exact hexecute.bind fun _ _ hholds ↦ .pure hholds

end Engine

end ScriptTrace
