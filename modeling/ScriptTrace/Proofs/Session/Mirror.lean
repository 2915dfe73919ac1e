import ScriptTrace.Proofs.Mirror
import ScriptTrace.Proofs.Session.Attendance

/-!
Sessions of machines that correspond. A map from the machines of one kind to those of another kind
may respect loading and taking turns, and observers may be told alike of a machine and of its image
(`Session.Reflected`). Then the session over the image does what the session over the machine does,
for the same calls: its machine is the image of the other one all the time, and the observers are
left in the same state (`Engine.attemptEach_mirror`).
-/

set_option autoImplicit false
set_option relaxedAutoImplicit false

namespace ScriptTrace

variable {M M' σ : Type}

namespace Session

/-- The session over the image of the machine, with other replaced system calls. -/
def mirror (f : M → M') (others : Overrides) (s : Session M σ) : Session M' σ :=
  ⟨f s.machine, s.observers, s.nextSubscription, others⟩

variable [Machine M] [Machine M']

/-- Loading a script and taking a turn commute with a map of machines, where other system calls are
replaced in the image, and the observers are told alike of a machine and of its image. -/
structure Reflected (f : M → M') (others : Overrides) (s : Session M σ) : Prop where
  load : ∀ code m, Machine.load code (f m) = (Machine.load code m).mapNext f
  turn : ∀ m, Machine.turn others (f m) = (Machine.turn s.overrides m).map (Turn.mapNext f)
  state : ∀ m, (Machine.view (f m)).state = (Machine.view m).state
  notice : ∀ p ∈ s.observers, ∀ m event,
    p.2.notice (Machine.view (f m)) event = p.2.notice (Machine.view m) event

variable {f : M → M'} {others : Overrides} {s : Session M σ} {host : σ}

/-- It does not matter where the machine stands. -/
theorem Reflected.withMachine (h : s.Reflected f others) (m : M) :
    ({ s with machine := m } : Session M σ).Reflected f others :=
  ⟨h.load, h.turn, h.state, h.notice⟩

theorem Reflected.of_stands (h : s.Reflected f others) {inv : M → σ → Prop}
    {next : Session M σ × σ} (hnext : s.Stands inv next) : next.1.Reflected f others := by
  obtain ⟨m, hsame, -⟩ := hnext
  rw [hsame]
  exact h.withMachine m

/-- It holds wherever a move leaves the session. -/
theorem Reflected.of_step (h : s.Reflected f others) {more : Bool} {next : Session M σ × σ}
    (hrun : step (s, host) = .ok more next) : next.1.Reflected f others := by
  have hkeeps : ∀ o ∈ s.observers, o.2.Keeps fun _ ↦ True := fun o _ ↦ o.2.keeps_true
  exact h.of_stands ((step_keeps hkeeps trivial).of_ok hrun)

/-- An operation of sessions does the same to a session and to the one over the image. -/
abbrev MirroredBy {α : Type} (f : M → M') (others : Overrides)
    (x : EStateM TracerError (Session M σ × σ) α) (y : EStateM TracerError (Session M' σ × σ) α)
    (s : Session M σ) (host : σ) : Prop :=
  Mirrors (Prod.map (mirror f others) id) id id x y (s, host)

omit [Machine M] [Machine M'] in
theorem mirrors_announce (s : Session M σ) {view view' : View} {events : List Event}
    (hreport : (s.mirror f others).report view' events = s.report view events) (host : σ) :
    MirroredBy f others (announce view events) (announce view' events) s host := by
  have hsame : MirroredBy f others (onSecond (s.report view events))
      (onSecond ((s.mirror f others).report view' events)) s host := by
    rw [hreport]
    exact .onSecond _ _ s host
  exact .get_bind hsame

omit [Machine M] in
theorem fst_of_announce {view : View} {events : List Event} {a : Unit} {next : Session M σ × σ}
    (hrun : announce view events (s, host) = .ok a next) : next.1 = s := by
  have hends : Ends (announce view events) (s, host) (fun _ next ↦ next.1 = s) fun _ _ ↦ True :=
    announce_of_report (.of_cases (fun _ _ _ ↦ rfl) fun _ _ _ ↦ trivial)
  exact hends.of_ok hrun

section Reflected

variable (h : s.Reflected f others)
include h

theorem Reflected.report_eq (m : M) (events : List Event) :
    (s.mirror f others).report (Machine.view (f m)) events =
      s.report (Machine.view m) events := by
  unfold report
  refine congrArg events.forM (funext fun event ↦ ?_)
  exact forM_congr fun p hp ↦ h.notice p hp m event

theorem mirrors_move (t : Turn M) :
    MirroredBy f others (move t) (move (t.mapNext f)) s host := by
  refine .get_bind ?_
  refine (mirrors_announce s (h.report_eq _ _) host).bind fun _ next hrun ↦ ?_
  obtain ⟨s', host'⟩ := next
  obtain rfl : s' = s := fst_of_announce hrun
  have hmoved := h.withMachine t.next
  exact .modify_bind rfl (mirrors_announce _ (hmoved.report_eq t.next t.after) host')

theorem mirrors_load (code : Bytes) : MirroredBy f others (load code) (load code) s host := by
  have hload : Machine.load code (s.mirror f others).machine =
      (Machine.load code s.machine).mapNext f := h.load code s.machine
  refine (mirrors_move h (Machine.load code s.machine)).congr rfl ?_
  change move (Machine.load code (s.mirror f others).machine) (s.mirror f others, host) = _
  rw [hload]
  rfl

theorem mirrors_step : MirroredBy f others step step s host := by
  have hturn := h.turn s.machine
  refine .get_bind ?_
  cases hnext : Machine.turn s.overrides s.machine with
  | none =>
    rw [hnext, Option.map_none] at hturn
    simp only [Prod.map, mirror, hturn, hnext]
    exact .pure false _
  | some t =>
    rw [hnext, Option.map_some] at hturn
    simp only [Prod.map, mirror, hturn, hnext]
    exact (mirrors_move h t).bind fun _ _ _ ↦ .pure true _

theorem mirrors_execute (budget : Nat) :
    MirroredBy f others (execute budget) (execute budget) s host := by
  induction budget generalizing s host with
  | zero => exact .pure none _
  | succ budget ih =>
    refine (mirrors_step h).bind fun more next hrun ↦ ?_
    obtain ⟨s', host'⟩ := next
    have hnext : s'.Reflected f others := h.of_step hrun
    cases more with
    | true => exact ih hnext
    | false =>
      refine .get_bind ?_
      have hstate : (Machine.view (s'.mirror f others).machine).state =
          (Machine.view s'.machine).state := h.state s'.machine
      refine (Mirrors.pure (some (Machine.view s'.machine).state) (s', host')).congr rfl ?_
      change EStateM.Result.ok (some (Machine.view (s'.mirror f others).machine).state) _ = _
      rw [hstate]
      rfl

theorem mirrors_make (c : Call) : MirroredBy f others (make c) (make c) s host := by
  cases c with
  | load code => exact mirrors_load h code
  | execute budget => exact (mirrors_execute h budget).bind fun _ _ _ ↦ .pure () _

end Reflected

end Session

namespace Engine

variable {ρ τ : Type}

/-- The engine over the image of the machine, which leaves witness checks to the machine. -/
def mirror (f : M → M') (others : Overrides) (e : Engine M ρ τ) : Engine M' ρ τ :=
  ⟨e.session.mirror f others, e.recorder, e.subscription, false⟩

variable [Machine M] [Machine M'] {f : M → M'} {others : Overrides} {e : Engine M ρ τ} {t : τ}
  (h : e.session.Reflected f others) (hopen : e.isDisposed = false)
include h hopen

theorem mirrors_make (c : Call) :
    Mirrors (Prod.map (mirror f others) id) id id (make c) (make c) (e, t) := by
  obtain ⟨answer, ⟨s, r, t'⟩, hrun⟩ := exists_resultOf (Session.make c) (e.session, e.recorder, t)
  have hsame : Session.make c (e.session.mirror f others, e.recorder, t) =
      resultOf answer (s.mirror f others, r, t') := (Session.mirrors_make h c).resultOf_eq hrun
  have himage : onSession (Session.make c) (e.mirror f others, t) =
      resultOf answer (({ e with session := s, recorder := r } : Engine M ρ τ).mirror f others,
        t') := onSession_eq hsame
  have hmirrors : Mirrors (Prod.map (mirror f others) id) id id (onSession (Session.make c))
      (onSession (Session.make c)) (e, t) := .of_resultOf (onSession_eq hrun) himage
  exact hmirrors.congr (make_of_open hopen c) (make_of_open (e := e.mirror f others) hopen c)

/-- The same calls on both engines have the same outcomes, and leave the machine of the one to be
the image of the machine of the other, the same recorder and the same outside state. -/
theorem attemptEach_mirror (calls : List Call) :
    ∃ outcomes e' t', attemptEach calls (e, t) = .ok outcomes (e', t') ∧
      attemptEach calls (e.mirror f others, t) =
        .ok (outcomes.map (Prod.map id f)) (e'.mirror f others, t') := by
  induction calls generalizing e t with
  | nil => exact ⟨[], e, t, rfl, rfl⟩
  | cons c rest ih =>
    obtain ⟨answer, ⟨e₁, t₁⟩, hrun⟩ := exists_resultOf (make c) (e, t)
    have himage := (mirrors_make h hopen c).resultOf_eq hrun
    obtain ⟨m, r, rfl, -⟩ :=
      (stands_make e t c).of_resultOf ((make_of_open hopen c).symm.trans hrun)
    let e₁ : Engine M ρ τ := { e with session := { e.session with machine := m }, recorder := r }
    obtain ⟨outcomes, e', t', hrest, hrest'⟩ := ih (e := e₁) (h.withMachine m) hopen
    exact ⟨(answer, m) :: outcomes, e', t', attemptEach_cons hrun hrest,
      attemptEach_cons himage hrest'⟩

end Engine

end ScriptTrace
