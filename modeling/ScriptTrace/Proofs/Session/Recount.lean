import ScriptTrace.Proofs.Session.Drive

/-!
Observers that retell what they are told. What such an observer makes of an event is a function of
what it knows: `tell` says what it knows afterwards and what it puts out, and `recount` says so of a
whole story. When each event is retold in this way, as far as `allows` lets it be told, so are moves
(`Retells.follow`), and a list of calls leaves behind what is recounted of its route
(`Retells.drive`).
-/

set_option autoImplicit false
set_option relaxedAutoImplicit false

namespace ScriptTrace

variable {R O : Type}

/-- What an observer knows after a story and what it has put out, each event adding to both. -/
def recount (tell : R → Notice → R × List O) (q : R × List O) (told : List Notice) : R × List O :=
  told.foldl (fun q n ↦ ((tell q.1 n).1, q.2 ++ (tell q.1 n).2)) q

/-- Each event of a story may be told to an observer that was told those before it. -/
def Allowed (tell : R → Notice → R × List O) (allows : R → Notice → Prop) : R → List Notice → Prop
  | _, [] => True
  | r, n :: rest => allows r n ∧ Allowed tell allows (tell r n).1 rest

section Recount

variable {tell : R → Notice → R × List O} {allows : R → Notice → Prop} {q : R × List O}
  {told others : List Notice}

theorem recount_cons (n : Notice) : recount tell q (n :: told) =
    recount tell ((tell q.1 n).1, q.2 ++ (tell q.1 n).2) told := rfl

theorem recount_append : recount tell q (told ++ others) =
    recount tell (recount tell q told) others :=
  List.foldl_append

/-- What was put out before stays in front. -/
theorem recount_eq (r : R) (os : List O) : recount tell (r, os) told =
    ((recount tell (r, []) told).1, os ++ (recount tell (r, []) told).2) := by
  induction told generalizing r os with
  | nil => exact congrArg (Prod.mk r) (List.append_nil os).symm
  | cons n rest ih =>
    rw [recount_cons, recount_cons, ih, ih (tell r n).1 ([] ++ _), List.nil_append,
      List.append_assoc]

/-- What is known does not depend on what was put out before. -/
theorem fst_recount : (recount tell q told).1 = (recount tell (q.1, []) told).1 := by
  obtain ⟨r, os⟩ := q
  rw [recount_eq]

/-- What is put out of a story, the first event apart. -/
theorem snd_recount_cons (r : R) (n : Notice) : (recount tell (r, []) (n :: told)).2 =
    (tell r n).2 ++ (recount tell ((tell r n).1, []) told).2 := by
  rw [recount_cons, List.nil_append, recount_eq]

/-- A story may be told if each event of it may be told after those before it. -/
theorem allowed_of_cut {r : R} (h : ∀ front n back, told = front ++ n :: back →
      allows (recount tell (r, []) front).1 n) : Allowed tell allows r told := by
  induction told generalizing r with
  | nil => trivial
  | cons n rest ih =>
    refine ⟨h [] n rest rfl, ih fun front n' back hcut ↦ ?_⟩
    have hfront := h (n :: front) n' back (by rw [hcut, List.cons_append])
    rwa [recount_cons, fst_recount] at hfront

theorem allowed_of_forall (h : ∀ r n, allows r n) (r : R) : Allowed tell allows r told :=
  allowed_of_cut fun _ n _ _ ↦ h _ n

end Recount

/-- An observer retells events: from a state that holds what is known and what was put out, it comes
to one that holds what an event adds to both. -/
structure Observer.Retells {σ : Type} (o : Observer σ) (tell : R → Notice → R × List O)
    (allows : R → Notice → Prop) (holds : R × List O → σ → Prop) : Prop where
  notice : ∀ q n host, allows q.1 n → holds q host →
    Succeeds (o.notice n.1 n.2) host fun _ ↦ holds (recount tell q [n])

namespace Observer.Retells

section Follow

variable {σ : Type} {o : Observer σ} {tell : R → Notice → R × List O}
  {allows : R → Notice → Prop} {holds : R × List O → σ → Prop}
  (hretells : o.Retells tell allows holds)
include hretells

/-- Assumes: events that may be told one after the other. The observer does not fail at them, and
what it comes to is recounted of them. -/
theorem hear {q : R × List O} {host : σ} {told : List Notice}
    (hallowed : Allowed tell allows q.1 told) (hholds : holds q host) :
    Succeeds (o.hear told) host fun _ ↦ holds (recount tell q told) := by
  induction told generalizing q host with
  | nil => exact .pure hholds
  | cons n rest ih =>
    rw [Allowed] at hallowed
    apply (hretells.notice q n host hallowed.1 hholds).bind
    intro _ host₁ hholds₁
    exact ih hallowed.2 hholds₁

theorem follow {M : Type} [Machine M] {q : R × List O} {host : σ} {m : M} {t : Turn M}
    (hallowed : Allowed tell allows q.1 (t.notices m)) (hholds : holds q host) :
    Succeeds (o.follow m t) host fun _ ↦ holds (recount tell q (t.notices m)) := by
  rw [← o.hear_notices]
  exact hretells.hear hallowed hholds

end Follow

/-- Assumes: an observer that retells events, and a condition on what was told so far and the
machine, under which loads and turns may be told and which these preserve. No call fails. What the
calls leave behind is where the observer comes to when it is told of their route, and is recounted
of that. -/
theorem drive {M ρ τ : Type} [Machine M] {o : Observer (ρ × τ)} {tell : R → Notice → R × List O}
    {allows : R → Notice → Prop} {holds : R × List O → ρ × τ → Prop}
    (hretells : o.Retells tell allows holds) {overrides : Overrides} {q : R × List O}
    {fits : List Notice → M → Prop}
    (hload : ∀ told m code, fits told m →
      Allowed tell allows (recount tell q told).1 ((Machine.load code m).notices m) ∧
        fits (told ++ (Machine.load code m).notices m) (Machine.load code m).next)
    (hturn : ∀ told m t, fits told m → Machine.turn overrides m = some t →
      Allowed tell allows (recount tell q told).1 (t.notices m) ∧
        fits (told ++ t.notices m) t.next)
    {e : Engine M ρ τ} (he : e.Watches o overrides) {t : τ} (hfits : fits [] e.session.machine)
    (hholds : holds q (e.recorder, t)) (calls : List Call) :
    Succeeds (Engine.drive calls) (e, t) fun ended next ↦ next.1.Watches o overrides ∧
      ∃ told, Route overrides calls ended e.session.machine told next.1.session.machine ∧
        o.hear told (e.recorder, t) = .ok () (next.1.recorder, next.2) ∧
        fits told next.1.session.machine ∧
        holds (recount tell q told) (next.1.recorder, next.2) := by
  let inv (told : List Notice) (m : M) (host : ρ × τ) : Prop :=
    fits told m ∧ holds (recount tell q told) host
  have hmove (told : List Notice) (m : M) (host : ρ × τ) (t : Turn M) (hinv : inv told m host)
      (hnext : Allowed tell allows (recount tell q told).1 (t.notices m) ∧
        fits (told ++ t.notices m) t.next) :
      Succeeds (o.follow m t) host fun _ ↦ inv (told ++ t.notices m) t.next := by
    refine (hretells.follow hnext.1 hinv.2).mono fun _ host' hholds' ↦ ⟨hnext.2, ?_⟩
    rwa [recount_append]
  have hbegin : inv [] e.session.machine (e.recorder, t) := ⟨hfits, hholds⟩
  exact he.drive_hears
    (fun told m host code hinv ↦ hmove told m host _ hinv (hload told m code hinv.1))
    (fun told m host t hinv hnext ↦ hmove told m host t hinv (hturn told m t hinv.1 hnext))
    hbegin calls

end Observer.Retells

end ScriptTrace
