import ScriptTrace.Proofs.Session.Attendance

/-!
The life of an engine. A host makes calls on it and on the session underneath, subscribes observers
of its own, and disposes of it or drops it, in any order and whatever fails (`Use`). While an engine
is open its recorder is one of the observers; the first disposal takes it from among them and closes
what it writes to (`Open.dispose`). From then on the recorder is told of nothing, and calls on the
engine change nothing (`Retired.performAll`, `Retired.refuses`).
-/

set_option autoImplicit false
set_option relaxedAutoImplicit false

namespace ScriptTrace

/-- What a host does with an engine. -/
inductive Use (τ : Type) where
  | call (c : Call)
  /-- A call on the session underneath. -/
  | beneath (c : Call)
  | subscribe (o : Observer τ)
  | dispose
  | drop

namespace Use

variable {σ τ : Type}

/-- The engine is disposed of. -/
def disposes : Use τ → Bool
  | dispose => true
  | drop => true
  | _ => false

/-- The same for observers that see the second component only. -/
def widen : Use τ → Use (σ × τ)
  | call c => .call c
  | beneath c => .beneath c
  | subscribe o => .subscribe o.onSecond
  | dispose => .dispose
  | drop => .drop

/-- The observers that are subscribed, under the numbers they get from `n` on. -/
def joined : Nat → List (Use τ) → List (Nat × Observer τ)
  | _, [] => []
  | n, subscribe o :: rest => (n, o) :: joined (n + 1) rest
  | n, _ :: rest => joined n rest

theorem joined_append (n : Nat) (us vs : List (Use τ)) :
    joined n (us ++ vs) = joined n us ++ joined (n + (joined n us).length) vs := by
  induction us generalizing n with
  | nil => rfl
  | cons u rest ih =>
    cases u with
    | subscribe o =>
      rw [List.cons_append, joined, joined, ih, List.length_cons, Nat.add_right_comm, Nat.add_assoc]
      rfl
    | _ => exact ih n

theorem disposes_widen (u : Use τ) : (u.widen : Use (σ × τ)).disposes = u.disposes := by
  cases u <;> rfl

theorem joined_widen (n : Nat) (us : List (Use τ)) :
    joined n (us.map widen : List (Use (σ × τ))) = lifted (joined n us) := by
  induction us generalizing n with
  | nil => rfl
  | cons u rest ih =>
    cases u with
    | subscribe o =>
      rw [List.map_cons, widen, joined, joined, ih]
      rfl
    | _ => exact ih n

end Use

namespace Engine

variable {M ρ τ : Type}

section Perform

variable [Machine M] (close : EStateM TracerError (ρ × τ) Unit)

/-- Do what a host does with an engine. -/
def perform : Use τ → Act M ρ τ Unit
  | .call c => make c
  | .beneath c => onSession (Session.make c)
  | .subscribe o => modify fun (e, t) ↦
    ({ e with session := (e.session.subscribe o.onSecond).2 }, t)
  | .dispose => dispose close
  | .drop => fun (e, t) ↦ .ok () (drop close e t)

/-- Do one thing after the other, whatever comes of it. -/
def performAll (uses : List (Use τ)) (s : Engine M ρ τ × τ) : Engine M ρ τ × τ :=
  uses.foldl (fun s u ↦ leaves (perform close u) s) s

end Perform

/-! ### Open engines -/

/-- An engine is open, and conditions hold on its recorder and on the outside state. -/
structure Open (o : Observer (ρ × τ)) (first : ρ → Prop) (second : τ → Prop) (n : Nat)
    (others : List (Nat × Observer τ)) (s : Engine M ρ τ × τ) : Prop where
  attends : s.1.Attends o others
  next_eq : s.1.session.nextSubscription = n
  recorder : first s.1.recorder
  outside : second s.2

/-- An engine that was just built over a session. -/
theorem open_start (o : Observer (ρ × τ)) {recorder : ρ} (checker : Option WitnessChecker)
    {session : Session M τ} (hnumbered : session.Numbered) {first : ρ → Prop} {second : τ → Prop}
    (hfirst : first recorder) {t : τ} (hsecond : second t) :
    Open o first second (session.nextSubscription + 1) session.observers
      (start o recorder checker session, t) where
  attends := attends_start o recorder checker hnumbered
  next_eq := by cases checker <;> rfl
  recorder := hfirst
  outside := hsecond

section Open

variable [Machine M] (close : EStateM TracerError (ρ × τ) Unit) {o : Observer (ρ × τ)}
  {first : ρ → Prop} {second : τ → Prop} {n : Nat} {others : List (Nat × Observer τ)}
  {s : Engine M ρ τ × τ}
  (ho : o.Keeps fun host ↦ first host.1 ∧ second host.2)
include ho

theorem Open.stands (hs : Open o first second n others s)
    (hothers : ∀ p ∈ others, p.2.Keeps second) (c : Call) :
    Ends (onSession (Session.make c)) s (fun _ ↦ Open o first second n others)
      fun _ ↦ Open o first second n others := by
  obtain ⟨e, t⟩ := s
  obtain ⟨hattends, hnext, hfirst, hsecond⟩ := hs
  have hkeeps : ∀ p ∈ e.session.observers,
      p.2.Keeps fun host ↦ first host.1 ∧ second host.2 := by
    obtain ⟨k, front, back, -, rfl, hobservers, -⟩ := hattends
    intro p hp
    rw [hobservers, List.mem_append, List.mem_cons] at hp
    rcases hp with hfront | rfl | hback
    · exact lifted_keeps (fun q hq ↦ hothers q (List.mem_append_left _ hq)) first p hfront
    · exact ho
    · exact lifted_keeps (fun q hq ↦ hothers q (List.mem_append_right _ hq)) first p hback
  have hopen {next : Engine M ρ τ × τ}
      (h : e.Stands (fun _ host ↦ first host.1 ∧ second host.2) next) :
      Open o first second n others next := by
    have hattends' := h.attends hattends
    obtain ⟨_, t'⟩ := next
    obtain ⟨m, r, rfl, hfirst', hsecond'⟩ := h
    exact ⟨hattends', hnext, hfirst', hsecond'⟩
  exact (onSession_stands (Session.make_keeps hkeeps ⟨hfirst, hsecond⟩ c)).mono
    (fun _ _ h ↦ hopen h) fun _ _ h ↦ hopen h

theorem Open.perform (hs : Open o first second n others s)
    (hothers : ∀ p ∈ others, p.2.Keeps second) {u : Use τ} (hu : u.disposes = false) :
    Open o first second (n + (Use.joined n [u]).length) (others ++ Use.joined n [u])
      (leaves (perform close u) s) := by
  have hsame (h : Use.joined n [u] = []) (hends : Ends (Engine.perform close u) s
      (fun _ ↦ Open o first second n others) fun _ ↦ Open o first second n others) :
      Open o first second (n + (Use.joined n [u]).length) (others ++ Use.joined n [u])
        (leaves (Engine.perform close u) s) := by
    rw [h, List.append_nil]
    exact hends.leaves
  cases u with
  | call c =>
    refine hsame rfl ?_
    have hends := hs.stands ho hothers c
    unfold Ends at hends ⊢
    rwa [Engine.perform, make_of_open hs.attends.not_disposed]
  | beneath c => exact hsame rfl (hs.stands ho hothers c)
  | subscribe other =>
    obtain ⟨e, t⟩ := s
    obtain ⟨⟨k, front, back, hsubscription, rfl, hobservers, hne, hlt⟩, rfl, hfirst, hsecond⟩ := hs
    refine ⟨⟨k, front, back ++ [(e.session.nextSubscription, other)], hsubscription,
      List.append_assoc _ _ _, ?_, ?_, Nat.lt_succ_of_lt hlt⟩, rfl, hfirst, hsecond⟩
    · change e.session.observers ++ _ = _
      rw [hobservers, lifted_append]
      simp [lifted]
    · intro p hp
      rcases List.mem_append.mp hp with hold | hnew
      · exact hne p hold
      · rw [Use.joined, Use.joined, List.mem_singleton] at hnew
        rw [hnew]
        exact Nat.ne_of_gt hlt
  | dispose => cases hu
  | drop => cases hu

theorem Open.performAll (hs : Open o first second n others s)
    (uses : List (Use τ)) (hothers : ∀ p ∈ others ++ Use.joined n uses, p.2.Keeps second)
    (huses : ∀ u ∈ uses, u.disposes = false) :
    Open o first second (n + (Use.joined n uses).length) (others ++ Use.joined n uses)
      (performAll close uses s) := by
  induction uses generalizing s n others with
  | nil =>
    rw [Use.joined, List.append_nil]
    exact hs
  | cons u rest ih =>
    have hjoined : Use.joined n (u :: rest) =
        Use.joined n [u] ++ Use.joined (n + (Use.joined n [u]).length) rest :=
      Use.joined_append n [u] rest
    rw [hjoined, ← List.append_assoc] at hothers ⊢
    rw [List.length_append, ← Nat.add_assoc]
    have hfirst := hs.perform close ho
      (fun p hp ↦ hothers p (List.mem_append_left _ (List.mem_append_left _ hp)))
      (huses u List.mem_cons_self)
    exact ih hfirst hothers fun v hv ↦ huses v (List.mem_cons_of_mem u hv)

end Open

/-! ### Disposal -/

/-- An engine is disposed of: the observers of its session are those of the host. -/
structure Retired (n : Nat) (others : List (Nat × Observer τ)) (e : Engine M ρ τ) : Prop where
  subscription : e.subscription = none
  observers : e.session.observers = lifted others
  next_eq : e.session.nextSubscription = n

/-- Taking an observer back leaves the others where they are. -/
theorem unsubscribe_of_attends {e : Engine M ρ τ} {o : Observer (ρ × τ)} {k : Nat}
    {front back : List (Nat × Observer τ)}
    (hobservers : e.session.observers = lifted front ++ (k, o) :: lifted back)
    (hne : ∀ p ∈ front ++ back, p.1 ≠ k) :
    (e.session.unsubscribe k).2.observers = lifted (front ++ back) := by
  have hkept {others : List (Nat × Observer τ)} (hothers : ∀ p ∈ others, p.1 ≠ k) :
      (lifted others : List (Nat × Observer (ρ × τ))).filter (fun p ↦ p.1 != k) =
        lifted others := by
    refine List.filter_eq_self.mpr fun p hp ↦ ?_
    obtain ⟨q, hq, rfl⟩ := List.mem_map.mp hp
    simpa using hothers q hq
  rw [Session.unsubscribe]
  simp only [hobservers, List.filter_append, List.filter_cons, bne_self_eq_false,
    Bool.false_eq_true, if_false]
  rw [hkept fun p hp ↦ hne p (List.mem_append_left _ hp),
    hkept fun p hp ↦ hne p (List.mem_append_right _ hp), lifted_append]

/-- Dropping an engine is disposing of it. -/
theorem leaves_perform_of_disposes [Machine M] (close : EStateM TracerError (ρ × τ) Unit)
    {u : Use τ} (hu : u.disposes = true) (s : Engine M ρ τ × τ) :
    leaves (perform close u) s = leaves (dispose close) s := by
  cases u with
  | dispose => rfl
  | drop =>
    obtain ⟨e, t⟩ := s
    simp only [leaves, perform, drop]
    cases dispose close (e, t) <;> rfl
  | _ => cases hu

section Dispose

variable [Machine M] {close : EStateM TracerError (ρ × τ) Unit} {o : Observer (ρ × τ)}
  {first : ρ → Prop} {second : τ → Prop} {n : Nat} {others : List (Nat × Observer τ)}
  {s : Engine M ρ τ × τ}

omit [Machine M] in
/-- Assumes: what is closed satisfies a condition, whatever comes of closing it. The first disposal
takes the recorder from among the observers, and leaves the condition true. -/
theorem Open.dispose (hs : Open o first second n others s) (closed : ρ × τ → Prop)
    (hclose : ∀ host, first host.1 → second host.2 →
      Ends close host (fun _ ↦ closed) fun _ ↦ closed) :
    Ends (Engine.dispose close) s
      (fun _ next ↦ next.1.Retired n others ∧ closed (next.1.recorder, next.2))
      fun _ next ↦ next.1.Retired n others ∧ closed (next.1.recorder, next.2) := by
  obtain ⟨e, t⟩ := s
  obtain ⟨⟨k, front, back, hsubscription, rfl, hobservers, hne, -⟩, rfl, hfirst, hsecond⟩ := hs
  replace hsubscription : e.subscription = some k := hsubscription
  refine .get_bind ?_
  simp only [hsubscription]
  generalize hsession : (if e.witnessOverride = true then
    ((e.session.unsubscribe k).2.restoreWitness).2 else (e.session.unsubscribe k).2) = session
  have hretired : session.observers = lifted (front ++ back) ∧
      session.nextSubscription = e.session.nextSubscription := by
    rw [← hsession, ← unsubscribe_of_attends hobservers hne]
    split <;> exact ⟨rfl, rfl⟩
  refine .modify_bind ?_
  have hrun := hclose (e.recorder, t) hfirst hsecond
  unfold Ends onSession onSecond at *
  dsimp only
  cases hclosed : close (e.recorder, t) with
  | ok a next =>
    rw [hclosed] at hrun
    exact ⟨⟨rfl, hretired.1, hretired.2⟩, hrun⟩
  | error err next =>
    rw [hclosed] at hrun
    exact ⟨⟨rfl, hretired.1, hretired.2⟩, hrun⟩

/-- The first disposal, or dropping the engine. -/
theorem Open.perform_disposal (hs : Open o first second n others s) (closed : ρ × τ → Prop)
    (hclose : ∀ host, first host.1 → second host.2 →
      Ends close host (fun _ ↦ closed) fun _ ↦ closed) {u : Use τ} (hu : u.disposes = true) :
    (leaves (Engine.perform close u) s).1.Retired n others ∧
      closed ((leaves (Engine.perform close u) s).1.recorder, (leaves (Engine.perform close u) s).2)
    := by
  have hdispose := (hs.dispose closed hclose).leaves
  rwa [leaves_perform_of_disposes close hu]

end Dispose

/-! ### Retired engines -/

section Retired

variable [Machine M] (close : EStateM TracerError (ρ × τ) Unit) {n : Nat}
  {others : List (Nat × Observer τ)} {s : Engine M ρ τ × τ}

/-- A retired engine refuses calls, has nothing more to dispose of, and does not change. -/
structure Refuses (close : EStateM TracerError (ρ × τ) Unit) (s : Engine M ρ τ × τ) : Prop where
  load : ∀ code, Engine.load code s = .error .sessionClosed s
  execute : ∀ budget, Engine.execute budget s = .error .sessionClosed s
  dispose : Engine.dispose close s = .ok () s
  drop : Engine.drop close s.1 s.2 = s

theorem Retired.refuses (hs : s.1.Retired n others) : Refuses close s := by
  obtain ⟨e, t⟩ := s
  have hdisposed : e.isDisposed = true := Option.isNone_iff_eq_none.mpr hs.subscription
  have hdispose : Engine.dispose close (e, t) = .ok () (e, t) :=
    dispose_of_disposed hdisposed close t
  refine ⟨fun code ↦ bind_error (ensureOpen_of_disposed hdisposed) _,
    fun budget ↦ bind_error (ensureOpen_of_disposed hdisposed) _, hdispose, ?_⟩
  rw [Engine.drop, hdispose]

/-- A retired engine stays so, its recorder stays as it is, and so does whatever the observers of
the host keep. -/
theorem Retired.perform (hs : s.1.Retired n others) (second : τ → Prop)
    (hothers : ∀ p ∈ others, p.2.Keeps second) (hsecond : second s.2) (u : Use τ) :
    let next := leaves (Engine.perform close u) s
    next.1.Retired (n + (Use.joined n [u]).length) (others ++ Use.joined n [u]) ∧
      next.1.recorder = s.1.recorder ∧ second next.2 := by
  have hrefuses := hs.refuses close
  obtain ⟨e, t⟩ := s
  have hstays (hjoined : Use.joined n [u] = [])
      (hsame : leaves (Engine.perform close u) (e, t) = (e, t)) :
      (leaves (Engine.perform close u) (e, t)).1.Retired (n + (Use.joined n [u]).length)
        (others ++ Use.joined n [u]) ∧
      (leaves (Engine.perform close u) (e, t)).1.recorder = e.recorder ∧
      second (leaves (Engine.perform close u) (e, t)).2 := by
    rw [hjoined, hsame, List.append_nil]
    exact ⟨hs, rfl, hsecond⟩
  cases u with
  | call c =>
    refine hstays rfl ?_
    have hclosed : Engine.perform close (.call c) (e, t) = .error .sessionClosed (e, t) := by
      cases c with
      | load code => exact hrefuses.load code
      | execute budget => exact bind_error (hrefuses.execute budget) _
    rw [leaves, hclosed]
  | beneath c =>
    have hkeeps : ∀ p ∈ e.session.observers,
        p.2.Keeps fun host ↦ host.1 = e.recorder ∧ second host.2 := by
      intro p hp
      rw [hs.observers] at hp
      exact lifted_keeps hothers (· = e.recorder) p hp
    have hends := (onSession_stands (Session.make_keeps hkeeps ⟨rfl, hsecond⟩ c)).leaves
    obtain ⟨m, r, hnext, rfl, hsecond'⟩ := hends
    have hjoined : Use.joined n [(.beneath c : Use τ)] = [] := rfl
    rw [hjoined, List.append_nil]
    refine ⟨?_, ?_, hsecond'⟩
    · rw [Engine.perform, hnext]
      exact ⟨hs.subscription, hs.observers, hs.next_eq⟩
    · rw [Engine.perform, hnext]
  | subscribe other =>
    have hnext := hs.next_eq
    subst hnext
    refine ⟨⟨hs.subscription, ?_, rfl⟩, rfl, hsecond⟩
    change e.session.observers ++ _ = _
    rw [hs.observers, lifted_append]
    rfl
  | dispose =>
    refine hstays rfl ?_
    have hdisposed : Engine.perform close .dispose (e, t) = .ok () (e, t) := hrefuses.dispose
    rw [leaves, hdisposed]
  | drop => exact hstays rfl hrefuses.drop

theorem Retired.performAll (hs : s.1.Retired n others) (second : τ → Prop) (uses : List (Use τ))
    (hothers : ∀ p ∈ others ++ Use.joined n uses, p.2.Keeps second) (hsecond : second s.2) :
    let next := performAll close uses s
    next.1.Retired (n + (Use.joined n uses).length) (others ++ Use.joined n uses) ∧
      next.1.recorder = s.1.recorder ∧ second next.2 := by
  induction uses generalizing s n others with
  | nil =>
    rw [Use.joined, List.append_nil]
    exact ⟨hs, rfl, hsecond⟩
  | cons u rest ih =>
    have hjoined : Use.joined n (u :: rest) =
        Use.joined n [u] ++ Use.joined (n + (Use.joined n [u]).length) rest :=
      Use.joined_append n [u] rest
    rw [hjoined, ← List.append_assoc] at hothers ⊢
    rw [List.length_append, ← Nat.add_assoc]
    obtain ⟨hretired, hrecorder, hsecond'⟩ := hs.perform close second
      (fun p hp ↦ hothers p (List.mem_append_left _ (List.mem_append_left _ hp))) hsecond u
    obtain ⟨hretired', hrecorder', hsecond''⟩ := ih hretired hothers hsecond'
    exact ⟨hretired', hrecorder'.trans hrecorder, hsecond''⟩

end Retired

/-! ### A whole life -/

section Life

variable {κ σ : Type} [Machine M]

/-- The life of an engine through three of its states: before the first disposal, after it, and any
time later. The outside state has a ledger of the calls that the recorder made, and a part for the
observers of the host. -/
structure Life (close : EStateM TracerError (ρ × κ × σ) Unit) (flushes : κ → Nat)
    (others : List (Nat × Observer σ)) (s₁ s₂ s₃ : Engine M ρ (κ × σ) × κ × σ) : Prop where
  unflushed : flushes s₁.2.1 = 0
  flushed : flushes s₂.2.1 = 1
  ledger_eq : s₃.2.1 = s₂.2.1
  recorder_eq : s₃.1.recorder = s₂.1.recorder
  /-- Nothing but the observers of the host changes their part. -/
  outside : ∀ inv : σ → Prop, (∀ p ∈ others, p.2.Keeps inv) → inv s₂.2.2 → inv s₃.2.2
  refuses : Refuses close s₃
  /-- They stay subscribed in their order, under their numbers. -/
  observers_eq : s₃.1.session.observers = lifted (lifted others)

/-- An engine is closed at its first disposal, once, and does nothing afterwards. -/
def ClosesOnce (close : EStateM TracerError (ρ × κ × σ) Unit) (flushes : κ → Nat) (n : Nat)
    (others : List (Nat × Observer σ)) (s : Engine M ρ (κ × σ) × κ × σ) : Prop :=
  ∀ (early : List (Use σ)) (disposal : Use σ) (later : List (Use σ)),
    (∀ u ∈ early, u.disposes = false) → disposal.disposes = true →
    let s₁ := performAll close (early.map .widen) s
    let s₂ := leaves (perform close disposal.widen) s₁
    let s₃ := performAll close (later.map .widen) s₂
    Life close flushes (others ++ Use.joined n (early ++ disposal :: later)) s₁ s₂ s₃

/-- A retired engine over a ledger, after whatever a host does with it. -/
theorem Retired.performAll_widen (close : EStateM TracerError (ρ × κ × σ) Unit) {n : Nat}
    {others : List (Nat × Observer σ)} {s : Engine M ρ (κ × σ) × κ × σ}
    (hs : s.1.Retired n (lifted others)) (uses : List (Use σ)) (second : κ × σ → Prop)
    (hothers : ∀ p ∈ lifted (others ++ Use.joined n uses), p.2.Keeps second)
    (hsecond : second s.2) :
    let next := Engine.performAll close (uses.map .widen) s
    next.1.Retired (n + (Use.joined n uses).length) (lifted (others ++ Use.joined n uses)) ∧
      next.1.recorder = s.1.recorder ∧ second next.2 := by
  have hlater := hs.performAll close second (uses.map .widen) (by
    rwa [Use.joined_widen, ← lifted_append]) hsecond
  rwa [Use.joined_widen, length_lifted, ← lifted_append] at hlater

/-- Assumes: an open engine whose recorder keeps a condition on itself and on the ledger, under
which nothing was flushed and closing flushes once, whatever comes of it. -/
theorem Open.closesOnce {close : EStateM TracerError (ρ × κ × σ) Unit} {flushes : κ → Nat}
    {o : Observer (ρ × κ × σ)} {first : ρ → Prop} {second : κ → Prop} {n : Nat}
    {others : List (Nat × Observer σ)} {s : Engine M ρ (κ × σ) × κ × σ}
    (hs : Open o first (fun t ↦ second t.1) n (lifted others) s)
    (ho : o.Keeps fun host ↦ first host.1 ∧ second host.2.1)
    (hunflushed : ∀ c, second c → flushes c = 0)
    (hclose : ∀ host : ρ × κ × σ, first host.1 → second host.2.1 →
      Ends close host (fun _ host' ↦ flushes host'.2.1 = 1) fun _ host' ↦ flushes host'.2.1 = 1) :
    ClosesOnce close flushes n others s := by
  intro early disposal later hearly hdisposal s₁ s₂ s₃
  have hopen : Open o first (fun t ↦ second t.1) (n + (Use.joined n early).length)
      (lifted (others ++ Use.joined n early)) s₁ := by
    have hearly' : ∀ u ∈ early.map (Use.widen : Use σ → Use (κ × σ)), u.disposes = false := by
      intro u hu
      obtain ⟨v, hv, rfl⟩ := List.mem_map.mp hu
      rw [v.disposes_widen]
      exact hearly v hv
    have hall := hs.performAll close ho (early.map .widen) (by
      rw [Use.joined_widen, ← lifted_append]
      exact lifted_keeps_first _ second) hearly'
    rwa [Use.joined_widen, length_lifted, ← lifted_append] at hall
  obtain ⟨hretired, hflushed⟩ := hopen.perform_disposal
    (fun host ↦ flushes host.2.1 = 1) hclose (disposal.disposes_widen.trans hdisposal)
  have hjoined : Use.joined n (early ++ disposal :: later) = Use.joined n early ++
      Use.joined (n + (Use.joined n early).length) later := by
    rw [Use.joined_append]
    cases disposal with
    | dispose => rfl
    | drop => rfl
    | _ => cases hdisposal
  rw [hjoined, ← List.append_assoc]
  obtain ⟨hretired', hrecorder, hledger⟩ := hretired.performAll_widen close later
    (fun t ↦ t.1 = s₂.2.1) (lifted_keeps_first _ (· = s₂.2.1)) rfl
  exact {
    unflushed := hunflushed _ hopen.outside
    flushed := hflushed
    ledger_eq := hledger
    recorder_eq := hrecorder
    outside := fun inv hothers hinv ↦ (hretired.performAll_widen close later
      (fun t ↦ inv t.2) (lifted_keeps_second hothers) hinv).2.2
    refuses := hretired'.refuses close
    observers_eq := hretired'.observers }

end Life

end Engine

end ScriptTrace
