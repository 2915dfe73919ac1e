import ScriptTrace.Proofs.Session.Drive

/-!
Sessions with any observers, each of which may fail. What a session does to the state of its
observers is what reporting does to it: `Session.Fares` says of a turn which condition holds behind
it, and which one holds of the error and of where the session stands after a failure, and
`Session.Bears` says it without the error. These are the conditions at the end of a call
(`Session.Fares.move`, `Session.execute_of_fares`). A condition that every observer keeps is borne
by every turn (`Session.bears_of_keeps`).
-/

set_option autoImplicit false
set_option relaxedAutoImplicit false

namespace ScriptTrace

/-- A condition that every operation of a list preserves without failing. -/
theorem Succeeds.forM_of_mem {ε σ γ : Type} {f : γ → EStateM ε σ PUnit} {P : σ → Prop}
    {ys : List γ} (h : ∀ y ∈ ys, ∀ s, P s → Succeeds (f y) s fun _ ↦ P) {s : σ} (hs : P s) :
    Succeeds (ys.forM f) s fun _ ↦ P := by
  induction ys generalizing s with
  | nil => exact .pure hs
  | cons y rest ih =>
    refine (h y List.mem_cons_self s hs).bind fun _ s' hs' ↦ ?_
    exact ih (fun z hz ↦ h z (List.mem_cons_of_mem y hz)) hs'

/-- A condition that every operation of a list preserves. -/
theorem Ends.forM_of_mem {ε σ γ : Type} {f : γ → EStateM ε σ PUnit} {P : σ → Prop}
    {Q : ε → σ → Prop} {ys : List γ} (h : ∀ y ∈ ys, ∀ s, P s → Ends (f y) s (fun _ ↦ P) Q) {s : σ}
    (hs : P s) : Ends (ys.forM f) s (fun _ ↦ P) Q := by
  induction ys generalizing s with
  | nil => exact .pure hs
  | cons y rest ih =>
    refine (h y List.mem_cons_self s hs).bind fun _ s' hs' ↦ ?_
    exact ih (fun z hz ↦ h z (List.mem_cons_of_mem y hz)) hs'

/-- An observer keeps a condition on its state, whatever it is told and whatever comes of it. -/
def Observer.Keeps {σ : Type} (o : Observer σ) (inv : σ → Prop) : Prop :=
  ∀ view event host, inv host → Ends (o.notice view event) host (fun _ ↦ inv) fun _ ↦ inv

theorem Observer.keeps_true {σ : Type} (o : Observer σ) : o.Keeps fun _ ↦ True :=
  fun _ _ _ _ ↦ .of_cases (fun _ _ _ ↦ trivial) fun _ _ _ ↦ trivial

/-- An observer that sees the second component only keeps what it keeps of it, along with any
condition on the first one. -/
theorem Observer.Keeps.onSecond {σ τ : Type} {o : Observer τ} {inv : τ → Prop} (h : o.Keeps inv)
    (first : σ → Prop) :
    (o.onSecond : Observer (σ × τ)).Keeps fun host ↦ first host.1 ∧ inv host.2 := by
  rintro view event ⟨a, t⟩ ⟨hfirst, hinv⟩
  refine .onSecond ((h view event t hinv).mono ?_ ?_)
  · exact fun _ _ hinv' ↦ ⟨hfirst, hinv'⟩
  · exact fun _ _ hinv' ↦ ⟨hfirst, hinv'⟩

/-- It keeps any condition on the first component. -/
theorem Observer.onSecond_keeps {σ τ : Type} (o : Observer τ) (first : σ → Prop) :
    (o.onSecond : Observer (σ × τ)).Keeps fun host ↦ first host.1 := by
  rintro view event ⟨a, t⟩ hfirst
  exact .onSecond (.of_cases (fun _ _ _ ↦ hfirst) fun _ _ _ ↦ hfirst)

/-- The observers that see the second component, in a state with both. -/
def lifted {σ τ : Type} (others : List (Nat × Observer τ)) : List (Nat × Observer (σ × τ)) :=
  others.map fun p ↦ (p.1, p.2.onSecond)

theorem lifted_append {σ τ : Type} (others more : List (Nat × Observer τ)) :
    (lifted (others ++ more) : List (Nat × Observer (σ × τ))) = lifted others ++ lifted more :=
  List.map_append

theorem length_lifted {σ τ : Type} (others : List (Nat × Observer τ)) :
    (lifted others : List (Nat × Observer (σ × τ))).length = others.length :=
  List.length_map _

theorem lifted_keeps_first {κ σ : Type} (others : List (Nat × Observer σ)) (first : κ → Prop) :
    ∀ p ∈ (lifted others : List (Nat × Observer (κ × σ))), p.2.Keeps fun t ↦ first t.1 := by
  intro p hp
  obtain ⟨q, -, rfl⟩ := List.mem_map.mp hp
  exact q.2.onSecond_keeps first

theorem lifted_keeps {σ τ : Type} {others : List (Nat × Observer τ)} {second : τ → Prop}
    (hothers : ∀ p ∈ others, p.2.Keeps second) (first : σ → Prop) :
    ∀ p ∈ (lifted others : List (Nat × Observer (σ × τ))),
      p.2.Keeps fun host ↦ first host.1 ∧ second host.2 := by
  intro p hp
  obtain ⟨q, hq, rfl⟩ := List.mem_map.mp hp
  exact (hothers q hq).onSecond first

theorem lifted_keeps_second {σ τ : Type} {others : List (Nat × Observer τ)} {second : τ → Prop}
    (hothers : ∀ p ∈ others, p.2.Keeps second) :
    ∀ p ∈ (lifted others : List (Nat × Observer (σ × τ))), p.2.Keeps fun host ↦ second host.2 := by
  intro p hp view event host hsecond
  refine (lifted_keeps hothers (fun _ ↦ True) p hp view event host ⟨trivial, hsecond⟩).mono ?_ ?_
  · exact fun _ _ h ↦ h.2
  · exact fun _ _ h ↦ h.2

/-- An observer tallies what it is told in the first component of a state, whatever comes of it. -/
def Observer.Tallies {ρ τ : Type} (o : Observer (ρ × τ)) (inv : List Notice → ρ → Prop) : Prop :=
  ∀ told view event host, inv told host.1 → Ends (o.notice view event) host
    (fun _ next ↦ inv (told ++ [(view, event)]) next.1)
    fun _ next ↦ inv (told ++ [(view, event)]) next.1

namespace Session

variable {M σ : Type} {s : Session M σ} {host : σ}

/-- Of a session only the machine has changed, and a condition on it and the observers holds. -/
def Stands (s : Session M σ) (inv : M → σ → Prop) (next : Session M σ × σ) : Prop :=
  ∃ m, next.1 = { s with machine := m } ∧ inv m next.2

theorem announce_of_report {view : View} {events : List Event} {P : Session M σ × σ → Prop}
    {Q : TracerError → Session M σ × σ → Prop}
    (h : Ends (s.report view events) host (fun _ host' ↦ P (s, host'))
      fun err host' ↦ Q err (s, host')) :
    Ends (announce view events) (s, host) (fun _ ↦ P) Q :=
  .get_bind (.onSecond h)

variable [Machine M] {P Q : M → σ → Prop} {R : TracerError → M → σ → Prop}

/-- The observers of a session, which may fail, are told of a turn. One condition holds behind the
turn, and another one of the error and of where the session stands after a failure, behind the turn
or in front of it. -/
def Fares (s : Session M σ) (P : M → σ → Prop) (R : TracerError → M → σ → Prop) (t : Turn M)
    (host : σ) : Prop :=
  Ends (s.report (Machine.view s.machine) t.before.toList) host
    (fun _ host' ↦ Ends (s.report (Machine.view t.next) t.after) host'
      (fun _ ↦ P t.next) fun err ↦ R err t.next)
    fun err ↦ R err s.machine

/-- The same without a look at the error. -/
def Bears (s : Session M σ) (P Q : M → σ → Prop) (t : Turn M) (host : σ) : Prop :=
  Ends (s.report (Machine.view s.machine) t.before.toList) host
    (fun _ host' ↦ Ends (s.report (Machine.view t.next) t.after) host'
      (fun _ ↦ P t.next) fun _ ↦ Q t.next)
    fun _ ↦ Q s.machine

theorem Bears.fares {t : Turn M} (h : s.Bears P Q t host) : s.Fares P (fun _ ↦ Q) t host := h

theorem Fares.move {t : Turn M} (h : s.Fares P R t host) :
    Ends (move t) (s, host) (fun _ next ↦ next.1 = { s with machine := t.next } ∧ P t.next next.2)
      fun err ↦ s.Stands (R err) := by
  let moved (next : Session M σ × σ) : Prop :=
    next.1 = { s with machine := t.next } ∧ P t.next next.2
  let follows (next : Session M σ × σ) : Prop := next.1 = s ∧
    Ends (s.report (Machine.view t.next) t.after) next.2 (fun _ ↦ P t.next) fun err ↦ R err t.next
  have hbefore : Ends (announce (Machine.view s.machine) t.before.toList) (s, host)
      (fun _ ↦ follows) fun err ↦ s.Stands (R err) := by
    refine announce_of_report (h.mono ?_ ?_)
    · exact fun _ host' hafter ↦ ⟨rfl, hafter⟩
    · exact fun _ host' hstays ↦ ⟨s.machine, rfl, hstays⟩
  have hafter (host' : σ) (h : Ends (s.report (Machine.view t.next) t.after) host'
      (fun _ ↦ P t.next) fun err ↦ R err t.next) :
      Ends (announce (Machine.view t.next) t.after) ({ s with machine := t.next }, host')
        (fun _ ↦ moved) fun err ↦ s.Stands (R err) := by
    refine announce_of_report (h.mono ?_ ?_)
    · exact fun _ host'' hmoved ↦ ⟨rfl, hmoved⟩
    · exact fun _ host'' hfailed ↦ ⟨t.next, rfl, hfailed⟩
  refine .get_bind (hbefore.bind ?_)
  intro _ next hend
  obtain ⟨s', host'⟩ := next
  obtain ⟨hsame, hnext⟩ := hend
  obtain rfl : s' = s := hsame
  exact .modify_bind (hafter host' hnext)

theorem Bears.move {t : Turn M} (h : s.Bears P Q t host) :
    Ends (move t) (s, host) (fun _ next ↦ next.1 = { s with machine := t.next } ∧ P t.next next.2)
      fun _ ↦ s.Stands Q :=
  h.fares.move

/-- Assumes: the session fares well on the next turn, if there is one. -/
theorem step_of_fares
    (hturn : ∀ t, Machine.turn s.overrides s.machine = some t → s.Fares P R t host)
    (hinv : P s.machine host) :
    Ends step (s, host) (fun _ ↦ s.Stands P) fun err ↦ s.Stands (R err) := by
  refine .get_bind ?_
  cases hnext : Machine.turn s.overrides s.machine with
  | none =>
    simp only [hnext]
    exact .pure ⟨s.machine, rfl, hinv⟩
  | some t =>
    simp only [hnext]
    refine (hturn t hnext).move.bind fun _ next hmoved ↦ ?_
    exact .pure ⟨t.next, hmoved⟩

/-- Assumes: a condition under which the session fares well on every turn. An execution leaves it
true, or the other one if it fails. -/
theorem execute_of_fares
    (hturn : ∀ m host t, P m host → Machine.turn s.overrides m = some t →
      ({ s with machine := m } : Session M σ).Fares P R t host)
    (hinv : P s.machine host) (budget : Nat) :
    Ends (execute budget) (s, host) (fun _ ↦ s.Stands P) fun err ↦ s.Stands (R err) := by
  induction budget generalizing s host with
  | zero => exact .pure ⟨s.machine, rfl, hinv⟩
  | succ budget ih =>
    refine (step_of_fares (fun t ↦ hturn s.machine host t hinv) hinv).bind ?_
    intro more next hnext
    obtain ⟨_, host'⟩ := next
    obtain ⟨m, rfl, hinv'⟩ := hnext
    split
    · exact ih (s := { s with machine := m }) hturn hinv'
    · exact .get_bind (.pure ⟨m, rfl, hinv'⟩)

/-- Assumes: a condition that every turn bears. An execution leaves it true, or the other one if it
fails. -/
theorem execute_of_bears
    (hturn : ∀ m host t, P m host → Machine.turn s.overrides m = some t →
      ({ s with machine := m } : Session M σ).Bears P Q t host)
    (hinv : P s.machine host) (budget : Nat) :
    Ends (execute budget) (s, host) (fun _ ↦ s.Stands P) fun _ ↦ s.Stands Q :=
  execute_of_fares (fun m host t hinv hnext ↦ (hturn m host t hinv hnext).fares) hinv budget

/-! ### Conditions that every observer keeps -/

section Keeps

variable {inv : σ → Prop} (hobservers : ∀ o ∈ s.observers, o.2.Keeps inv) (hinv : inv host)
include hobservers hinv

omit [Machine M] in
theorem report_keeps (view : View) (events : List Event) :
    Ends (s.report view events) host (fun _ ↦ inv) fun _ ↦ inv :=
  Ends.forM (fun event _ hinv ↦
    Ends.forM_of_mem (fun o ho host hinv ↦ hobservers o ho view event host hinv) hinv) events hinv

/-- Every turn bears a condition that every observer keeps. -/
theorem bears_of_keeps (t : Turn M) : s.Bears (fun _ ↦ inv) (fun _ ↦ inv) t host :=
  (report_keeps hobservers hinv _ _).mono
    (fun _ _ hinv' ↦ report_keeps hobservers hinv' _ _) fun _ _ hinv' ↦ hinv'

theorem load_keeps (code : Bytes) :
    Ends (load code) (s, host) (fun _ ↦ s.Stands fun _ ↦ inv) fun _ ↦ s.Stands fun _ ↦ inv :=
  .get_bind ((bears_of_keeps hobservers hinv _).move.mono (fun _ _ hmoved ↦ ⟨_, hmoved⟩)
    fun _ _ hstands ↦ hstands)

theorem step_keeps :
    Ends step (s, host) (fun _ ↦ s.Stands fun _ ↦ inv) fun _ ↦ s.Stands fun _ ↦ inv :=
  step_of_fares (P := fun _ ↦ inv) (fun t _ ↦ (bears_of_keeps hobservers hinv t).fares) hinv

theorem execute_keeps (budget : Nat) :
    Ends (execute budget) (s, host) (fun _ ↦ s.Stands fun _ ↦ inv) fun _ ↦ s.Stands fun _ ↦ inv :=
  execute_of_bears (P := fun _ ↦ inv)
    (fun m _ t hinv _ ↦ bears_of_keeps (s := { s with machine := m }) hobservers hinv t) hinv budget

end Keeps

/-! ### Observers that tally -/

section Tallies

variable {ρ τ : Type} {s : Session M (ρ × τ)} {o : Observer (ρ × τ)} {k : Nat}
  {front back : List (Nat × Observer τ)}
  (hobservers : s.observers = lifted front ++ (k, o) :: lifted back)
  {inv : List Notice → ρ → Prop} (ho : o.Tallies inv)
include hobservers ho

omit [Machine M] in
/-- Events are reported to an observer that tallies them, and to others that do not see its state.
If the report fails, it has tallied the first of them. -/
theorem report_tallies {told : List Notice} {host : ρ × τ} (hinv : inv told host.1) (view : View)
    (events : List Event) :
    Ends (s.report view events) host
      (fun _ next ↦ inv (told ++ events.map (Prod.mk view)) next.1)
      fun _ next ↦ ∃ seen, seen <+: events.map (Prod.mk view) ∧ inv (told ++ seen) next.1 := by
  induction events generalizing told host with
  | nil => exact .pure (by rwa [List.map_nil, List.append_nil])
  | cons event rest ih =>
    have hothers (others : List (Nat × Observer τ)) (told : List Notice) (host : ρ × τ)
        (hinv : inv told host.1) :
        Ends ((lifted others).forM fun p ↦ p.2.notice view event) host
          (fun _ next ↦ inv told next.1) fun _ next ↦ inv told next.1 :=
      Ends.forM_of_mem (fun p hp host hinv ↦
        lifted_keeps_first others (inv told) p hp view event host hinv) hinv
    have hevent : Ends (s.observers.forM fun p ↦ p.2.notice view event) host
        (fun _ next ↦ inv (told ++ [(view, event)]) next.1)
        fun _ next ↦ inv told next.1 ∨ inv (told ++ [(view, event)]) next.1 := by
      rw [hobservers, forM_append]
      refine ((hothers front told host hinv).mono_error fun _ _ h ↦ .inl h).bind ?_
      intro _ host₁ hinv₁
      refine ((ho told view event host₁ hinv₁).mono_error fun _ _ h ↦ .inr h).bind ?_
      intro _ host₂ hinv₂
      exact (hothers back _ host₂ hinv₂).mono_error fun _ _ h ↦ .inr h
    refine (hevent.mono_error ?_).bind ?_
    · rintro _ next (hbefore | hafter)
      · exact ⟨[], List.nil_prefix, by rwa [List.append_nil]⟩
      · exact ⟨[(view, event)], ⟨rest.map (Prod.mk view), rfl⟩, hafter⟩
    · intro _ next hnext
      refine (ih hnext).mono ?_ ?_
      · intro _ next' hnext'
        rwa [List.append_assoc] at hnext'
      · rintro _ next' ⟨seen, hseen, hnext'⟩
        refine ⟨(view, event) :: seen, List.cons_prefix_cons.mpr ⟨rfl, hseen⟩, ?_⟩
        rwa [List.append_assoc] at hnext'

end Tallies

end Session

end ScriptTrace
