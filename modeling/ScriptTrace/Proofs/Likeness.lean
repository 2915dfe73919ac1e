import Mathlib.Data.List.Forall2
import ScriptTrace.Codec.Encoder
import ScriptTrace.Proofs.Act

/-!
Operations that do the same to states of two kinds. The states of the first kind keep records. An
operation on them matches one on the second kind if both answer the same and lead from like states
to like states, as long as every record that was kept has an encoding: records are never dropped, so
it is enough to ask this of those kept at the end. What holds of the parts of an operation holds of
the operation, and of a host that makes many calls and goes on after failures (`Matches.attempts`).
-/

set_option autoImplicit false
set_option relaxedAutoImplicit false

namespace ScriptTrace

variable {ε σ σ' α β : Type}

/-- A record has an encoding. -/
def Record.Encodes (r : Record) : Prop := ∃ bs, r.encode = .ok bs

/-- States of two kinds. -/
structure Likeness (σ σ' : Type) where
  /-- The records that a state of the first kind keeps. -/
  records : σ → List Record
  /-- A condition on states of the first kind. -/
  sound : σ → Prop
  /-- A state of the second kind is like one of the first. -/
  like : σ → σ' → Prop

/-- From a state `s` the operation `x` keeps the records and the condition and fails in some ways
only, and `y` does the same to every state like `s` if the records that are kept in the end have
encodings. -/
def Matches (L : Likeness σ σ') (raises : ε → Prop) (x : EStateM ε σ α) (y : EStateM ε σ' α)
    (s : σ) : Prop :=
  ∃ answer next, x s = resultOf answer next ∧ L.sound next ∧ L.records s <+: L.records next ∧
    (∀ e, answer = .error e → raises e) ∧
    ((∀ r ∈ L.records next, r.Encodes) → ∀ s', L.like s s' →
      ∃ next', y s' = resultOf answer next' ∧ L.like next next')

namespace Matches

variable {L : Likeness σ σ'} {raises : ε → Prop} {x : EStateM ε σ α} {y : EStateM ε σ' α} {s : σ}

theorem pure (hs : L.sound s) (a : α) : Matches L raises (pure a) (pure a) s :=
  ⟨.ok a, s, rfl, hs, List.prefix_rfl, nofun, fun _ s' hlike ↦ ⟨s', rfl, hlike⟩⟩

theorem bind {f : α → EStateM ε σ β} {g : α → EStateM ε σ' β} (hx : Matches L raises x y s)
    (hf : ∀ a next, L.sound next → Matches L raises (f a) (g a) next) :
    Matches L raises (x >>= f) (y >>= g) s := by
  obtain ⟨answer, next, hrun, hsound, hkept, hraises, hlike⟩ := hx
  cases answer with
  | error e =>
    refine ⟨.error e, next, bind_error hrun f, hsound, hkept,
      fun e' he ↦ hraises e' (congrArg Except.error (Except.error.inj he)), fun hall s' hs' ↦ ?_⟩
    obtain ⟨next', hrun', hnext⟩ := hlike hall s' hs'
    exact ⟨next', bind_error hrun' g, hnext⟩
  | ok a =>
    obtain ⟨answer, last, hlast, hsound', hkept', hraises', hlike'⟩ := hf a next hsound
    refine ⟨answer, last, (bind_ok hrun f).trans hlast, hsound', hkept.trans hkept', hraises',
      fun hall s' hs' ↦ ?_⟩
    obtain ⟨next', hrun', hnext⟩ := hlike (fun r hr ↦ hall r (hkept'.subset hr)) s' hs'
    obtain ⟨last', hlast', hend⟩ := hlike' hall next' hnext
    exact ⟨last', (bind_ok hrun' g).trans hlast', hend⟩

/-- Going on with a state. What the second operation goes on with is the same for all states that
are like it. -/
theorem get_bind {f : σ → EStateM ε σ β} {g : σ' → EStateM ε σ' β} {y : EStateM ε σ' β}
    (hf : Matches L raises (f s) y s) (hsame : ∀ s', L.like s s' → g s' = y) :
    Matches L raises (get >>= f) (get >>= g) s := by
  obtain ⟨answer, next, hrun, hsound, hkept, hraises, hlike⟩ := hf
  refine ⟨answer, next, hrun, hsound, hkept, hraises, fun hall s' hs' ↦ ?_⟩
  obtain ⟨next', hrun', hnext⟩ := hlike hall s' hs'
  exact ⟨next', by rw [get_bind_eq, hsame s' hs', hrun'], hnext⟩

/-- A change that leaves the records as they are. -/
theorem modify {f : σ → σ} {g : σ' → σ'} (hs : L.sound (f s))
    (hrecords : L.records (f s) = L.records s)
    (hlike : ∀ s', L.like s s' → L.like (f s) (g s')) :
    Matches L raises (modify f : EStateM ε σ PUnit) (modify g) s :=
  ⟨.ok ⟨⟩, f s, rfl, hs, hrecords ▸ List.prefix_rfl, nofun, fun _ s' hs' ↦
    ⟨g s', rfl, hlike s' hs'⟩⟩

/-- Operations on the elements of two lists. -/
theorem forM₂ {γ γ' : Type} {f : γ → EStateM ε σ PUnit} {g : γ' → EStateM ε σ' PUnit}
    {xs : List γ} {ys : List γ'}
    (h : List.Forall₂ (fun a b ↦ ∀ s, L.sound s → Matches L raises (f a) (g b) s) xs ys)
    (hs : L.sound s) : Matches L raises (xs.forM f) (ys.forM g) s := by
  induction h generalizing s with
  | nil => exact .pure hs _
  | cons hfirst _ ih => exact (hfirst s hs).bind fun _ next hnext ↦ ih hnext

theorem forM {γ : Type} {f : γ → EStateM ε σ PUnit} {g : γ → EStateM ε σ' PUnit} {xs : List γ}
    (h : ∀ a ∈ xs, ∀ s, L.sound s → Matches L raises (f a) (g a) s) (hs : L.sound s) :
    Matches L raises (xs.forM f) (xs.forM g) s :=
  forM₂ (List.forall₂_same.mpr h) hs

/-- Calls one after the other, where the host goes on after a failure. -/
theorem attempts {γ : Type} {f : γ → EStateM ε σ α} {g : γ → EStateM ε σ' α}
    (h : ∀ c s, L.sound s → Matches L raises (f c) (g c) s) (calls : List γ) (hs : L.sound s) :
    ∃ answers next, (calls.mapM fun c ↦ attempt (f c) : EStateM ε σ _) s = .ok answers next ∧
      L.sound next ∧ L.records s <+: L.records next ∧ (∀ e, .error e ∈ answers → raises e) ∧
      ((∀ r ∈ L.records next, r.Encodes) → ∀ s', L.like s s' →
        ∃ next', (calls.mapM fun c ↦ attempt (g c) : EStateM ε σ' _) s' = .ok answers next' ∧
          L.like next next') := by
  induction calls generalizing s with
  | nil => exact ⟨[], s, rfl, hs, List.prefix_rfl, nofun, fun _ s' hs' ↦ ⟨s', rfl, hs'⟩⟩
  | cons c rest ih =>
    obtain ⟨answer, next, hrun, hsound, hkept, hraises, hlike⟩ := h c s hs
    obtain ⟨answers, last, hrest, hsound', hkept', hraises', hlike'⟩ := ih hsound
    refine ⟨answer :: answers, last, mapM_attempt_cons hrun hrest, hsound', hkept.trans hkept',
      fun e he ↦ ?_, fun hall s' hs' ↦ ?_⟩
    · rcases List.mem_cons.mp he with hfirst | hlater
      · exact hraises e hfirst.symm
      · exact hraises' e hlater
    · obtain ⟨next', hrun', hnext⟩ := hlike (fun r hr ↦ hall r (hkept'.subset hr)) s' hs'
      obtain ⟨last', hrest', hend⟩ := hlike' hall next' hnext
      exact ⟨last', mapM_attempt_cons hrun' hrest', hend⟩

end Matches

/-- A condition on states of the first kind alone. -/
def Likeness.alone (inv : σ → Prop) : Likeness σ σ' := ⟨fun _ ↦ [], inv, fun _ _ ↦ False⟩

/-- What leaves a condition true, whatever comes of it, matches anything as far as the condition
goes. -/
theorem Ends.matches {inv : σ → Prop} {x : EStateM ε σ α} {s : σ}
    (h : Ends x s (fun _ ↦ inv) fun _ ↦ inv) (y : EStateM ε σ' α) :
    Matches (.alone inv) (fun _ ↦ True) x y s := by
  obtain ⟨answer, next, hrun⟩ := exists_resultOf x s
  exact ⟨answer, next, hrun, h.of_resultOf hrun, List.prefix_rfl, fun _ _ ↦ trivial,
    fun _ _ ↦ nofun⟩

/-! ### Components of a state -/

namespace Likeness

variable (L : Likeness σ σ')

/-- States with the same value in front. -/
def behind (ρ : Type) : Likeness (ρ × σ) (ρ × σ') where
  records s := L.records s.2
  sound s := L.sound s.2
  like s s' := s'.1 = s.1 ∧ L.like s.2 s'.2

/-- States with the same value beside them. -/
def beside (ω : Type) : Likeness (σ × ω) (σ' × ω) where
  records s := L.records s.1
  sound s := L.sound s.1
  like s s' := L.like s.1 s'.1 ∧ s'.2 = s.2

end Likeness

section Components

variable {L : Likeness σ σ'} {raises : ε → Prop} {x : EStateM ε σ α} {y : EStateM ε σ' α} {s : σ}

theorem Matches.onSecond {ρ : Type} (hx : Matches L raises x y s) (r : ρ) :
    Matches (L.behind ρ) raises (onSecond x) (onSecond y) (r, s) := by
  obtain ⟨answer, next, hrun, hsound, hkept, hraises, hlike⟩ := hx
  refine ⟨answer, (r, next), onSecond_eq hrun r, hsound, hkept, hraises, fun hall s' hs' ↦ ?_⟩
  obtain ⟨_, s'⟩ := s'
  obtain ⟨hsame, hs'⟩ := hs'
  obtain ⟨next', hrun', hnext⟩ := hlike hall s' hs'
  exact ⟨(_, next'), onSecond_eq hrun' _, hsame, hnext⟩

/-- Going on with the value in front, which both states have. -/
theorem Matches.get_behind {ρ : Type} {s : ρ × σ} {f : ρ × σ → EStateM ε (ρ × σ) β}
    {g : ρ × σ' → EStateM ε (ρ × σ') β} {y : EStateM ε (ρ × σ') β}
    (hsame : ∀ t', g (s.1, t') = y) (hf : Matches (L.behind ρ) raises (f s) y s) :
    Matches (L.behind ρ) raises (get >>= f) (get >>= g) s := by
  refine .get_bind hf ?_
  rintro ⟨_, t'⟩ ⟨rfl, -⟩
  exact hsame t'

theorem Matches.onFirst {ω : Type} (hx : Matches L raises x y s) (o : ω) :
    Matches (L.beside ω) raises (onFirst x) (onFirst y) (s, o) := by
  obtain ⟨answer, next, hrun, hsound, hkept, hraises, hlike⟩ := hx
  refine ⟨answer, (next, o), onFirst_eq hrun o, hsound, hkept, hraises, fun hall s' hs' ↦ ?_⟩
  obtain ⟨s', _⟩ := s'
  obtain ⟨hs', rfl⟩ := hs'
  obtain ⟨next', hrun', hnext⟩ := hlike hall s' hs'
  exact ⟨(next', _), onFirst_eq hrun' _, hnext, rfl⟩

/-- An operation on a value that both states have beside them. -/
theorem Matches.besides {ω : Type} {z : EStateM ε ω α} (hs : L.sound s) {o : ω}
    (hraises : ∀ e o', z o = .error e o' → raises e) :
    Matches (L.beside ω) raises (ScriptTrace.onSecond z) (ScriptTrace.onSecond z) (s, o) := by
  obtain ⟨answer, o', hrun⟩ := exists_resultOf z o
  refine ⟨answer, (s, o'), onSecond_eq hrun s, hs, List.prefix_rfl, fun e he ↦ ?_,
    fun _ s' hs' ↦ ?_⟩
  · subst he
    exact hraises e o' hrun
  · obtain ⟨s', _⟩ := s'
    obtain ⟨hs', rfl⟩ := hs'
    exact ⟨(s', o'), onSecond_eq hrun s', hs', rfl⟩

end Components

end ScriptTrace
