import ScriptTrace.Act

/-!
Running operations on a state. `Succeeds x s P` says that an operation started in `s` answers,
and that its answer and the state it leaves satisfy `P`; an operation that fails succeeds in
nothing. `Ends x s P Q` lets it fail, with an error and a state that satisfy `Q`. Each lemma below
says what has to be shown of the parts of an operation.
-/

set_option autoImplicit false
set_option relaxedAutoImplicit false

namespace ScriptTrace

variable {ε ε' σ τ α β : Type}

/-- An operation answers, with an answer and a state that satisfy a condition. -/
def Succeeds (x : EStateM ε σ α) (s : σ) (P : α → σ → Prop) : Prop :=
  ∃ a s', x s = .ok a s' ∧ P a s'

/-- The result of an operation that answers or fails, with the state it leaves. -/
def resultOf : Except ε α → σ → EStateM.Result ε σ α
  | .ok a, s => .ok a s
  | .error e, s => .error e s

theorem exists_resultOf (x : EStateM ε σ α) (s : σ) :
    ∃ answer s', x s = resultOf answer s' := by
  cases hrun : x s with
  | ok a s' => exact ⟨.ok a, s', rfl⟩
  | error e s' => exact ⟨.error e, s', rfl⟩

/-- The second operation of a sequence, after the first one answered. -/
theorem bind_ok {x : EStateM ε σ α} {s s' : σ} {a : α} (hx : x s = .ok a s')
    (f : α → EStateM ε σ β) : (x >>= f) s = f a s' := by
  change EStateM.bind x f s = f a s'
  rw [EStateM.bind, hx]

/-- A sequence whose first operation fails. -/
theorem bind_error {x : EStateM ε σ α} {s s' : σ} {e : ε} (hx : x s = .error e s')
    (f : α → EStateM ε σ β) : (x >>= f) s = .error e s' := by
  change EStateM.bind x f s = .error e s'
  rw [EStateM.bind, hx]

theorem get_bind_eq (f : σ → EStateM ε σ β) (s : σ) : (get >>= f) s = f s s := rfl

/-- An operation that answers, when its failures are answers too. -/
theorem attempt_ok {x : EStateM ε σ α} {s s' : σ} {a : α} (hx : x s = .ok a s') :
    (attempt x : EStateM ε' σ (Except ε α)) s = .ok (.ok a) s' := by
  rw [attempt, hx]

/-- The outcome of an operation, when its failures are answers too. -/
theorem attempt_eq {x : EStateM ε σ α} {s s' : σ} {answer : Except ε α}
    (hx : x s = resultOf answer s') :
    (attempt x : EStateM ε' σ (Except ε α)) s = .ok answer s' := by
  rw [attempt, hx]
  cases answer <;> rfl

/-- Calls one after the other, where the host goes on after a failure. -/
theorem mapM_attempt_cons {γ : Type} {f : γ → EStateM ε σ α} {c : γ} {s s₁ s' : σ}
    {answer : Except ε α} (hfirst : f c s = resultOf answer s₁) {rest : List γ}
    {answers : List (Except ε α)}
    (hrest : (rest.mapM fun c ↦ attempt (f c) : EStateM ε' σ _) s₁ = .ok answers s') :
    ((c :: rest).mapM fun c ↦ attempt (f c) : EStateM ε' σ _) s =
      .ok (answer :: answers) s' := by
  rw [List.mapM_cons, bind_ok (attempt_eq hfirst), bind_ok hrest]
  rfl

theorem onSecond_eq {x : EStateM ε τ α} {t t' : τ} {answer : Except ε α}
    (hx : x t = resultOf answer t') (s : σ) : onSecond x (s, t) = resultOf answer (s, t') := by
  rw [onSecond, hx]
  cases answer <;> rfl

theorem onFirst_eq {x : EStateM ε σ α} {s s' : σ} {answer : Except ε α}
    (hx : x s = resultOf answer s') (t : τ) : onFirst x (s, t) = resultOf answer (s', t) := by
  rw [onFirst, hx]
  cases answer <;> rfl

/-- A sequence that answers is two operations that answer. -/
theorem bind_eq_ok {x : EStateM ε σ α} {f : α → EStateM ε σ β} {s s' : σ} {b : β}
    (h : (x >>= f) s = .ok b s') : ∃ a t, x s = .ok a t ∧ f a t = .ok b s' := by
  change EStateM.bind x f s = .ok b s' at h
  rw [EStateM.bind] at h
  cases hx : x s with
  | ok a t =>
    rw [hx] at h
    exact ⟨a, t, rfl, h⟩
  | error e t =>
    rw [hx] at h
    cases h

/-- Operations on the elements of two lists, one list after the other. -/
theorem forM_append (f : α → EStateM ε σ PUnit) (xs ys : List α) :
    (xs ++ ys).forM f = (xs.forM f >>= fun _ ↦ ys.forM f) :=
  List.forM_append

/-- Operations that are the same for every element of a list. -/
theorem forM_congr {f g : α → EStateM ε σ PUnit} {xs : List α} (h : ∀ x ∈ xs, f x = g x) :
    xs.forM f = xs.forM g := by
  induction xs with
  | nil => rfl
  | cons x rest ih =>
    have hrest := ih fun y hy ↦ h y (List.mem_cons_of_mem _ hy)
    change (f x >>= fun _ ↦ rest.forM f) = (g x >>= fun _ ↦ rest.forM g)
    rw [h x List.mem_cons_self, hrest]

namespace Succeeds

variable {x : EStateM ε σ α} {s : σ} {P Q : α → σ → Prop}

theorem mono (hx : Succeeds x s P) (h : ∀ a s', P a s' → Q a s') :
    Succeeds x s Q := by
  obtain ⟨a, s', hrun, hpost⟩ := hx
  exact ⟨a, s', hrun, h a s' hpost⟩

theorem pure {a : α} (h : P a s) : Succeeds (pure a : EStateM ε σ α) s P :=
  ⟨a, s, rfl, h⟩

theorem bind {f : α → EStateM ε σ β} {Q : β → σ → Prop} (hx : Succeeds x s P)
    (hf : ∀ a s', P a s' → Succeeds (f a) s' Q) : Succeeds (x >>= f) s Q := by
  obtain ⟨a, t, hrun, hpost⟩ := hx
  obtain ⟨b, s', hnext, hlast⟩ := hf a t hpost
  exact ⟨b, s', by rw [bind_ok hrun, hnext], hlast⟩

theorem get_bind {f : σ → EStateM ε σ β} {Q : β → σ → Prop} (hf : Succeeds (f s) s Q) :
    Succeeds (get >>= f) s Q := hf

theorem modify {f : σ → σ} {P : PUnit → σ → Prop} (h : P ⟨⟩ (f s)) :
    Succeeds (modify f : EStateM ε σ PUnit) s P :=
  ⟨⟨⟩, f s, rfl, h⟩

theorem onSecond {x : EStateM ε τ α} {t : τ} {P : α → σ × τ → Prop}
    (hx : Succeeds x t fun a t' ↦ P a (s, t')) : Succeeds (onSecond x) (s, t) P := by
  obtain ⟨a, t', hrun, hpost⟩ := hx
  refine ⟨a, (s, t'), ?_, hpost⟩
  simp only [ScriptTrace.onSecond, hrun]

theorem failingWith {g : ε → ε'} (hx : Succeeds x s P) : Succeeds (failingWith g x) s P := by
  obtain ⟨a, s', hrun, hpost⟩ := hx
  refine ⟨a, s', ?_, hpost⟩
  simp only [ScriptTrace.failingWith, hrun]

/-- Assumes: the operation answers or fails, and both outcomes satisfy a condition. -/
theorem attempt {P : Except ε α → σ → Prop}
    (hx : (∃ a s', x s = .ok a s' ∧ P (.ok a) s') ∨
      ∃ e s', x s = .error e s' ∧ P (.error e) s') :
    Succeeds (attempt x : EStateM ε' σ (Except ε α)) s P := by
  rcases hx with ⟨a, s', hrun, hpost⟩ | ⟨e, s', hrun, hpost⟩
  · refine ⟨.ok a, s', ?_, hpost⟩
    simp only [ScriptTrace.attempt, hrun]
  · refine ⟨.error e, s', ?_, hpost⟩
    simp only [ScriptTrace.attempt, hrun]

theorem single {γ : Type} {f : γ → EStateM ε σ PUnit} {y : γ} {P : σ → Prop}
    (h : Succeeds (f y) s fun _ ↦ P) : Succeeds ([y].forM f) s fun _ ↦ P :=
  h.bind fun _ _ hpost ↦ .pure hpost

theorem forM_append {γ : Type} {f : γ → EStateM ε σ PUnit} {xs ys : List γ}
    {P Q : σ → Prop} (hxs : Succeeds (xs.forM f) s fun _ ↦ P)
    (hys : ∀ s', P s' → Succeeds (ys.forM f) s' fun _ ↦ Q) :
    Succeeds ((xs ++ ys).forM f) s fun _ ↦ Q := by
  rw [ScriptTrace.forM_append]
  exact hxs.bind fun _ ↦ hys

end Succeeds

/-- An operation answers, with an answer and a state that satisfy one condition, or fails, with an
error and a state that satisfy another. -/
def Ends (x : EStateM ε σ α) (s : σ) (P : α → σ → Prop) (Q : ε → σ → Prop) : Prop :=
  match x s with
  | .ok a s' => P a s'
  | .error e s' => Q e s'

/-- The state after an operation, whatever comes of it. -/
def leaves (x : EStateM ε σ α) (s : σ) : σ :=
  match x s with
  | .ok _ s' => s'
  | .error _ s' => s'

namespace Ends

variable {x : EStateM ε σ α} {s : σ} {P : α → σ → Prop} {Q : ε → σ → Prop}

theorem of_cases (hok : ∀ a s', x s = .ok a s' → P a s')
    (herror : ∀ e s', x s = .error e s' → Q e s') : Ends x s P Q := by
  unfold Ends
  split
  · exact hok _ _ ‹_›
  · exact herror _ _ ‹_›

theorem of_ok (h : Ends x s P Q) {a : α} {s' : σ} (hrun : x s = .ok a s') : P a s' := by
  rwa [Ends, hrun] at h

theorem of_error (h : Ends x s P Q) {e : ε} {s' : σ} (hrun : x s = .error e s') : Q e s' := by
  rwa [Ends, hrun] at h

/-- What holds whatever comes of an operation. -/
theorem of_resultOf {R : σ → Prop} (h : Ends x s (fun _ ↦ R) fun _ ↦ R) {answer : Except ε α}
    {s' : σ} (hrun : x s = resultOf answer s') : R s' := by
  cases answer with
  | ok a => exact h.of_ok hrun
  | error e => exact h.of_error hrun

theorem leaves {R : σ → Prop} (h : Ends x s (fun _ ↦ R) fun _ ↦ R) : R (leaves x s) := by
  unfold ScriptTrace.leaves
  split
  · exact h.of_ok ‹_›
  · exact h.of_error ‹_›

theorem mono {P' : α → σ → Prop} {Q' : ε → σ → Prop} (h : Ends x s P Q)
    (hP : ∀ a s', P a s' → P' a s') (hQ : ∀ e s', Q e s' → Q' e s') : Ends x s P' Q' :=
  of_cases (fun _ _ hrun ↦ hP _ _ (h.of_ok hrun)) fun _ _ hrun ↦ hQ _ _ (h.of_error hrun)

theorem mono_error {Q' : ε → σ → Prop} (h : Ends x s P Q) (hQ : ∀ e s', Q e s' → Q' e s') :
    Ends x s P Q' :=
  h.mono (fun _ _ hpost ↦ hpost) hQ

theorem of_succeeds (h : Succeeds x s P) : Ends x s P Q := by
  obtain ⟨a, s', hrun, hpost⟩ := h
  rwa [Ends, hrun]

theorem pure {a : α} (h : P a s) : Ends (pure a) s P Q := h

theorem throw {e : ε} (h : Q e s) : Ends (throw e) s P Q := h

theorem bind {f : α → EStateM ε σ β} {R : β → σ → Prop} (hx : Ends x s P Q)
    (hf : ∀ a s', P a s' → Ends (f a) s' R Q) : Ends (x >>= f) s R Q := by
  cases hrun : x s with
  | ok a s' =>
    have hnext := hf a s' (hx.of_ok hrun)
    unfold Ends at hnext ⊢
    rwa [bind_ok hrun]
  | error e s' =>
    unfold Ends
    rw [bind_error hrun]
    exact hx.of_error hrun

theorem single {γ : Type} {f : γ → EStateM ε σ PUnit} {y : γ} {P : σ → Prop}
    (h : Ends (f y) s (fun _ ↦ P) Q) : Ends ([y].forM f) s (fun _ ↦ P) Q :=
  h.bind fun _ _ hpost ↦ .pure hpost

/-- A condition that every operation of a list preserves. -/
theorem forM {γ : Type} {f : γ → EStateM ε σ PUnit} {P : σ → Prop}
    (h : ∀ y s, P s → Ends (f y) s (fun _ ↦ P) Q) (ys : List γ) (hs : P s) :
    Ends (ys.forM f) s (fun _ ↦ P) Q := by
  induction ys generalizing s with
  | nil => exact .pure hs
  | cons y rest ih => exact (h y s hs).bind fun _ _ hnext ↦ ih hnext

theorem get_bind {f : σ → EStateM ε σ β} {R : β → σ → Prop} (hf : Ends (f s) s R Q) :
    Ends (get >>= f) s R Q := hf

theorem modify_bind {g : σ → σ} {f : PUnit → EStateM ε σ β} {R : β → σ → Prop}
    (hf : Ends (f ⟨⟩) (g s) R Q) : Ends (modify g >>= f) s R Q := hf

theorem onSecond {x : EStateM ε τ α} {t : τ} {P : α → σ × τ → Prop} {Q : ε → σ × τ → Prop}
    (hx : Ends x t (fun a t' ↦ P a (s, t')) fun e t' ↦ Q e (s, t')) :
    Ends (onSecond x) (s, t) P Q := by
  unfold Ends ScriptTrace.onSecond at *
  cases hrun : x t <;> simpa only [hrun] using hx

theorem onFirst {x : EStateM ε σ α} {t : τ} {P : α → σ × τ → Prop} {Q : ε → σ × τ → Prop}
    (hx : Ends x s (fun a s' ↦ P a (s', t)) fun e s' ↦ Q e (s', t)) :
    Ends (onFirst x) (s, t) P Q := by
  unfold Ends ScriptTrace.onFirst at *
  cases hrun : x s <;> simpa only [hrun] using hx

/-- An operation on the second component of a state, and what comes after it. -/
theorem onSecond_bind {x : EStateM ε τ α} {t : τ} {P : α → τ → Prop} {Q : ε → τ → Prop}
    {f : α → EStateM ε (σ × τ) β} {R : β → σ × τ → Prop} {Q' : ε → σ × τ → Prop}
    (hx : Ends x t P Q) (hf : ∀ a t', P a t' → Ends (f a) (s, t') R Q')
    (herror : ∀ e t', Q e t' → Q' e (s, t')) :
    Ends (ScriptTrace.onSecond x >>= f) (s, t) R Q' := by
  have hfirst : Ends (ScriptTrace.onSecond x) (s, t)
      (fun a next ↦ Ends (f a) next R Q') Q' := .onSecond (hx.mono hf herror)
  exact hfirst.bind fun _ _ hnext ↦ hnext

theorem failingWith {g : ε → ε'} {Q : ε' → σ → Prop} (hx : Ends x s P fun e ↦ Q (g e)) :
    Ends (failingWith g x) s P Q := by
  unfold Ends ScriptTrace.failingWith at *
  cases hrun : x s <;> simpa only [hrun] using hx

theorem attempt {P : Except ε α → σ → Prop} {Q : ε' → σ → Prop}
    (hx : Ends x s (fun a ↦ P (.ok a)) fun e ↦ P (.error e)) :
    Ends (attempt x : EStateM ε' σ (Except ε α)) s P Q := by
  unfold Ends ScriptTrace.attempt at *
  cases hrun : x s <;> simpa only [hrun] using hx

/-- The outcome of an operation is an answer. -/
theorem succeeds_outcome {P : Except ε α → σ → Prop}
    (hx : Ends x s (fun a ↦ P (.ok a)) fun e ↦ P (.error e)) :
    Succeeds (ScriptTrace.attempt x : EStateM ε' σ (Except ε α)) s P := by
  refine .attempt ?_
  cases hrun : x s with
  | ok a s' => exact .inl ⟨a, s', rfl, hx.of_ok hrun⟩
  | error e s' => exact .inr ⟨e, s', rfl, hx.of_error hrun⟩

/-- A condition that holds whatever comes of an operation. -/
theorem succeeds_attempt {R : σ → Prop} (hx : Ends x s (fun _ ↦ R) fun _ ↦ R) :
    Succeeds (ScriptTrace.attempt x : EStateM ε' σ (Except ε α)) s fun _ ↦ R :=
  succeeds_outcome (P := fun _ ↦ R) hx

/-- Going on with the outcome of an operation. -/
theorem attempt_bind {f : Except ε α → EStateM ε' σ β} {R : β → σ → Prop} {Q' : ε' → σ → Prop}
    (hx : Ends x s P Q) (hok : ∀ a s', P a s' → Ends (f (.ok a)) s' R Q')
    (herror : ∀ e s', Q e s' → Ends (f (.error e)) s' R Q') :
    Ends (ScriptTrace.attempt x >>= f) s R Q' := by
  have houtcome : Ends (ScriptTrace.attempt x : EStateM ε' σ (Except ε α)) s
      (fun outcome s' ↦ Ends (f outcome) s' R Q') Q' :=
    .attempt (hx.mono hok herror)
  exact houtcome.bind fun _ _ hnext ↦ hnext

theorem modify {g : σ → σ} {P : PUnit → σ → Prop} (h : P ⟨⟩ (g s)) :
    Ends (modify g : EStateM ε σ PUnit) s P Q := h

end Ends

end ScriptTrace
