import ScriptTrace.Proofs.Act
import ScriptTrace.Session

/-!
Operations that do the same to states that correspond. A map takes each state of one kind to one of
another kind. An operation mirrors another one under the map if it answers the same and leaves the
state that corresponds, or fails with an error that reads the same (`Mirrors`). What holds of the
parts of an operation holds of the operation.
-/

set_option autoImplicit false
set_option relaxedAutoImplicit false

namespace ScriptTrace

variable {ε κ σ σ' α α' β β' : Type}

/-- From the state that corresponds to `s`, the operation `y` does what `x` does from `s`: its
answer corresponds to that of `x`, or its error reads the same. -/
def Mirrors (g : σ → σ') (h : α → α') (text : ε → κ) (x : EStateM ε σ α) (y : EStateM ε σ' α')
    (s : σ) : Prop :=
  match x s with
  | .ok a s' => y (g s) = .ok (h a) (g s')
  | .error e s' => ∃ e', text e' = text e ∧ y (g s) = .error e' (g s')

namespace Mirrors

variable {g : σ → σ'} {h : α → α'} {text : ε → κ} {x : EStateM ε σ α} {y : EStateM ε σ' α'} {s : σ}

theorem of_ok (hxy : Mirrors g h text x y s) {a : α} {s' : σ} (hrun : x s = .ok a s') :
    y (g s) = .ok (h a) (g s') := by
  rwa [Mirrors, hrun] at hxy

theorem of_error (hxy : Mirrors g h text x y s) {e : ε} {s' : σ} (hrun : x s = .error e s') :
    ∃ e', text e' = text e ∧ y (g s) = .error e' (g s') := by
  rwa [Mirrors, hrun] at hxy

/-- Operations with the same answer or the same error. -/
theorem of_resultOf {y : EStateM ε σ' α} {answer : Except ε α} {s' : σ}
    (hx : x s = resultOf answer s') (hy : y (g s) = resultOf answer (g s')) :
    Mirrors g id text x y s := by
  unfold Mirrors
  rw [hx]
  cases answer with
  | ok a => exact hy
  | error e => exact ⟨e, rfl, hy⟩

/-- It is about what the operations do from these states only. -/
theorem congr {x₁ : EStateM ε σ α} {y₁ : EStateM ε σ' α'} (hxy : Mirrors g h text x y s)
    (hx : x₁ s = x s) (hy : y₁ (g s) = y (g s)) : Mirrors g h text x₁ y₁ s := by
  rwa [Mirrors, hx, hy]

theorem pure (a : α) (s : σ) : Mirrors g h text (pure a) (pure (h a)) s := rfl

theorem throw {e e' : ε} (htext : text e' = text e) (s : σ) :
    Mirrors g h text (throw e : EStateM ε σ α) (throw e') s := ⟨e', htext, rfl⟩

theorem bind {k : β → β'} {f : α → EStateM ε σ β} {f' : α' → EStateM ε σ' β'}
    (hxy : Mirrors g h text x y s)
    (hf : ∀ a s', x s = .ok a s' → Mirrors g k text (f a) (f' (h a)) s') :
    Mirrors g k text (x >>= f) (y >>= f') s := by
  cases hrun : x s with
  | ok a s' =>
    have hnext := hf a s' hrun
    unfold Mirrors at hnext ⊢
    rwa [bind_ok hrun, bind_ok (hxy.of_ok hrun)]
  | error e s' =>
    obtain ⟨e', htext, hrun'⟩ := hxy.of_error hrun
    unfold Mirrors
    rw [bind_error hrun]
    exact ⟨e', htext, bind_error hrun' f'⟩

/-- Going on with a state and with the one that corresponds to it. -/
theorem get_bind {f : σ → EStateM ε σ α} {f' : σ' → EStateM ε σ' α'}
    (hf : Mirrors g h text (f s) (f' (g s)) s) : Mirrors g h text (get >>= f) (get >>= f') s := hf

theorem modify_bind {φ : σ → σ} {φ' : σ' → σ'} {f : PUnit → EStateM ε σ α}
    {f' : PUnit → EStateM ε σ' α'} (hφ : φ' (g s) = g (φ s))
    (hf : Mirrors g h text (f ⟨⟩) (f' ⟨⟩) (φ s)) :
    Mirrors g h text (modify φ >>= f) (modify φ' >>= f') s := by
  unfold Mirrors at hf ⊢
  change match f ⟨⟩ (φ s) with
    | .ok a s' => f' ⟨⟩ (φ' (g s)) = .ok (h a) (g s')
    | .error e s' => ∃ e', text e' = text e ∧ f' ⟨⟩ (φ' (g s)) = .error e' (g s')
  rwa [hφ]

/-- An operation on what the states have in common. -/
theorem onSecond {τ : Type} (g : σ → σ') (x : EStateM ε τ α) (s : σ) (t : τ) :
    Mirrors (Prod.map g id) id text (onSecond x) (onSecond x) (s, t) := by
  obtain ⟨answer, t', hrun⟩ := exists_resultOf x t
  exact of_resultOf (onSecond_eq hrun s) (onSecond_eq hrun (g s))

/-- Operations that mirror each other with the same answers and the same errors. -/
theorem resultOf_eq {y : EStateM ε σ' α} (hxy : Mirrors g id id x y s) {answer : Except ε α}
    {s' : σ} (hrun : x s = resultOf answer s') : y (g s) = resultOf answer (g s') := by
  cases answer with
  | ok a => exact hxy.of_ok hrun
  | error e =>
    obtain ⟨e', rfl, hrun'⟩ := hxy.of_error hrun
    exact hrun'

end Mirrors

/-- A move to the machine that corresponds to the next one, with the same reports. -/
def Turn.mapNext {M M' : Type} (f : M → M') (t : Turn M) : Turn M' := ⟨t.before, f t.next, t.after⟩

end ScriptTrace
