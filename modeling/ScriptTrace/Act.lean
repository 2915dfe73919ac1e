/-!
Operations that change a state and may fail; what an operation changed before it failed stays
changed. These are the combinators for operations on one component of a pair of states.
-/

set_option autoImplicit false

namespace ScriptTrace

variable {ε ε' σ τ α : Type}

/-- Turn a failure into an answer. -/
def attempt (x : EStateM ε σ α) : EStateM ε' σ (Except ε α) := fun s =>
  match x s with
  | .ok a s => .ok (.ok a) s
  | .error e s => .ok (.error e) s

/-- Report failures in other terms. -/
def failingWith (f : ε → ε') (x : EStateM ε σ α) : EStateM ε' σ α := fun s =>
  match x s with
  | .ok a s => .ok a s
  | .error e s => .error (f e) s

/-- An operation on the second component. -/
def onSecond (x : EStateM ε τ α) : EStateM ε (σ × τ) α := fun (s, t) =>
  match x t with
  | .ok a t => .ok a (s, t)
  | .error e t => .error e (s, t)

/-- An operation on the first component. -/
def onFirst (x : EStateM ε σ α) : EStateM ε (σ × τ) α := fun (s, t) =>
  match x s with
  | .ok a s => .ok a (s, t)
  | .error e s => .error e (s, t)

end ScriptTrace
