import ScriptTrace.Session

/-!
The way of a machine. `Moves` are the turns it takes by itself, one after the other, and `story` is
what they report to observers. Turns are determined by the machine, so of two ways from one machine
the shorter one is the beginning of the longer one (`Moves.split`), and a machine that stops does so
in one way.
-/

set_option autoImplicit false
set_option relaxedAutoImplicit false

namespace ScriptTrace

/-- An event, with what observers see of the machine when it is reported. -/
abbrev Notice := View × Event

variable {M : Type} [Machine M]

/-- What observers are told of a move. -/
def Turn.notices (m : M) (t : Turn M) : List Notice :=
  t.before.toList.map (Prod.mk (Machine.view m)) ++ t.after.map (Prod.mk (Machine.view t.next))

/-- Where an instruction was about to run, by script and position. -/
def dispatch? : Notice → Option (Hash × Nat)
  | (view, .preExecute _) => do return (← view.currentHash, ← view.currentPointer)
  | _ => none

/-- Where instructions were about to run. -/
def dispatches (told : List Notice) : List (Hash × Nat) := told.filterMap dispatch?

theorem dispatches_append (told others : List Notice) :
    dispatches (told ++ others) = dispatches told ++ dispatches others :=
  List.filterMap_append

/-- What observers are told of moves, one after the other. -/
def story : M → List (Turn M) → List Notice
  | _, [] => []
  | m, t :: ts => t.notices m ++ story t.next ts

/-- The turns that take one machine to another. -/
inductive Moves (overrides : Overrides) : M → List (Turn M) → M → Prop
  | refl (m : M) : Moves overrides m [] m
  | cons {m m' : M} {t : Turn M} {ts : List (Turn M)} (hturn : Machine.turn overrides m = some t)
    (hrest : Moves overrides t.next ts m') : Moves overrides m (t :: ts) m'

namespace Moves

variable {overrides : Overrides} {m m₁ m₂ : M} {ts us : List (Turn M)}

theorem trans (hfirst : Moves overrides m ts m₁) (hsecond : Moves overrides m₁ us m₂) :
    Moves overrides m (ts ++ us) m₂ := by
  induction hfirst with
  | refl m => exact hsecond
  | cons hturn _ ih => exact .cons hturn (ih hsecond)

/-- The last turn of a way. -/
theorem of_concat {t : Turn M} (hmoves : Moves overrides m (ts ++ [t]) m₂) :
    ∃ m₁, Moves overrides m ts m₁ ∧ Machine.turn overrides m₁ = some t ∧ t.next = m₂ := by
  induction ts generalizing m with
  | nil =>
    cases hmoves with
    | cons hturn hrest =>
      cases hrest
      exact ⟨m, .refl m, hturn, rfl⟩
  | cons u us ih =>
    cases hmoves with
    | cons hturn hrest =>
      obtain ⟨m₁, hmoves, hlast⟩ := ih hrest
      exact ⟨m₁, .cons hturn hmoves, hlast⟩

/-- One more turn. -/
theorem concat {t : Turn M} (hmoves : Moves overrides m ts m₁)
    (hturn : Machine.turn overrides m₁ = some t) : Moves overrides m (ts ++ [t]) t.next :=
  hmoves.trans (.cons hturn (.refl t.next))

theorem story_append (hmoves : Moves overrides m ts m₁) :
    story m (ts ++ us) = story m ts ++ story m₁ us := by
  induction hmoves with
  | refl m => rfl
  | @cons m _ t _ _ _ ih =>
    rw [List.cons_append, story, story, ih, List.append_assoc]

/-- Of two ways from one machine the shorter one is the beginning of the longer one. -/
theorem split (hfirst : Moves overrides m ts m₁) (hsecond : Moves overrides m us m₂)
    (hlength : ts.length ≤ us.length) : ∃ rest, us = ts ++ rest ∧ Moves overrides m₁ rest m₂ := by
  induction hfirst generalizing us with
  | refl m => exact ⟨us, rfl, hsecond⟩
  | @cons m m₁ t ts hturn _ ih =>
    cases hsecond with
    | refl => exact absurd hlength (Nat.not_succ_le_zero ts.length)
    | @cons _ _ t' us hturn' hrest =>
      have hsame : t = t' := Option.some.inj (hturn.symm.trans hturn')
      subst hsame
      obtain ⟨rest, hus, hmoves⟩ := ih hrest (Nat.le_of_succ_le_succ hlength)
      exact ⟨rest, congrArg (t :: ·) hus, hmoves⟩

/-- A machine that has stopped does not move. -/
theorem eq_of_stopped (hmoves : Moves overrides m ts m₁) (hstop : Machine.turn overrides m = none) :
    ts = [] ∧ m₁ = m := by
  cases hmoves with
  | refl => exact ⟨rfl, rfl⟩
  | cons hturn _ => simp [hstop] at hturn

/-- A way is at least as long as any other one from the same machine if it ends where the machine
stops. -/
theorem length_le_of_stopped (hfirst : Moves overrides m ts m₁)
    (hstop : Machine.turn overrides m₁ = none) (hsecond : Moves overrides m us m₂) :
    us.length ≤ ts.length := by
  by_cases hlonger : ts.length ≤ us.length
  · obtain ⟨rest, hus, hrest⟩ := hfirst.split hsecond hlonger
    have hsame : us = ts := by rw [hus, (hrest.eq_of_stopped hstop).1, List.append_nil]
    exact Nat.le_of_eq (congrArg List.length hsame)
  · exact Nat.le_of_not_le hlonger

/-- Two ways of the same length are the same. -/
theorem eq_of_length_eq (hfirst : Moves overrides m ts m₁) (hsecond : Moves overrides m us m₂)
    (hlength : ts.length = us.length) : ts = us ∧ m₁ = m₂ := by
  obtain ⟨rest, rfl, hrest⟩ := hfirst.split hsecond (Nat.le_of_eq hlength)
  have hnil : rest = [] := by simpa using hlength
  subst hnil
  refine ⟨(List.append_nil ts).symm, ?_⟩
  cases hrest with
  | refl => rfl

/-- A machine that moves until it has stopped does so in one way. -/
theorem unique (hfirst : Moves overrides m ts m₁) (hstop₁ : Machine.turn overrides m₁ = none)
    (hsecond : Moves overrides m us m₂) (hstop₂ : Machine.turn overrides m₂ = none) :
    ts = us ∧ m₁ = m₂ :=
  hfirst.eq_of_length_eq hsecond (Nat.le_antisymm
    (hsecond.length_le_of_stopped hstop₂ hfirst) (hfirst.length_le_of_stopped hstop₁ hsecond))

/-- What every turn preserves holds at the end of a way, along with what was told of it. -/
theorem preserves {inv : List Notice → M → Prop}
    (hturn : ∀ told m t, inv told m → Machine.turn overrides m = some t →
      inv (told ++ t.notices m) t.next)
    (hmoves : Moves overrides m ts m₁) (told : List Notice) (hinv : inv told m) :
    inv (told ++ story m ts) m₁ := by
  induction hmoves generalizing told with
  | refl m => rwa [story, List.append_nil]
  | @cons m m₁ t ts hnext _ ih =>
    have hrest := ih _ (hturn told m t hinv hnext)
    rwa [List.append_assoc] at hrest

/-- What every turn preserves holds at the end of a way. -/
theorem keeps (inv : M → Prop)
    (hturn : ∀ m t, inv m → Machine.turn overrides m = some t → inv t.next)
    (hmoves : Moves overrides m ts m₁) (hinv : inv m) : inv m₁ := by
  let always (_ : List Notice) (m : M) : Prop := inv m
  have hbegin : always [] m := hinv
  have hend : always (story m ts) m₁ :=
    hmoves.preserves (fun _ m t hinv hnext ↦ hturn m t hinv hnext) [] hbegin
  exact hend

end Moves

end ScriptTrace
