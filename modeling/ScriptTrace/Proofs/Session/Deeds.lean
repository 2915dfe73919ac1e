import ScriptTrace.Proofs.Session.Attendance

/-!
What a host does with a session. It loads scripts, executes, subscribes and unsubscribes observers
and replaces system calls, in any order and whatever fails (`Session.Deed`); through an engine it
does so as well, and disposes of the engine or drops it (`Engine.Deed`). Observers carry a condition
along if each preserves it wherever the machine is when it is told of something
(`Observer.Carries`); what moves preserve as well then holds at the end of a call, and where it
failed (`Session.execute_carries`). A condition on the machine alone that loads and turns preserve
holds after anything a host does (`Session.performAll_machine`).
-/

set_option autoImplicit false
set_option relaxedAutoImplicit false

namespace ScriptTrace

variable {M σ : Type} [Machine M]

/-- Told of something at the view of a machine, an observer preserves a condition on the machine and
its own state, whatever comes of it. -/
def Observer.Carries (o : Observer σ) (inv : M → σ → Prop) : Prop :=
  ∀ m event host, inv m host →
    Ends (o.notice (Machine.view m) event) host (fun _ ↦ inv m) fun _ ↦ inv m

/-! ### Sessions -/

/-- What a host does with a session. -/
inductive Session.Deed (σ : Type) where
  | call (c : Call)
  | subscribe (o : Observer σ)
  | unsubscribe (subscription : Nat)
  | override (hash : UInt32) (handler : SyscallHandler)
  | removeOverride (hash : UInt32)

namespace Session

/-- The same for observers that see the second component only. -/
def Deed.widen {τ : Type} : Deed τ → Deed (σ × τ)
  | call c => .call c
  | subscribe o => .subscribe o.onSecond
  | unsubscribe subscription => .unsubscribe subscription
  | override hash handler => .override hash handler
  | removeOverride hash => .removeOverride hash

/-- Do what a host does with a session. -/
def perform : Deed σ → EStateM TracerError (Session M σ × σ) Unit
  | .call c => make c
  | .subscribe o => modify fun (s, host) ↦ ((s.subscribe o).2, host)
  | .unsubscribe subscription => modify fun (s, host) ↦ ((s.unsubscribe subscription).2, host)
  | .override hash handler => modify fun (s, host) ↦ (s.override hash handler, host)
  | .removeOverride hash => modify fun (s, host) ↦ ((s.removeOverride hash).2, host)

/-- Do one thing after the other, whatever comes of it. -/
def performAll (deeds : List (Deed σ)) (s : Session M σ × σ) : Session M σ × σ :=
  deeds.foldl (fun s d ↦ leaves (perform d) s) s

section Carries

variable {inv : M → σ → Prop} {s : Session M σ} {host : σ}
  (hobservers : ∀ p ∈ s.observers, p.2.Carries inv)
include hobservers

theorem report_carries {m : M} (hinv : inv m host) (events : List Event) :
    Ends (s.report (Machine.view m) events) host (fun _ ↦ inv m) fun _ ↦ inv m :=
  Ends.forM (fun event _ hinv ↦ Ends.forM_of_mem (fun p hp host hinv ↦
    hobservers p hp m event host hinv) hinv) events hinv

theorem bears_of_carries (hinv : inv s.machine host) {t : Turn M}
    (hmove : ∀ host, inv s.machine host → inv t.next host) : s.Bears inv inv t host :=
  (report_carries hobservers hinv _).mono
    (fun _ host' hinv' ↦ report_carries hobservers (hmove host' hinv') _) fun _ _ hinv' ↦ hinv'

/-- Assumes: a condition that the load preserves and the observers carry along. -/
theorem load_carries (hinv : inv s.machine host) {code : Bytes}
    (hload : ∀ host, inv s.machine host → inv (Machine.load code s.machine).next host) :
    Ends (load code) (s, host) (fun _ ↦ s.Stands inv) fun _ ↦ s.Stands inv :=
  .get_bind ((bears_of_carries hobservers hinv hload).move.mono (fun _ _ hmoved ↦ ⟨_, hmoved⟩)
    fun _ _ hstands ↦ hstands)

/-- Assumes: a condition that turns preserve and the observers carry along. -/
theorem execute_carries (hinv : inv s.machine host)
    (hturn : ∀ m t host, inv m host → Machine.turn s.overrides m = some t → inv t.next host)
    (budget : Nat) :
    Ends (execute budget) (s, host) (fun _ ↦ s.Stands inv) fun _ ↦ s.Stands inv :=
  execute_of_bears (fun m _ t hinv hnext ↦ bears_of_carries (s := { s with machine := m })
    hobservers hinv fun host hinv ↦ hturn m t host hinv hnext) hinv budget

end Carries

/-- A condition on the machine alone, which loads preserve, and turns with any replaced system
calls. -/
structure Lasts (machines : M → Prop) : Prop where
  load : ∀ m code, machines m → machines (Machine.load code m).next
  turn : ∀ overrides m t, machines m → Machine.turn overrides m = some t → machines t.next

variable {machines : M → Prop}

theorem make_machine (hlasts : Lasts machines) {s : Session M σ} (hs : machines s.machine)
    (host : σ) (c : Call) :
    Ends (make c) (s, host) (fun _ ↦ s.Stands fun m _ ↦ machines m)
      fun _ ↦ s.Stands fun m _ ↦ machines m := by
  have hobservers : ∀ p ∈ s.observers, p.2.Carries fun m _ ↦ machines m :=
    fun _ _ _ _ _ hm ↦ .of_cases (fun _ _ _ ↦ hm) fun _ _ _ ↦ hm
  cases c with
  | load code => exact load_carries hobservers hs fun _ hm ↦ hlasts.load _ code hm
  | execute budget =>
    refine (execute_carries hobservers hs (fun m t _ hm hturn ↦ ?_) budget).bind ?_
    · exact hlasts.turn _ m t hm hturn
    · exact fun _ _ hstands ↦ .pure hstands

theorem perform_machine (hlasts : Lasts machines) {s : Session M σ × σ}
    (hs : machines s.1.machine) (d : Deed σ) : machines (leaves (perform d) s).1.machine := by
  obtain ⟨s, host⟩ := s
  cases d with
  | call c =>
    obtain ⟨m, hnext, hm⟩ := (make_machine hlasts hs host c).leaves
    rw [perform, hnext]
    exact hm
  | subscribe o => exact hs
  | unsubscribe subscription => exact hs
  | override hash handler => exact hs
  | removeOverride hash => exact hs

/-- Whatever a host does with a session, and whatever fails. -/
theorem performAll_machine (hlasts : Lasts machines) (deeds : List (Deed σ))
    {s : Session M σ × σ} (hs : machines s.1.machine) :
    machines (performAll deeds s).1.machine := by
  induction deeds generalizing s with
  | nil => exact hs
  | cons d rest ih => exact ih (perform_machine hlasts hs d)

end Session

/-! ### Engines -/

namespace Engine

variable {ρ τ : Type}

/-- What a host does with an engine and with the session underneath. -/
inductive Deed (τ : Type) where
  | call (c : Call)
  | beneath (d : Session.Deed τ)
  | dispose
  | drop

/-- The same for observers that see the second component only. -/
def Deed.widen : Deed τ → Deed (σ × τ)
  | call c => .call c
  | beneath d => .beneath d.widen
  | dispose => .dispose
  | drop => .drop

variable (close : EStateM TracerError (ρ × τ) Unit)

/-- Do what a host does with an engine. -/
def act : Deed τ → Act M ρ τ Unit
  | .call c => make c
  | .beneath d => onSession (Session.perform d.widen)
  | .dispose => dispose close
  | .drop => fun (e, t) ↦ .ok () (drop close e t)

/-- Do one thing after the other, whatever comes of it. -/
def actAll (deeds : List (Deed τ)) (s : Engine M ρ τ × τ) : Engine M ρ τ × τ :=
  deeds.foldl (fun s d ↦ leaves (act close d) s) s

omit [Machine M] in
/-- Disposing of an engine takes observers away and closes what the recorder writes to. -/
theorem dispose_keeps {e : Engine M ρ τ} {t : τ} (closed : ρ × τ → Prop)
    (hopen : closed (e.recorder, t))
    (hclose : Ends close (e.recorder, t) (fun _ ↦ closed) fun _ ↦ closed) :
    let kept (next : Engine M ρ τ × τ) : Prop := next.1.session.machine = e.session.machine ∧
      (∀ p ∈ next.1.session.observers, p ∈ e.session.observers) ∧ closed (next.1.recorder, next.2)
    Ends (dispose close) (e, t) (fun _ ↦ kept) fun _ ↦ kept := by
  intro kept
  refine .get_bind ?_
  dsimp only
  split
  · exact .pure ⟨rfl, fun _ hp ↦ hp, hopen⟩
  · rename_i subscription _
    refine .modify_bind ?_
    generalize hsession : (if e.witnessOverride = true then
      ((e.session.unsubscribe subscription).2.restoreWitness).2
      else (e.session.unsubscribe subscription).2) = session
    have hmachine : session.machine = e.session.machine := by
      rw [← hsession]
      split <;> rfl
    have hobservers : ∀ p ∈ session.observers, p ∈ e.session.observers := by
      rw [← hsession]
      split <;> exact fun p hp ↦ (List.mem_filter.mp hp).1
    obtain ⟨answer, ⟨r, t'⟩, hrun⟩ := exists_resultOf close (e.recorder, t)
    have hclosed := hclose.of_resultOf hrun
    rw [Ends, onSession_eq (onSecond_eq hrun session)]
    cases answer with
    | ok _ => exact ⟨hmachine, hobservers, hclosed⟩
    | error _ => exact ⟨hmachine, hobservers, hclosed⟩

omit [Machine M] in
/-- Dropping an engine leaves what disposing of it leaves. -/
theorem drop_eq (s : Engine M ρ τ × τ) : drop close s.1 s.2 = leaves (dispose close) s := by
  unfold leaves drop
  cases dispose close s <;> rfl

end Engine

end ScriptTrace
