import ScriptTrace.Proofs.StackMachine.Turns

/-!
Conditions that operations of the stack machine preserve. A `Condition` speaks of items and frames
one by one. Operations push items that are known, or truth values, or elements of arrays, and enter
frames at the start of a script; only a branch changes a frame in another way. So an operation
preserves any condition that its branches preserve, also if it faults (`Condition.keeps_operate`),
and what it reports satisfies the condition as well.
-/

set_option autoImplicit false
set_option relaxedAutoImplicit false

namespace ScriptTrace

/-- The items of an event. -/
def Event.items : Event → List Item
  | .notify event => event.state
  | _ => []

/-- Replaced system calls answer items that satisfy a condition. -/
def Overrides.Answer (overrides : Overrides) (item : Item → Prop) : Prop :=
  ∀ hash handler, overrides.get? hash = some handler → ∀ view arguments x,
    handler view arguments = .ok (some x) → item x

theorem Overrides.answer_empty (item : Item → Prop) : Overrides.Answer .empty item := by
  intro hash handler hhandler
  exact absurd hhandler (Option.some_ne_none handler).symm

namespace StackMachine

/-- A condition on items, frames and the scripts of contracts. Frames that satisfy it may get
another stack of such items and a catch flag, and such frames enter contracts. -/
structure Condition where
  item : Item → Prop
  frame : Frame → Prop
  code : Bytes → Prop
  boolean : ∀ b, item (.boolean b)
  element : ∀ items, item (.array items) → ∀ x ∈ items, item x
  stack : ∀ f, frame f → ∀ x ∈ f.stack, item x
  restack : ∀ f stack, frame f → (∀ x ∈ stack, item x) → frame { f with stack := stack }
  flag : ∀ f, frame f → frame { f with hasCatch := true }
  enter : ∀ bs hash arguments, code bs → (∀ x ∈ arguments, item x) →
    frame ⟨bs, hash, 0, [], arguments, false⟩

namespace Condition

/-- All that a machine holds satisfies a condition, and so do the scripts deployed. -/
structure Holds (K : Condition) (m : StackMachine) : Prop where
  frames : ∀ f ∈ m.frames, K.frame f
  results : ∀ x ∈ m.results, K.item x
  deployed : ∀ hash contract, m.snapshot.contract? hash = some contract → K.code contract.code

/-- The items of events satisfy a condition. -/
def Tells (K : Condition) (events : List Event) : Prop :=
  ∀ event ∈ events, ∀ x ∈ event.items, K.item x

/-- A step preserves a condition, also if it faults, and answers in a certain way. -/
def Keeps {α : Type} (K : Condition) (x : Step α) (m : StackMachine) (answers : α → Prop) : Prop :=
  Ends x m (fun a m' ↦ K.Holds m' ∧ answers a) fun _ m' ↦ K.Holds m'

variable {K : Condition} {m : StackMachine}

namespace Holds

theorem top {f : Frame} {rest : List Frame} (h : K.Holds m) (hframes : m.frames = f :: rest) :
    K.frame f :=
  h.frames f (hframes ▸ List.mem_cons_self)

/-- The frames are replaced by other ones. -/
theorem of_frames (h : K.Holds m) {frames : List Frame} (hframes : ∀ f ∈ frames, K.frame f) :
    K.Holds { m with frames := frames } :=
  ⟨hframes, h.results, h.deployed⟩

/-- The current frame is replaced by another one. -/
theorem of_top {f g : Frame} {rest : List Frame} (h : K.Holds m) (hframes : m.frames = f :: rest)
    (hg : K.frame g) : K.Holds { m with frames := g :: rest } :=
  h.of_frames (List.forall_mem_cons.mpr
    ⟨hg, fun f hf ↦ h.frames f (hframes ▸ List.mem_cons_of_mem _ hf)⟩)

theorem enter (h : K.Holds m) {bs : Bytes} (hcode : K.code bs) (hash : Hash)
    {arguments : List Item} (harguments : ∀ x ∈ arguments, K.item x) :
    K.Holds (m.enter bs hash arguments).1 :=
  h.of_frames (List.forall_mem_cons.mpr ⟨K.enter bs hash arguments hcode harguments, h.frames⟩)

theorem raise (h : K.Holds m) (fault : ScriptFault) : K.Holds (m.raise fault).1 :=
  ⟨h.frames, h.results, h.deployed⟩

theorem reset (h : K.Holds m) : K.Holds m.reset := by
  unfold StackMachine.reset
  split
  · exact ⟨nofun, nofun, h.deployed⟩
  · exact h

end Holds

/-! ### Steps -/

namespace Keeps

variable {α β : Type} {answers : α → Prop} {replies : β → Prop}

theorem pure (h : K.Holds m) {a : α} (ha : answers a) : K.Keeps (Pure.pure a) m answers := ⟨h, ha⟩

theorem throw (h : K.Holds m) (fault : ScriptFault) :
    K.Keeps (MonadExcept.throw fault : Step α) m answers := h

theorem bind {x : Step α} {f : α → Step β} (hx : K.Keeps x m answers)
    (hf : ∀ a m', K.Holds m' → answers a → K.Keeps (f a) m' replies) :
    K.Keeps (x >>= f) m replies :=
  Ends.bind hx fun a m' hnext ↦ hf a m' hnext.1 hnext.2

theorem get_bind {f : StackMachine → Step β} (hf : K.Keeps (f m) m replies) :
    K.Keeps (get >>= f) m replies := hf

/-- A step that reports nothing. -/
theorem silent {x : Step α} (hx : K.Keeps x m answers) :
    K.Keeps (do let _ ← x; return ([] : List Event)) m K.Tells :=
  hx.bind fun _ _ hnext _ ↦ .pure hnext nofun

end Keeps

theorem keeps_push (h : K.Holds m) {x : Item} (hx : K.item x) :
    K.Keeps (push x) m fun _ ↦ True := by
  unfold Keeps Ends push
  cases hframes : m.frames with
  | nil => exact h
  | cons f rest =>
    have htop := h.top hframes
    have hstack := List.forall_mem_cons.mpr ⟨hx, K.stack f htop⟩
    exact ⟨h.of_top hframes (K.restack f _ htop hstack), trivial⟩

/-- The scripts stay the same. -/
theorem keeps_pop (h : K.Holds m) :
    Ends pop m (fun x m' ↦ (K.Holds m' ∧ K.item x) ∧ SameScripts m m') fun _ m' ↦ K.Holds m' := by
  unfold Ends pop
  cases hframes : m.frames with
  | nil => exact h
  | cons f rest =>
    have htop := h.top hframes
    cases hstack : f.stack with
    | nil =>
      simp only [hstack]
      exact h
    | cons x below =>
      simp only [hstack]
      have hitems := K.stack f htop
      rw [hstack] at hitems
      obtain ⟨hx, hbelow⟩ := List.forall_mem_cons.mp hitems
      exact ⟨⟨h.of_top hframes (K.restack f below htop hbelow), hx⟩, .of_top hframes rfl⟩

theorem keeps_popMany (h : K.Holds m) (count : Nat) :
    K.Keeps (popMany count) m fun items ↦ ∀ x ∈ items, K.item x := by
  induction count generalizing m with
  | zero => exact .pure h nofun
  | succ count ih =>
    refine Ends.bind (keeps_pop h) fun x m₁ hpopped ↦ ?_
    refine (ih hpopped.1.1).bind fun rest m₂ h₂ hrest ↦ ?_
    exact .pure h₂ (List.forall_mem_cons.mpr ⟨hpopped.1.2, hrest⟩)

theorem keeps_modifyFrame (h : K.Holds m) {g : Frame → Frame}
    (hg : ∀ f rest, m.frames = f :: rest → K.frame (g f)) :
    K.Keeps (modifyFrame g) m fun _ ↦ True := by
  unfold Keeps Ends modifyFrame
  cases hframes : m.frames with
  | nil => exact h
  | cons f rest => exact ⟨h.of_top hframes (hg f rest hframes), trivial⟩

/-- Frames of the current script may go to a position. -/
def Admits (K : Condition) (m : StackMachine) (position : Nat) : Prop :=
  ∀ f, K.frame f → m.frames.head?.map Frame.script = some f.script →
    K.frame { f with position := position }

theorem keeps_jumpIf (h : K.Holds m) {target : Option Nat} (htarget : ∀ t ∈ target, K.Admits m t) :
    K.Keeps (jumpIf target) m fun _ ↦ True := by
  refine Ends.bind (keeps_pop h) fun condition m₁ hpopped ↦ ?_
  obtain ⟨⟨h₁, -⟩, hsame⟩ := hpopped
  split
  · cases target with
    | none => exact Keeps.throw h₁ _
    | some t =>
      refine keeps_modifyFrame h₁ fun f rest hframes ↦ htarget t rfl f (h₁.top hframes) ?_
      have hscripts := congrArg List.head? hsame.scripts
      rwa [List.head?_map, List.head?_map, hframes, eq_comm] at hscripts
  · exact Keeps.pure h₁ trivial

/-- Assumes: the condition holds without the current frame, and of the items on its stack. -/
theorem keeps_leave_of_rest {f : Frame} {rest : List Frame} (hframes : m.frames = f :: rest)
    (hstack : ∀ x ∈ f.stack, K.item x) (hrest : K.Holds { m with frames := rest }) :
    K.Keeps leave m K.Tells := by
  have hunloaded : K.Tells [.contextUnloaded f.context] := List.forall_mem_singleton.mpr nofun
  unfold Keeps Ends leave
  rw [hframes]
  cases rest with
  | nil => exact ⟨⟨nofun, fun x hx ↦ hstack x (List.mem_reverse.mp hx), hrest.deployed⟩, hunloaded⟩
  | cons caller below =>
    have hcaller := hrest.top rfl
    have hboth := List.forall_mem_append.mpr ⟨hstack, K.stack caller hcaller⟩
    exact ⟨hrest.of_top rfl (K.restack caller _ hcaller hboth), hunloaded⟩

theorem keeps_leave (h : K.Holds m) : K.Keeps leave m K.Tells := by
  cases hframes : m.frames with
  | nil =>
    unfold Keeps Ends leave
    rw [hframes]
    exact h
  | cons f rest =>
    have hrest : K.Holds { m with frames := rest } :=
      h.of_frames fun g hg ↦ h.frames g (hframes ▸ List.mem_cons_of_mem _ hg)
    exact keeps_leave_of_rest hframes (K.stack f (h.top hframes)) hrest

/-! ### System calls -/

/-- A notification shows the elements of an array. -/
theorem keeps_notify (h : K.Holds m) (name : Item) {state : Item} (hstate : K.item state) :
    K.Keeps (notify name state) m K.Tells := by
  unfold notify
  split
  · exact .throw h _
  · cases state with
    | array items =>
      exact .get_bind (.pure h (List.forall_mem_singleton.mpr (K.element items hstate)))
    | _ => exact .throw h _

/-- A call hands on the elements of an array. -/
theorem keeps_call (h : K.Holds m) (target : Item) {arguments : Item}
    (harguments : K.item arguments) : K.Keeps (call target arguments) m K.Tells := by
  unfold call
  split
  · exact .throw h _
  · refine .get_bind ?_
    split
    · exact .throw h _
    · rename_i contract hdeployed
      have hcode := h.deployed _ contract hdeployed
      refine ⟨h.enter hcode _ ?_, List.forall_mem_singleton.mpr nofun⟩
      cases arguments with
      | array items => exact K.element items harguments
      | _ => exact nofun

theorem keeps_perform (h : K.Holds m) (s : Syscall) {arguments : List Item}
    (harguments : ∀ x ∈ arguments, K.item x) : K.Keeps (perform s arguments) m K.Tells := by
  unfold perform
  split
  · unfold log
    split
    · exact .throw h _
    · exact .get_bind (.pure h (List.forall_mem_singleton.mpr nofun))
  · exact keeps_notify h _ (harguments _ (by simp))
  · unfold checkWitness
    split
    · exact .throw h _
    · exact (keeps_push h (K.boolean _)).silent
  · exact keeps_call h _ (harguments _ (by simp))
  · exact (keeps_push h (K.boolean _)).silent
  · exact .throw h _

theorem keeps_syscall (h : K.Holds m) {overrides : Overrides} (hanswer : overrides.Answer K.item)
    (hash : UInt32) : K.Keeps (syscall overrides hash) m K.Tells := by
  unfold syscall
  refine (keeps_popMany h _).bind fun arguments m₁ h₁ harguments ↦ ?_
  split
  · rename_i handler hhandler
    refine .get_bind ?_
    split
    · exact .throw h₁ _
    · exact .pure h₁ nofun
    · rename_i x hx
      exact (keeps_push h₁ (hanswer hash handler hhandler _ _ x hx)).silent
  · exact .throw h₁ _
  · exact keeps_perform h₁ _ harguments

/-! ### Operations -/

/-- Assumes: replaced system calls that answer allowed items, and an operation that pushes allowed
items and branches to allowed positions. -/
theorem keeps_operate (h : K.Holds m) {overrides : Overrides} (hanswer : overrides.Answer K.item)
    {operation : Operation} (hpush : ∀ x, operation = .push x → K.item x)
    (hjump : ∀ target, operation = .jumpIf target → ∀ t ∈ target, K.Admits m t) :
    K.Keeps (operate overrides operation) m K.Tells := by
  cases operation with
  | push x => exact (keeps_push h (hpush x rfl)).silent
  | jumpIf target => exact (keeps_jumpIf h (hjump target rfl)).silent
  | abort => exact .throw h _
  | enterTry =>
    have hflag := keeps_modifyFrame h fun f rest hframes ↦ K.flag f (h.top hframes)
    exact hflag.silent
  | ret => exact keeps_leave h
  | syscall hash => exact keeps_syscall h hanswer hash
  | skip => exact .pure h nofun

end Condition

end StackMachine

end ScriptTrace
