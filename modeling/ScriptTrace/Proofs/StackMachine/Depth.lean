import ScriptTrace.Proofs.Codec.Nesting
import ScriptTrace.Proofs.Session.Drive
import ScriptTrace.Proofs.Session.Likeness
import ScriptTrace.Proofs.StackMachine.Conditions

/-!
How deep the items of a stack machine are. An item is shallow if it has no more levels than an
encoding may have. Instructions push shallow items, and the elements of an array are less deep than
the array, so as long as replaced system calls answer shallow items nothing on a stack, among the
arguments of a call or in a notification is too deep (`preserved_shallow`).
-/

set_option autoImplicit false
set_option relaxedAutoImplicit false

namespace ScriptTrace

/-- An item has at most as many levels as an encoding may have. -/
def Item.Shallow (x : Item) : Prop := x.depth ≤ maxItemDepth

/-- An item without elements has one level. -/
theorem Item.shallow_of_depth_eq_one {x : Item} (h : x.depth = 1) : x.Shallow := by
  rw [Shallow, h]
  decide

/-- Elements are less deep than their array. -/
theorem Item.Shallow.of_mem {items : List Item} (h : (Item.array items).Shallow) {x : Item}
    (hx : x ∈ items) : x.Shallow := by
  have hlist : depthList items ≤ maxItemDepth := by
    rw [Shallow, depth] at h
    omega
  exact (depthList_le_iff items maxItemDepth).mp hlist x hx

/-- What an instruction pushes has no elements. -/
theorem Instruction.shallow_of_operation {i : Instruction} {item : Item}
    (h : i.operation = .push item) : item.Shallow := by
  refine i.operation_cases (P := fun o ↦ o = .push item → item.Shallow) (fun x hx heq ↦ ?_)
    nofun nofun nofun nofun (fun _ ↦ nofun) nofun h
  exact Item.shallow_of_depth_eq_one (Operation.push.inj heq ▸ hx)

/-- A predicate for witness checks answers truth values. -/
theorem WitnessChecker.exists_of_handler {c : WitnessChecker} {view : View}
    {arguments : List Item} {item : Item}
    (h : c.handler view arguments = .ok (some item)) : ∃ b, item = .boolean b := by
  unfold handler at h
  split at h
  · cases h
  · split at h
    · cases h
    · exact ⟨_, (Option.some.inj (Except.ok.inj h)).symm⟩

theorem Overrides.Answer.witnessed {overrides : Overrides} {item : Item → Prop}
    (h : overrides.Answer item) (hboolean : ∀ b, item (.boolean b))
    (checker : Option WitnessChecker) : (Engine.witnessed checker overrides).Answer item := by
  cases checker with
  | none => exact h
  | some c =>
    intro hash handler hhandler view arguments x hanswer
    rw [Engine.witnessed, Table.get?_set] at hhandler
    split at hhandler
    · rw [← Option.some.inj hhandler] at hanswer
      obtain ⟨b, rfl⟩ := WitnessChecker.exists_of_handler hanswer
      exact hboolean b
    · exact h hash handler hhandler view arguments x hanswer

/-! ### Notices -/

/-- The items that observers see of a machine. -/
def View.items (view : View) : List Item :=
  (view.frames.map Context.toRecord).flatMap FrameRecord.items ++ view.resultStack

/-- All that a notice shows is shallow. -/
structure Notice.Shallow (n : Notice) : Prop where
  view : ∀ x ∈ n.1.items, x.Shallow
  event : ∀ x ∈ n.2.items, x.Shallow

/-! ### Machines -/

/-- The items of a frame are shallow. -/
structure Frame.Shallow (f : Frame) : Prop where
  stack : ∀ x ∈ f.stack, x.Shallow
  arguments : ∀ x ∈ f.arguments, x.Shallow

namespace StackMachine

/-- All items are shallow. -/
def shallow : Condition where
  item := Item.Shallow
  frame := Frame.Shallow
  code _ := True
  boolean _ := Item.shallow_of_depth_eq_one rfl
  element _ hitems _ hx := hitems.of_mem hx
  stack _ hf := hf.stack
  restack _ _ hf hstack := ⟨hstack, hf.arguments⟩
  flag _ hf := ⟨hf.stack, hf.arguments⟩
  enter _ _ _ _ harguments := ⟨nofun, harguments⟩

variable {m : StackMachine} (h : shallow.Holds m)
include h

/-- Observers see the items of a machine. -/
theorem shallow_of_mem_view : ∀ x ∈ m.view.items, x.Shallow := by
  refine List.forall_mem_append.mpr ⟨fun x hx ↦ ?_, h.results⟩
  obtain ⟨_, hrecord, hx⟩ := List.mem_flatMap.mp hx
  obtain ⟨_, hcontext, rfl⟩ := List.mem_map.mp hrecord
  obtain ⟨f, hf, rfl⟩ := List.mem_map.mp hcontext
  have hitems : x ∈ f.stack.reverse ++ [] ++ [] ++ f.arguments := hx
  rw [List.append_nil, List.append_nil] at hitems
  rcases List.mem_append.mp hitems with hstack | hargument
  · exact (h.frames f hf).stack x (List.mem_reverse.mp hstack)
  · exact (h.frames f hf).arguments x hargument

/-- A machine tells observers of events, and shows itself. -/
theorem shallow_of_mem_notices {events : List Event} (hevents : shallow.Tells events) :
    ∀ n ∈ events.map (Prod.mk m.view), Notice.Shallow n := by
  intro n hn
  obtain ⟨event, hevent, rfl⟩ := List.mem_map.mp hn
  exact ⟨shallow_of_mem_view h, hevents event hevent⟩

theorem shallow_charge (i : Instruction) : shallow.Holds (m.charge i) := by
  unfold charge
  cases hframes : m.frames with
  | nil => exact ⟨nofun, h.results, h.deployed⟩
  | cons f rest =>
    have htop := h.top hframes
    have hmoved : Frame.Shallow { f with position := f.position + i.size } :=
      ⟨htop.stack, htop.arguments⟩
    exact ⟨(h.of_top hframes hmoved).frames, h.results, h.deployed⟩

theorem shallow_operate {overrides : Overrides} (hanswer : overrides.Answer Item.Shallow)
    (i : Instruction) : shallow.Keeps (operate overrides i.operation) m shallow.Tells :=
  Condition.keeps_operate h hanswer (fun _ ↦ Instruction.shallow_of_operation)
    fun _ _ _ _ _ hf _ ↦ ⟨hf.stack, hf.arguments⟩

theorem shallow_turn {overrides : Overrides} (hanswer : overrides.Answer Item.Shallow)
    {t : Turn StackMachine} (hturn : turn overrides m = some t) :
    shallow.Holds t.next ∧ ∀ n ∈ t.notices m, Notice.Shallow n := by
  have hbefore (i : Instruction) : shallow.Tells [.preExecute i] :=
    List.forall_mem_singleton.mpr nofun
  have hfault (exception : String) : shallow.Tells [.fault exception] :=
    List.forall_mem_singleton.mpr nofun
  cases outcome_of_turn hturn with
  | empty =>
    exact ⟨⟨h.frames, h.results, h.deployed⟩, List.forall_mem_append.mpr
      ⟨List.forall_mem_nil _, List.forall_mem_nil _⟩⟩
  | @undecodable fault =>
    have hnext := h.raise fault
    exact ⟨hnext, shallow_of_mem_notices hnext (hfault _)⟩
  | @completed i events m' hcompletes =>
    obtain ⟨hnext, hevents⟩ :=
      (shallow_operate (shallow_charge h i) hanswer i).of_ok hcompletes.operate
    have hafter : shallow.Tells (events ++ [.postExecute i]) :=
      List.forall_mem_append.mpr ⟨hevents, List.forall_mem_singleton.mpr nofun⟩
    exact ⟨hnext, List.forall_mem_append.mpr
      ⟨shallow_of_mem_notices h (hbefore i), shallow_of_mem_notices hnext hafter⟩⟩
  | @faulted i fault m' hfaults =>
    have hstopped :=
      (shallow_operate (shallow_charge h i) hanswer i).of_error hfaults.operate
    have hnext := hstopped.raise fault
    exact ⟨hnext, List.forall_mem_append.mpr
      ⟨shallow_of_mem_notices h (hbefore i), shallow_of_mem_notices hnext (hfault _)⟩⟩

theorem shallow_load (code : Bytes) :
    shallow.Holds (m.load code).next ∧ ∀ n ∈ (m.load code).notices m, Notice.Shallow n := by
  have hnone : ∀ x ∈ ([] : List Item), x.Shallow := nofun
  have hcode : shallow.code code := trivial
  have hnext := h.reset.enter hcode (Hash.ofScript code) hnone
  exact ⟨hnext, shallow_of_mem_notices hnext (List.forall_mem_singleton.mpr nofun)⟩

omit h

/-- Assumes: replaced system calls that answer shallow items. Loads and turns leave all items
shallow and show no others. -/
theorem preserved_shallow {overrides : Overrides} (hanswer : overrides.Answer Item.Shallow) :
    Preserved overrides shallow.Holds Notice.Shallow where
  load _ code h := shallow_load h code
  turn _ _ h hturn := shallow_turn h hanswer hturn

/-- A machine that a new one has become by loads and turns, without replaced system calls. -/
inductive Reached : StackMachine → Prop
  | create (session : SessionId) (snapshot : Snapshot) (settings : Settings)
    (signers : List Hash) : Reached (create session snapshot settings signers)
  | load {m : StackMachine} (hm : Reached m) (code : Bytes) : Reached (m.load code).next
  | turn {m : StackMachine} (hm : Reached m) {t : Turn StackMachine}
    (hturn : turn .empty m = some t) : Reached t.next

theorem Reached.shallow {m : StackMachine} (hm : m.Reached) : StackMachine.shallow.Holds m := by
  induction hm with
  | create => exact ⟨nofun, nofun, fun _ _ _ ↦ trivial⟩
  | load _ code ih => exact (shallow_load ih code).1
  | turn _ hturn ih => exact (shallow_turn ih (Overrides.answer_empty _) hturn).1

end StackMachine

end ScriptTrace
