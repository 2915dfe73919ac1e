import ScriptTrace.Proofs.Act
import ScriptTrace.StackMachine

/-!
What a turn of the stack machine can do. An operation that faults leaves the scripts on the call
stack alone, and so does one that completes unless it calls a contract or returns; `Effect` lists
what a completed operation reports and does to the call stack, and `meets_operate` says that there
is nothing else. A turn is then one of four things (`Outcome`): the machine halts without frames,
the next instruction does not decode, it completes, or it faults.
-/

set_option autoImplicit false
set_option relaxedAutoImplicit false

namespace ScriptTrace

/-- The script that a frame runs. -/
def Frame.script (f : Frame) : Hash × Bytes := (f.scriptHash, f.code)

/-- What an instruction may do: what it pushes has no elements, and it branches to its target. -/
theorem Instruction.operation_cases (i : Instruction) {P : Operation → Prop}
    (push : ∀ item : Item, item.depth = 1 → P (.push item)) (jumpIf : P (.jumpIf i.branchTarget))
    (abort : P .abort) (enterTry : P .enterTry) (ret : P .ret)
    (syscall : ∀ hash, P (.syscall hash)) (skip : P .skip) : P i.operation := by
  unfold operation
  refine iteInduction (fun _ ↦ push _ rfl) fun _ ↦ ?_
  refine iteInduction (fun _ ↦ push _ rfl) fun _ ↦ ?_
  refine iteInduction (fun _ ↦ push _ rfl) fun _ ↦ ?_
  refine iteInduction (fun _ ↦ push _ rfl) fun _ ↦ ?_
  refine iteInduction (fun _ ↦ jumpIf) fun _ ↦ ?_
  refine iteInduction (fun _ ↦ abort) fun _ ↦ ?_
  refine iteInduction (fun _ ↦ enterTry) fun _ ↦ ?_
  refine iteInduction (fun _ ↦ push _ rfl) fun _ ↦ ?_
  refine iteInduction (fun _ ↦ ret) fun _ ↦ ?_
  exact iteInduction (fun _ ↦ syscall _) fun _ ↦ skip

namespace StackMachine

theorem length_of_popMany {count : Nat} {m m' : StackMachine} {items : List Item}
    (h : popMany count m = .ok items m') : items.length = count := by
  induction count generalizing m m' items with
  | zero =>
    obtain ⟨rfl, -⟩ := EStateM.Result.ok.inj h
    rfl
  | succ count ih =>
    obtain ⟨item, m₁, -, hrest⟩ := bind_eq_ok h
    obtain ⟨rest, m₂, hmany, hlast⟩ := bind_eq_ok hrest
    obtain ⟨rfl, -⟩ := EStateM.Result.ok.inj hlast
    rw [List.length_cons, ih hmany]

/-! ### Operations that keep to the current frame -/

/-- Two machines agree on what no operation changes. -/
structure SameSession (m m' : StackMachine) : Prop where
  session_eq : m'.session = m.session
  snapshot_eq : m'.snapshot = m.snapshot
  settings_eq : m'.settings = m.settings
  signers_eq : m'.signers = m.signers
  gas_eq : m'.gas = m.gas

/-- Two machines are the same but for the stack, the position and the catch flag of the current
frame. -/
structure SameScripts (m m' : StackMachine) : Prop where
  eq : m' = { m with frames := m'.frames }
  scripts : m'.frames.map Frame.script = m.frames.map Frame.script
  tail : m'.frames.tail = m.frames.tail

namespace SameScripts

variable {m m₁ m' : StackMachine}

theorem refl (m : StackMachine) : SameScripts m m := ⟨rfl, rfl, rfl⟩

theorem trans (hfirst : SameScripts m m₁) (hsecond : SameScripts m₁ m') : SameScripts m m' where
  eq := by
    rw [hsecond.eq, hfirst.eq]
  scripts := hsecond.scripts.trans hfirst.scripts
  tail := hsecond.tail.trans hfirst.tail

/-- Changing the current frame but for its script. -/
theorem of_top {f g : Frame} {rest : List Frame} (hframes : m.frames = f :: rest)
    (hscript : g.script = f.script) : SameScripts m { m with frames := g :: rest } where
  eq := rfl
  scripts := by rw [hframes, List.map_cons, List.map_cons, hscript]
  tail := by rw [hframes, List.tail_cons, List.tail_cons]

theorem sameSession (h : SameScripts m m') : SameSession m m' := by
  rw [h.eq]
  exact ⟨rfl, rfl, rfl, rfl, rfl⟩

theorem state_eq (h : SameScripts m m') : m'.state = m.state := by rw [h.eq]

theorem hashes_eq (h : SameScripts m m') :
    m'.frames.map (·.scriptHash) = m.frames.map (·.scriptHash) := by
  have hmap := congrArg (List.map Prod.fst) h.scripts
  rwa [List.map_map, List.map_map] at hmap

theorem length_eq (h : SameScripts m m') : m'.frames.length = m.frames.length := by
  have hlength := congrArg List.length h.scripts
  rwa [List.length_map, List.length_map] at hlength

end SameScripts

/-- A step, on its way from a machine `start`: if it faults, the scripts are those of `start`, and
if it does not, its answer and the machine it leaves satisfy a condition. -/
def Meets {α : Type} (start : StackMachine) (x : Step α) (m : StackMachine)
    (post : α → StackMachine → Prop) : Prop :=
  match x m with
  | .ok a m' => post a m'
  | .error _ m' => SameScripts start m'

section Meets

variable {α β : Type} {start m : StackMachine}

theorem Meets.pure {a : α} {post : α → StackMachine → Prop} (h : post a m) :
    Meets start (pure a : Step α) m post := h

theorem meets_throw (h : SameScripts start m) (fault : ScriptFault)
    (post : α → StackMachine → Prop) : Meets start (throw fault : Step α) m post := h

theorem Meets.get_bind {f : StackMachine → Step α} {post : α → StackMachine → Prop}
    (hf : Meets start (f m) m post) : Meets start (get >>= f) m post := hf

theorem Meets.bind {x : Step α} {f : α → Step β} {post : β → StackMachine → Prop}
    (hx : Meets start x m fun _ ↦ SameScripts start)
    (hf : ∀ a m₁, SameScripts start m₁ → Meets start (f a) m₁ post) :
    Meets start (x >>= f) m post := by
  unfold Meets at hx
  cases hrun : x m with
  | ok a m₁ =>
    rw [hrun] at hx
    have hnext := hf a m₁ hx
    unfold Meets at hnext ⊢
    rwa [bind_ok hrun]
  | error fault m₁ =>
    rw [hrun] at hx
    unfold Meets
    rwa [bind_error hrun]

theorem meets_push (h : SameScripts start m) (item : Item) :
    Meets start (push item) m fun _ ↦ SameScripts start := by
  unfold Meets push
  cases hframes : m.frames with
  | nil => exact h
  | cons f rest => exact h.trans (.of_top hframes rfl)

theorem meets_pop (h : SameScripts start m) : Meets start pop m fun _ ↦ SameScripts start := by
  unfold Meets pop
  cases hframes : m.frames with
  | nil => exact h
  | cons f rest =>
    cases hstack : f.stack with
    | nil =>
      simp only [hstack]
      exact h
    | cons item below =>
      simp only [hstack]
      exact h.trans (.of_top hframes rfl)

theorem meets_popMany (h : SameScripts start m) (count : Nat) :
    Meets start (popMany count) m fun _ ↦ SameScripts start := by
  induction count generalizing m with
  | zero => exact h
  | succ count ih =>
    refine (meets_pop h).bind fun item m₁ hpop ↦ ?_
    exact (ih hpop).bind fun rest m₂ hmany ↦ hmany

theorem meets_modifyFrame (h : SameScripts start m) {g : Frame → Frame}
    (hg : ∀ f, (g f).script = f.script) :
    Meets start (modifyFrame g) m fun _ ↦ SameScripts start := by
  unfold Meets modifyFrame
  cases hframes : m.frames with
  | nil => exact h
  | cons f rest => exact h.trans (.of_top hframes (hg f))

theorem meets_jumpIf (h : SameScripts start m) (target : Option Nat) :
    Meets start (jumpIf target) m fun _ ↦ SameScripts start := by
  refine (meets_pop h).bind fun condition m₁ hpop ↦ ?_
  split
  · cases target with
    | none => exact meets_throw hpop _ _
    | some t => exact meets_modifyFrame hpop fun f ↦ rfl
  · exact .pure hpop

theorem meets_checkWitness (h : SameScripts start m) (argument : Item) :
    Meets start (checkWitness argument) m fun _ ↦ SameScripts start := by
  unfold checkWitness
  split
  · exact meets_throw h _ _
  · exact .get_bind (meets_push h _)

end Meets

/-! ### What an operation reports -/

/-- What a completed operation reports, and the machine it leaves. -/
inductive Effect (m : StackMachine) : List Event → StackMachine → Prop
  /-- Nothing is reported, and the scripts are the same. -/
  | silent {m' : StackMachine} (h : SameScripts m m') : Effect m [] m'
  | logged {m' : StackMachine} (h : SameScripts m m') (message : String) :
    Effect m [.log ⟨m'.session, m'.currentHash, message⟩] m'
  | notified {m' : StackMachine} (h : SameScripts m m') (eventName : String)
    (state : List Item) : Effect m [.notify ⟨m'.session, m'.currentHash, eventName, state⟩] m'
  /-- A deployed contract is called. -/
  | called {m₁ : StackMachine} (h : SameScripts m m₁) {hash : Hash} {contract : Contract}
    (hdeployed : m.snapshot.contract? hash = some contract) (arguments : List Item) :
    Effect m (m₁.enter contract.code contract.hash arguments).2
      (m₁.enter contract.code contract.hash arguments).1
  /-- A frame returns to its caller. -/
  | returned {m₁ : StackMachine} (h : SameScripts m m₁) {f caller : Frame} {rest : List Frame}
    (hframes : m₁.frames = f :: caller :: rest) :
    Effect m [.contextUnloaded f.context]
      { m₁ with frames := { caller with stack := f.stack ++ caller.stack } :: rest }
  /-- The outermost frame returns. -/
  | finished {m₁ : StackMachine} (h : SameScripts m m₁) {f : Frame} (hframes : m₁.frames = [f]) :
    Effect m [.contextUnloaded f.context]
      { m₁ with frames := [], results := f.stack.reverse, state := .halt }

section Effect

variable {start m : StackMachine}

theorem meets_leave (h : SameScripts start m) : Meets start leave m (Effect start) := by
  unfold Meets leave
  match hframes : m.frames with
  | [] => exact h
  | [f] => exact .finished h hframes
  | f :: caller :: rest => exact .returned h hframes

theorem meets_log (h : SameScripts start m) (argument : Item) :
    Meets start (log argument) m (Effect start) := by
  unfold log
  split
  · exact meets_throw h _ _
  · exact .get_bind (.pure (.logged h _))

theorem meets_notify (h : SameScripts start m) (name state : Item) :
    Meets start (notify name state) m (Effect start) := by
  unfold notify
  split
  · exact meets_throw h _ _
  · split
    · exact .get_bind (.pure (.notified h _ _))
    · exact meets_throw h _ _

theorem meets_call (h : SameScripts start m) (target arguments : Item) :
    Meets start (call target arguments) m (Effect start) := by
  unfold call
  split
  · exact meets_throw h _ _
  · refine .get_bind ?_
    split
    · exact meets_throw h _ _
    · rename_i hash _ _ contract hdeployed
      rw [h.sameSession.snapshot_eq] at hdeployed
      exact .called h hdeployed _

theorem meets_perform (h : SameScripts start m) (s : Syscall) (arguments : List Item) :
    Meets start (perform s arguments) m (Effect start) := by
  unfold perform
  split
  · exact meets_log h _
  · exact meets_notify h _ _
  · exact (meets_checkWitness h _).bind fun _ m' hm' ↦ .pure (.silent hm')
  · exact meets_call h _ _
  · exact (meets_push h _).bind fun _ m' hm' ↦ .pure (.silent hm')
  · exact meets_throw h _ _

theorem meets_syscall (h : SameScripts start m) (overrides : Overrides) (hash : UInt32) :
    Meets start (syscall overrides hash) m (Effect start) := by
  unfold syscall
  refine (meets_popMany h _).bind fun arguments m₁ hpopped ↦ ?_
  split
  · refine .get_bind ?_
    split
    · exact meets_throw hpopped _ _
    · exact .pure (.silent hpopped)
    · exact (meets_push hpopped _).bind fun _ m' hm' ↦ .pure (.silent hm')
  · exact meets_throw hpopped _ _
  · exact meets_perform hpopped _ _

theorem meets_operate (overrides : Overrides) (operation : Operation) (m : StackMachine) :
    Meets m (operate overrides operation) m (Effect m) := by
  have h := SameScripts.refl m
  cases operation with
  | push item => exact (meets_push h item).bind fun _ m' hm' ↦ .pure (.silent hm')
  | jumpIf target => exact (meets_jumpIf h target).bind fun _ m' hm' ↦ .pure (.silent hm')
  | abort => exact meets_throw h _ _
  | enterTry =>
    have hflag := meets_modifyFrame (g := fun f ↦ { f with hasCatch := true }) h fun f ↦ rfl
    exact hflag.bind fun _ m' hm' ↦ .pure (.silent hm')
  | ret => exact meets_leave h
  | syscall hash => exact meets_syscall h overrides hash
  | skip => exact .pure (.silent h)

end Effect

/-- What a completed operation has done. -/
theorem effect_of_operate {overrides : Overrides} {operation : Operation} {m m' : StackMachine}
    {events : List Event} (h : operate overrides operation m = .ok events m') :
    Effect m events m' := by
  have hmeets := meets_operate overrides operation m
  rwa [Meets, h] at hmeets

/-- A frame is pushed or popped within a session. -/
theorem SameSession.of_frames {m m₁ : StackMachine} (h : SameSession m m₁) (frames : List Frame)
    (state : VmState) (results : List Item) :
    SameSession m { m₁ with frames := frames, state := state, results := results } :=
  ⟨h.session_eq, h.snapshot_eq, h.settings_eq, h.signers_eq, h.gas_eq⟩

theorem Effect.sameSession {m m' : StackMachine} {events : List Event} (h : Effect m events m') :
    SameSession m m' := by
  cases h with
  | silent h => exact h.sameSession
  | logged h => exact h.sameSession
  | notified h => exact h.sameSession
  | called h => exact h.sameSession.of_frames _ _ _
  | returned h => exact h.sameSession.of_frames _ _ _
  | finished h => exact h.sameSession.of_frames _ _ _

/-- Only the return of the outermost frame stops a machine. -/
theorem Effect.state_eq_or {m m' : StackMachine} {events : List Event} (h : Effect m events m') :
    m'.state = m.state ∨ m'.state = .halt ∧ m'.frames = [] := by
  cases h with
  | silent h => exact .inl h.state_eq
  | logged h => exact .inl h.state_eq
  | notified h => exact .inl h.state_eq
  | called h => exact .inl h.state_eq
  | returned h => exact .inl h.state_eq
  | finished h => exact .inr ⟨rfl, rfl⟩

/-- What a faulted operation has done. -/
theorem sameScripts_of_operate {overrides : Overrides} {operation : Operation}
    {m m' : StackMachine} {fault : ScriptFault}
    (h : operate overrides operation m = .error fault m') : SameScripts m m' := by
  have hmeets := meets_operate overrides operation m
  rwa [Meets, h] at hmeets

/-! ### Turns -/

/-- The instruction at the position of the current frame, or why there is none. -/
def next? (m : StackMachine) : Option (Except ScriptFault Instruction) :=
  m.frames.head?.map fun f ↦ Instruction.decode f.code f.position

/-- The instruction that comes next is that of the top frame. -/
theorem exists_frames_of_next {m : StackMachine} {next : Except ScriptFault Instruction}
    (hnext : m.next? = some next) : ∃ f rest, m.frames = f :: rest := by
  cases hframes : m.frames with
  | nil => simp [next?, hframes] at hnext
  | cons f rest => exact ⟨f, rest, rfl⟩

/-- The instruction at the position of a running machine completes. -/
structure Completes (overrides : Overrides) (m : StackMachine) (i : Instruction)
    (events : List Event) (m' : StackMachine) : Prop where
  running : m.state = .none
  next : m.next? = some (.ok i)
  operate : operate overrides i.operation (m.charge i) = .ok events m'

theorem Completes.effect {overrides : Overrides} {m m' : StackMachine} {i : Instruction}
    {events : List Event} (h : m.Completes overrides i events m') :
    Effect (m.charge i) events m' :=
  effect_of_operate h.operate

/-- A machine that goes on after an instruction has a frame. -/
theorem Completes.frames_ne_nil {overrides : Overrides} {m m' : StackMachine} {i : Instruction}
    {events : List Event} (hcompletes : m.Completes overrides i events m')
    (hrunning : m'.state = .none) : m'.frames ≠ [] := by
  have hcharged : (m.charge i).frames ≠ [] := by
    obtain ⟨f, rest, hframes⟩ := exists_frames_of_next hcompletes.next
    simp [charge, hframes]
  have hsame {m₁ : StackMachine} (hscripts : SameScripts (m.charge i) m₁) : m₁.frames ≠ [] := by
    intro hnil
    have hmap := hscripts.scripts
    rw [hnil, List.map_nil, eq_comm, List.map_eq_nil_iff] at hmap
    exact hcharged hmap
  cases hcompletes.effect with
  | silent h => exact hsame h
  | logged h => exact hsame h
  | notified h => exact hsame h
  | called h => exact List.cons_ne_nil _ _
  | returned h => exact List.cons_ne_nil _ _
  | finished h => exact VmState.noConfusion hrunning

/-- The instruction at the position of a running machine does not decode. -/
structure Undecodable (m : StackMachine) (fault : ScriptFault) : Prop where
  running : m.state = .none
  next : m.next? = some (.error fault)

/-- The instruction at the position of a running machine faults, leaving `m'` to be stopped. -/
structure Faults (overrides : Overrides) (m : StackMachine) (i : Instruction)
    (fault : ScriptFault) (m' : StackMachine) : Prop where
  running : m.state = .none
  next : m.next? = some (.ok i)
  operate : operate overrides i.operation (m.charge i) = .error fault m'

/-- The four kinds of turn. -/
inductive Outcome (overrides : Overrides) (m : StackMachine) : Turn StackMachine → Prop
  | empty (hrunning : m.state = .none) (hframes : m.frames = []) :
    Outcome overrides m ⟨none, { m with state := .halt }, []⟩
  | undecodable {fault : ScriptFault} (h : m.Undecodable fault) :
    Outcome overrides m ⟨none, (m.raise fault).1, [.fault fault.message]⟩
  | completed {i : Instruction} {events : List Event} {m' : StackMachine}
    (h : m.Completes overrides i events m') :
    Outcome overrides m ⟨some (.preExecute i), m', events ++ [.postExecute i]⟩
  | faulted {i : Instruction} {fault : ScriptFault} {m' : StackMachine}
    (h : m.Faults overrides i fault m') :
    Outcome overrides m ⟨some (.preExecute i), (m'.raise fault).1, [.fault fault.message]⟩

/-- There are no other turns. -/
theorem outcome_of_turn {overrides : Overrides} {m : StackMachine} {t : Turn StackMachine}
    (h : turn overrides m = some t) : Outcome overrides m t := by
  unfold turn at h
  split at h
  · cases h
  · rename_i hstate
    have hrunning : m.state = .none := Classical.not_not.mp hstate
    split at h
    · rename_i hframes
      exact Option.some.inj h ▸ .empty hrunning hframes
    · rename_i f rest hframes
      have hnext : m.next? = some (Instruction.decode f.code f.position) := by
        rw [next?, hframes, List.head?_cons, Option.map_some]
      split at h
      · rename_i fault hdecode
        rw [hdecode] at hnext
        exact Option.some.inj h ▸ .undecodable ⟨hrunning, hnext⟩
      · rename_i i hdecode
        rw [hdecode] at hnext
        obtain rfl : ⟨some (.preExecute i), (m.dispatch overrides i).1,
          (m.dispatch overrides i).2⟩ = t := Option.some.inj h
        unfold dispatch
        cases hoperate : operate overrides i.operation (m.charge i) with
        | ok events m' => exact .completed ⟨hrunning, hnext, hoperate⟩
        | error fault m' => exact .faulted ⟨hrunning, hnext, hoperate⟩

/-- A running machine dispatches the instruction at its position. -/
theorem turn_of_next {m : StackMachine} {i : Instruction} (hrunning : m.state = .none)
    (hnext : m.next? = some (.ok i)) (overrides : Overrides) :
    turn overrides m =
      some ⟨some (.preExecute i), (m.dispatch overrides i).1, (m.dispatch overrides i).2⟩ := by
  obtain ⟨f, hf, hdecode⟩ := Option.map_eq_some_iff.mp hnext
  obtain ⟨rest, hframes⟩ := List.head?_eq_some_iff.mp hf
  unfold turn
  rw [if_neg (fun hstopped ↦ hstopped hrunning), hframes]
  simp only [hdecode]

/-- A machine takes no turn exactly when it has stopped. -/
theorem turn_eq_none_iff (overrides : Overrides) (m : StackMachine) :
    turn overrides m = none ↔ m.state ≠ .none := by
  unfold turn
  split
  · rename_i hstate
    exact ⟨fun _ ↦ hstate, fun _ ↦ rfl⟩
  · rename_i hstate
    refine ⟨fun hnone ↦ ?_, fun hstopped ↦ absurd hstopped hstate⟩
    split at hnone
    · cases hnone
    · split at hnone <;> cases hnone

/-- Only a running machine takes a turn. -/
theorem running_of_turn {overrides : Overrides} {m : StackMachine} {t : Turn StackMachine}
    (hturn : turn overrides m = some t) : m.state = .none := by
  by_cases hrunning : m.state = .none
  · exact hrunning
  · rw [(turn_eq_none_iff overrides m).mpr hrunning] at hturn
    cases hturn

theorem gas_reset (m : StackMachine) : m.reset.gas = m.gas := by
  unfold reset
  split <;> rfl

theorem reset_of_running {m : StackMachine} (hrunning : m.state = .none) : m.reset = m := by
  unfold reset
  rw [if_neg (by simp [hrunning])]

/-! ### What stays the same -/

section Setting

variable {overrides : Overrides} {m m' : StackMachine}

/-- What no turn changes. -/
def setting (m : StackMachine) : SessionId × Snapshot × Settings × List Hash :=
  (m.session, m.snapshot, m.settings, m.signers)

theorem SameSession.setting_eq (h : SameSession m m') : m'.setting = m.setting := by
  rw [setting, h.session_eq, h.snapshot_eq, h.settings_eq, h.signers_eq]
  rfl

theorem setting_of_turn {t : Turn StackMachine} (hturn : turn overrides m = some t) :
    t.next.setting = m.setting := by
  cases outcome_of_turn hturn with
  | empty => rfl
  | undecodable => rfl
  | completed hcompletes => exact hcompletes.effect.sameSession.setting_eq
  | faulted hfaults => exact (sameScripts_of_operate hfaults.operate).sameSession.setting_eq

theorem session_eq_of_setting_eq (h : m'.setting = m.setting) : m'.session = m.session :=
  (Prod.mk.inj h).1

theorem settings_eq_of_setting_eq (h : m'.setting = m.setting) : m'.settings = m.settings :=
  congrArg (fun setting ↦ setting.2.2.1) h

theorem setting_load (code : Bytes) (m : StackMachine) :
    (m.load code).next.setting = m.setting := by
  simp only [load, reset, enter]
  split <;> rfl

theorem session_load (m : StackMachine) (code : Bytes) :
    (m.load code).next.session = m.session :=
  session_eq_of_setting_eq (setting_load code m)

end Setting

/-! ### Frames that are pushed -/

/-- The frames that a machine has on top of as many as an earlier one, the lowest one first. -/
def pushed (m m' : StackMachine) : List Context :=
  (m'.view.frames.take (m'.frames.length - m.frames.length)).reverse

theorem pushed_eq_nil {m m' : StackMachine} (h : m'.frames.length ≤ m.frames.length) :
    pushed m m' = [] := by
  rw [pushed, Nat.sub_eq_zero_of_le h, List.take_zero, List.reverse_nil]

theorem pushed_enter {m m₁ : StackMachine} (h : m₁.frames.length = m.frames.length) (code : Bytes)
    (hash : Hash) (arguments : List Item) :
    pushed m (m₁.enter code hash arguments).1 =
      [(⟨code, hash, 0, [], arguments, false⟩ : Frame).context] := by
  have hlength : (m₁.frames.length + 1) - m.frames.length = 1 := by omega
  simp only [pushed, enter, view, List.length_cons, hlength, List.map_cons, List.take_succ_cons,
    List.take_zero, List.reverse_singleton]

theorem hashes_view (m : StackMachine) :
    m.view.frames.map (·.scriptHash) = m.frames.map (·.scriptHash) :=
  List.map_map

theorem length_charge (i : Instruction) (m : StackMachine) :
    (m.charge i).frames.length = m.frames.length := by
  unfold charge
  cases m.frames <;> rfl

theorem hashes_charge (i : Instruction) (m : StackMachine) :
    (m.charge i).frames.map (·.scriptHash) = m.frames.map (·.scriptHash) := by
  unfold charge
  cases m.frames <;> rfl

theorem pushed_charge (i : Instruction) (m m' : StackMachine) :
    pushed (m.charge i) m' = pushed m m' := by
  rw [pushed, pushed, length_charge]

/-- A script on the call stack was there before or was pushed. -/
theorem Effect.mem_hashes {m m' : StackMachine} {events : List Event} (h : Effect m events m')
    {hash : Hash} (hhash : hash ∈ m'.frames.map (·.scriptHash)) :
    hash ∈ m.frames.map (·.scriptHash) ++ (pushed m m').map (·.scriptHash) := by
  have hsame {m₁ : StackMachine} (hscripts : SameScripts m m₁)
      (hold : hash ∈ m₁.frames.map (·.scriptHash)) (more : List Hash) :
      hash ∈ m.frames.map (·.scriptHash) ++ more := by
    rw [← hscripts.hashes_eq]
    exact List.mem_append_left _ hold
  cases h with
  | silent h => exact hsame h hhash _
  | logged h => exact hsame h hhash _
  | notified h => exact hsame h hhash _
  | called h hdeployed arguments =>
    rw [pushed_enter h.length_eq]
    rcases List.mem_cons.mp hhash with rfl | hold
    · exact List.mem_append_right _ (List.mem_singleton_self _)
    · exact hsame h hold _
  | returned h hframes =>
    refine hsame h ?_ _
    rw [hframes]
    exact .tail _ hhash
  | finished h hframes => cases hhash

theorem mem_hashes_of_turn {overrides : Overrides} {m : StackMachine} {t : Turn StackMachine}
    (h : turn overrides m = some t) {hash : Hash}
    (hhash : hash ∈ t.next.frames.map (·.scriptHash)) :
    hash ∈ m.frames.map (·.scriptHash) ++ (pushed m t.next).map (·.scriptHash) := by
  cases outcome_of_turn h with
  | empty _ hframes => exact List.mem_append_left _ hhash
  | undecodable => exact List.mem_append_left _ hhash
  | @completed i events m' hcompletes =>
    have hmem := hcompletes.effect.mem_hashes hhash
    rwa [hashes_charge, pushed_charge] at hmem
  | @faulted i fault m' hfaults =>
    change hash ∈ m'.frames.map (·.scriptHash) at hhash
    rw [(sameScripts_of_operate hfaults.operate).hashes_eq, hashes_charge] at hhash
    exact List.mem_append_left _ hhash

end StackMachine

end ScriptTrace
