import ScriptTrace.Proofs.Session.Drive
import ScriptTrace.Proofs.StackMachine.Refit
import ScriptTrace.Proofs.StackMachine.Turns

/-!
A machine in another session, with gas that was used before. Nothing that a machine does depends on
the identity of its session or on the gas so far, as long as the replaced system calls do not look
at them. So a machine under a guise takes the turns that it takes without it, each under the guise
(`turn_under`), and goes the same way through a list of calls (`Route.under`).
-/

set_option autoImplicit false
set_option relaxedAutoImplicit false

namespace ScriptTrace

/-- The identity of a session, and gas that was used before. -/
structure Guise where
  session : SessionId
  gas : Nat

/-! ### Guises -/

/-- What observers see of a machine under a guise. -/
def View.under (g : Guise) (view : View) : View :=
  { view with session := g.session, gasConsumed := view.gasConsumed + Int64.ofNat g.gas }

/-- What a machine under a guise reports. -/
def Event.under (g : Guise) : Event → Event
  | .log event => .log { event with sender := g.session }
  | .notify event => .notify { event with sender := g.session }
  | event => event

/-- A machine under a guise. -/
def StackMachine.under (g : Guise) (m : StackMachine) : StackMachine :=
  { m with session := g.session, gas := m.gas + g.gas }

/-- What a guise changes of a machine. -/
def Guise.refit (g : Guise) : Refit := fun (_, gas, signers) => (g.session, gas + g.gas, signers)

/-- A move of a machine under a guise. -/
def Turn.under (g : Guise) (t : Turn StackMachine) : Turn StackMachine :=
  ⟨t.before.map (Event.under g), t.next.under g, t.after.map (Event.under g)⟩

/-- What observers are told under a guise. -/
def Notice.under (g : Guise) (n : Notice) : Notice := (n.1.under g, n.2.under g)

/-- The replaced system calls answer alike in a session and under a guise of it. -/
def Overrides.Ignores (overrides : Overrides) (session : SessionId) (g : Guise) : Prop :=
  ∀ hash handler, overrides.get? hash = some handler → ∀ (view : View) (arguments : List Item),
    view.session = session → handler (view.under g) arguments = handler view arguments

theorem Overrides.ignores_empty (session : SessionId) (g : Guise) :
    Overrides.Ignores .empty session g := by
  intro hash handler hhandler
  exact absurd hhandler (Option.some_ne_none handler).symm

/-- A predicate for witness checks looks at its argument only. -/
theorem Overrides.Ignores.witnessed {overrides : Overrides} {session : SessionId} {g : Guise}
    (h : overrides.Ignores session g) (checker : Option WitnessChecker) :
    (Engine.witnessed checker overrides).Ignores session g := by
  cases checker with
  | none => exact h
  | some c =>
    intro hash handler hhandler view arguments hsession
    rw [Engine.witnessed, Table.get?_set] at hhandler
    split at hhandler
    · rw [← Option.some.inj hhandler]
      rfl
    · exact h hash handler hhandler view arguments hsession

theorem dispatches_under (g : Guise) (told : List Notice) :
    dispatches (told.map (Notice.under g)) = dispatches told := by
  have hsame (n : Notice) : dispatch? (n.under g) = dispatch? n := by
    obtain ⟨view, event⟩ := n
    cases event <;> rfl
  rw [dispatches, dispatches, List.filterMap_map]
  exact congrArg (List.filterMap · told) (funext hsame)

namespace StackMachine

theorem view_under (g : Guise) (m : StackMachine) : (m.under g).view = m.view.under g := by
  have hgas : Int64.ofNat (m.gas + g.gas) = Int64.ofNat m.gas + Int64.ofNat g.gas :=
    Int64.ofNat_add m.gas g.gas
  simp only [view, under, View.under, hgas]

theorem notices_under (g : Guise) (m : StackMachine) (t : Turn StackMachine) :
    (t.under g).notices (m.under g) = (t.notices m).map (Notice.under g) := by
  have hview (m : StackMachine) : Machine.view (m.under g) = (Machine.view m).under g :=
    view_under g m
  have hmap (view : View) (events : List Event) :
      (events.map (Event.under g)).map (Prod.mk (view.under g)) =
        (events.map (Prod.mk view)).map (Notice.under g) := by
    rw [List.map_map, List.map_map]
    rfl
  have hbefore : (t.under g).before.toList = t.before.toList.map (Event.under g) :=
    Option.toList_map
  rw [Turn.notices, Turn.notices, List.map_append, ← hmap, ← hmap, ← hview, ← hview, hbefore]
  rfl

/-! ### Operations -/

/-- A step that does to a machine under a guise what it does without it, answers being under the
guise in the sense of `h`. -/
def ActsAlike {α : Type} (g : Guise) (h : α → α) (x : Step α) (m : StackMachine) : Prop :=
  x (m.under g) = match x m with
    | .ok a m' => .ok (h a) (m'.under g)
    | .error fault m' => .error fault (m'.under g)

section ActsAlike

variable {α β : Type} {g : Guise} {h : α → α} {m : StackMachine}

theorem ActsAlike.bind {x : Step β} {f : β → Step α} (hx : ActsAlike g id x m)
    (hf : ∀ b m', x m = .ok b m' → ActsAlike g h (f b) m') : ActsAlike g h (x >>= f) m := by
  unfold ActsAlike at hx ⊢
  cases hrun : x m with
  | ok b m' =>
    rw [hrun] at hx
    rw [bind_ok hx, bind_ok hrun]
    exact hf b m' hrun
  | error fault m' =>
    rw [hrun] at hx
    rw [bind_error hx, bind_error hrun]

/-- A step that goes on in the same way with a machine and with the machine under a guise. -/
theorem ActsAlike.get_bind {f : StackMachine → Step α} (hsame : f (m.under g) = f m)
    (hf : ActsAlike g h (f m) m) : ActsAlike g h (get >>= f) m := by
  show f (m.under g) (m.under g) = _
  rw [hsame]
  exact hf

theorem ActsAlike.throw (fault : ScriptFault) (h : α → α) (m : StackMachine) :
    ActsAlike g h (MonadExcept.throw fault : Step α) m := rfl

/-- A step that does the same to refitted machines does the same to machines under a guise. -/
theorem ActsAlike.of_mirrors {x : Step α}
    (hx : Mirrors (StackMachine.refit g.refit) h id x x m) : ActsAlike g h x m := by
  unfold ActsAlike
  cases hrun : x m with
  | ok a m' => exact hx.of_ok hrun
  | error fault m' =>
    obtain ⟨_, rfl, hfault⟩ := hx.of_error hrun
    exact hfault

theorem actsAlike_push (item : Item) (m : StackMachine) : ActsAlike g id (push item) m :=
  .of_mirrors (mirrors_push item m)

theorem actsAlike_popMany (count : Nat) (m : StackMachine) : ActsAlike g id (popMany count) m :=
  .of_mirrors (mirrors_popMany count m)

theorem actsAlike_modifyFrame (change : Frame → Frame) (m : StackMachine) :
    ActsAlike g id (modifyFrame change) m :=
  .of_mirrors (mirrors_modifyFrame change m)

theorem actsAlike_jumpIf (target : Option Nat) (m : StackMachine) :
    ActsAlike g id (jumpIf target) m :=
  .of_mirrors (mirrors_jumpIf target m)

theorem actsAlike_leave (m : StackMachine) :
    ActsAlike g (List.map (Event.under g)) leave m := by
  obtain ⟨session, snapshot, settings, signers, frames, state, gas, results, exception⟩ := m
  match frames with
  | [] => rfl
  | [f] => rfl
  | f :: caller :: rest => rfl

/-- A step that only pushes an item reports nothing. -/
theorem actsAlike_silent {x : Step Unit} (hx : ActsAlike g id x m) :
    ActsAlike g (List.map (Event.under g)) (do x; return []) m :=
  hx.bind fun _ _ _ ↦ rfl

theorem actsAlike_perform (s : Syscall) (arguments : List Item) (m : StackMachine) :
    ActsAlike g (List.map (Event.under g)) (perform s arguments) m := by
  unfold perform
  split
  · unfold log
    split
    · exact .throw _ _ _
    · rfl
  · unfold notify
    split
    · exact .throw _ _ _
    · split
      · rfl
      · exact .throw _ _ _
  · refine actsAlike_silent ?_
    unfold checkWitness
    split
    · exact .throw _ _ _
    · exact actsAlike_push _ m
  · unfold call
    split
    · exact .throw _ _ _
    · rename_i hash _
      obtain ⟨session, snapshot, settings, signers, frames, state, gas, results, exception⟩ := m
      unfold ActsAlike
      rw [get_bind_eq, get_bind_eq]
      simp only [under]
      cases snapshot.contract? hash with
      | none => rfl
      | some contract => rfl
  · exact actsAlike_silent (actsAlike_push _ m)
  · exact .throw _ _ _

theorem actsAlike_syscall {overrides : Overrides} (hignores : overrides.Ignores m.session g)
    (hash : UInt32) :
    ActsAlike g (List.map (Event.under g)) (syscall overrides hash) m := by
  unfold syscall
  refine (actsAlike_popMany _ m).bind fun arguments m₁ hpopped ↦ ?_
  have hsame := meets_popMany (SameScripts.refl m) ((Syscall.ofHash? hash).map
    Syscall.parameters |>.getD 0)
  rw [Meets, hpopped] at hsame
  split
  · rename_i handler hhandler
    have hanswer : handler (m₁.under g).view arguments = handler m₁.view arguments := by
      rw [view_under]
      exact hignores hash handler hhandler _ _ hsame.sameSession.session_eq
    refine .get_bind (by simp only [hanswer]) ?_
    split
    · exact .throw _ _ _
    · rfl
    · exact actsAlike_silent (actsAlike_push _ m₁)
  · exact .throw _ _ _
  · exact actsAlike_perform _ _ m₁

theorem actsAlike_operate {overrides : Overrides} (hignores : overrides.Ignores m.session g)
    (operation : Operation) :
    ActsAlike g (List.map (Event.under g)) (operate overrides operation) m := by
  cases operation with
  | push item => exact actsAlike_silent (actsAlike_push item m)
  | jumpIf target => exact actsAlike_silent (actsAlike_jumpIf target m)
  | abort => exact .throw _ _ _
  | enterTry => exact actsAlike_silent (actsAlike_modifyFrame _ m)
  | ret => exact actsAlike_leave m
  | syscall hash => exact actsAlike_syscall hignores hash
  | skip => rfl

end ActsAlike

/-! ### Turns and loads -/

section Turns

variable {g : Guise} {m m' : StackMachine} {overrides : Overrides}

theorem charge_under (i : Instruction) (m : StackMachine) :
    (m.under g).charge i = (m.charge i).under g := by
  rw [charge, charge, under, under, Nat.add_right_comm]

/-- A machine under a guise takes the turns that it takes without it. -/
theorem turn_under (hignores : overrides.Ignores m.session g) :
    turn overrides (m.under g) = (turn overrides m).map (Turn.under g) := by
  have hdispatch (i : Instruction) : (m.under g).dispatch overrides i =
      ((m.dispatch overrides i).1.under g, (m.dispatch overrides i).2.map (Event.under g)) := by
    have hignores' : overrides.Ignores (m.charge i).session g := hignores
    have hoperate := actsAlike_operate hignores' i.operation
    unfold dispatch
    rw [charge_under, hoperate]
    cases operate overrides i.operation (m.charge i) with
    | ok events m' => simp [Event.under]
    | error fault m' => rfl
  by_cases hrunning : m.state = .none
  · have hrunning' : (m.under g).state = .none := hrunning
    unfold turn
    rw [if_neg (Classical.not_not.mpr hrunning), if_neg (Classical.not_not.mpr hrunning')]
    cases hframes : m.frames with
    | nil =>
      have hframes' : (m.under g).frames = [] := hframes
      rw [hframes']
      rfl
    | cons f rest =>
      have hframes' : (m.under g).frames = f :: rest := hframes
      rw [hframes']
      dsimp only
      cases Instruction.decode f.code f.position with
      | error fault => rfl
      | ok i =>
        dsimp only
        rw [hdispatch]
        rfl
  · have hrunning' : (m.under g).state ≠ .none := hrunning
    rw [(turn_eq_none_iff overrides _).mpr hrunning, (turn_eq_none_iff overrides _).mpr hrunning']
    rfl

theorem load_under (code : Bytes) (m : StackMachine) :
    (m.under g).load code = (m.load code).under g := by
  have hreset : (m.under g).reset = m.reset.under g := by
    unfold reset under
    split <;> rfl
  unfold load
  rw [hreset]
  rfl

theorem setting_of_moves {ts : List (Turn StackMachine)} (hmoves : Moves overrides m ts m') :
    m'.setting = m.setting :=
  hmoves.keeps (·.setting = m.setting) (fun _ _ hsame hturn ↦ (setting_of_turn hturn).trans hsame)
    rfl

end Turns

end StackMachine

section Ways

open StackMachine

variable {g : Guise} {m m' : StackMachine} {overrides : Overrides}

/-- A machine under a guise moves as it does without it. -/
theorem Moves.under {ts : List (Turn StackMachine)} (hignores : overrides.Ignores m.session g)
    (hmoves : Moves overrides m ts m') :
    Moves overrides (m.under g) (ts.map (Turn.under g)) (m'.under g) := by
  induction hmoves with
  | refl m => exact .refl _
  | @cons m m' t ts hturn _ ih =>
    rw [session_eq_of_setting_eq (setting_of_turn hturn)] at ih
    have hnext : Machine.turn overrides (m.under g) = some (t.under g) := by
      have hcommutes := turn_under hignores
      rw [show turn overrides m = some t from hturn] at hcommutes
      exact hcommutes
    exact .cons hnext (ih hignores)

theorem story_under (g : Guise) (m : StackMachine) (ts : List (Turn StackMachine)) :
    story (m.under g) (ts.map (Turn.under g)) = (story m ts).map (Notice.under g) := by
  induction ts generalizing m with
  | nil => rfl
  | cons t ts ih =>
    rw [List.map_cons, story, story, notices_under, List.map_append]
    exact congrArg (_ ++ ·) (ih t.next)

/-- A machine under a guise goes through a list of calls as it does without it. -/
theorem Route.under {calls : List Call} {ended : Bool} {told : List Notice}
    (hignores : overrides.Ignores m.session g) (hroute : Route overrides calls ended m told m') :
    Route overrides calls ended (m.under g) (told.map (Notice.under g)) (m'.under g) := by
  have hstopped {m : StackMachine} (hignores : overrides.Ignores m.session g)
      (hstop : Machine.turn overrides m = none) : Machine.turn overrides (m.under g) = none := by
    have hcommutes := turn_under hignores
    rw [show turn overrides m = none from hstop] at hcommutes
    exact hcommutes
  induction hroute with
  | nil m => exact .nil _
  | @load code calls ended m m' told _ ih =>
    rw [show Machine.load code m = m.load code from rfl, session_load] at ih
    have hrest := ih hignores
    rw [List.map_append, show Machine.load code m = m.load code from rfl, ← notices_under,
      ← load_under]
    refine .load ?_
    rw [show Machine.load code (m.under g) = (m.under g).load code from rfl, load_under]
    exact hrest
  | @execute budget calls ended m m₁ m' ts told hmoves hstop hlength _ ih =>
    have hsession := session_eq_of_setting_eq (setting_of_moves hmoves)
    rw [hsession] at ih
    rw [List.map_append, ← story_under]
    refine .execute (hmoves.under hignores) ?_ ?_ (ih hignores)
    · rw [← hsession] at hignores
      exact hstopped hignores hstop
    · rwa [List.length_map]
  | @unfinished budget calls m m' ts hmoves hlength =>
    rw [← story_under]
    exact .unfinished (hmoves.under hignores) (by rwa [List.length_map])

end Ways

/-! ### Machines that begin anew -/

namespace StackMachine

/-- When a script is loaded the machine begins like one that has not run yet, but for the gas. -/
def Renewed (m : StackMachine) : Prop :=
  m.reset = { create m.session m.snapshot m.settings m.signers with gas := m.gas }

/-- A machine that has not run yet, over the same snapshot, parameters and signers. -/
def another (m : StackMachine) (session : SessionId) : StackMachine :=
  create session m.snapshot m.settings m.signers

theorem another_eq_of_setting_eq {m m' : StackMachine} (h : m'.setting = m.setting)
    (session : SessionId) : m'.another session = m.another session := by
  obtain ⟨-, hrest⟩ := Prod.mk.inj h
  obtain ⟨hsnapshot, hrest⟩ := Prod.mk.inj hrest
  obtain ⟨hsettings, hsigners⟩ := Prod.mk.inj hrest
  rw [another, another, hsnapshot, hsettings, hsigners]

theorem renewed_of_stopped {m : StackMachine} (h : m.state = .halt ∨ m.state = .fault) :
    m.Renewed := by
  unfold Renewed reset
  rw [if_pos h]
  rfl

section Renewed

variable {m m' : StackMachine} {overrides : Overrides}

theorem Renewed.reset_eq (h : m.Renewed) (session : SessionId) :
    m.reset = (m.another session).under ⟨m.session, m.gas⟩ := by
  rw [h, under, show (m.another session).gas = 0 from rfl, Nat.zero_add]
  rfl

/-- No machine pauses by itself. -/
theorem state_ne_break_of_moves {ts : List (Turn StackMachine)} (hmoves : Moves overrides m ts m')
    (hstate : m.state ≠ .break) : m'.state ≠ .break := by
  refine hmoves.keeps (·.state ≠ .break) (fun m t hstate hturn ↦ ?_) hstate
  cases outcome_of_turn hturn with
  | empty => exact VmState.noConfusion
  | undecodable => exact VmState.noConfusion
  | @completed i events m' hcompletes =>
    rcases hcompletes.effect.state_eq_or with hgoes | ⟨hhalt, -⟩
    · exact fun hbreak ↦ hstate (hgoes.symm.trans hbreak)
    · exact fun hbreak ↦ VmState.noConfusion (hhalt.symm.trans hbreak)
  | faulted => exact VmState.noConfusion

/-- A machine that ran a script to its end begins anew again. -/
theorem Renewed.of_moves (h : m.Renewed) {code : Bytes} {ts : List (Turn StackMachine)}
    (hmoves : Moves overrides (m.load code).next ts m') (hstopped : m'.state ≠ .none) :
    m'.Renewed := by
  have hstate : (m.load code).next.state = .none := by
    have hreset : m.reset.state = .none := by
      rw [h]
      rfl
    exact hreset
  have hbreak := state_ne_break_of_moves hmoves (by
    rw [hstate]
    exact VmState.noConfusion)
  refine renewed_of_stopped ?_
  cases hcases : m'.state with
  | none => exact absurd hcases hstopped
  | halt => exact .inl rfl
  | fault => exact .inr rfl
  | «break» => exact absurd hcases hbreak

end Renewed

end StackMachine

/-- The calls that load scripts and run them one after the other, each with its budget. -/
def Call.runs (scripts : List (Bytes × Nat)) : List Call :=
  scripts.flatMap fun s ↦ [.load s.1, .execute s.2]

namespace Route

open StackMachine

variable {m m' : StackMachine} {overrides : Overrides} {ended : Bool} {told : List Notice}

/-- Scripts that ran to their ends leave a machine that begins anew. -/
theorem renewed {scripts : List (Bytes × Nat)}
    (hroute : Route overrides (Call.runs scripts) true m told m') (h : m.Renewed) :
    m'.Renewed ∧ m'.setting = m.setting := by
  induction scripts generalizing m told with
  | nil =>
    cases hroute
    exact ⟨h, rfl⟩
  | cons script rest ih =>
    cases hroute with
    | load hloaded =>
      cases hloaded with
      | @execute _ _ _ _ m₁ _ ts _ hmoves hstop _ hrest =>
        obtain ⟨hrenewed, hsetting⟩ :=
          ih hrest (h.of_moves hmoves ((turn_eq_none_iff overrides m₁).mp hstop))
        exact ⟨hrenewed, hsetting.trans
          ((setting_of_moves hmoves).trans (setting_load script.1 m))⟩

/-- Assumes: a machine that begins anew. After a load it goes the way of a machine that has not run
yet, under its guise. -/
theorem of_another {code : Bytes} {calls : List Call} (h : m.Renewed) {session : SessionId}
    (hignores : overrides.Ignores session ⟨m.session, m.gas⟩)
    (hroute : Route overrides (.load code :: calls) ended (m.another session) told m') :
    Route overrides (.load code :: calls) ended m
      (told.map (Notice.under ⟨m.session, m.gas⟩)) (m'.under ⟨m.session, m.gas⟩) := by
  have hreset := h.reset_eq session
  have hload : m.reset.load code = m.load code := by
    have hsame : m.reset.reset = m.reset := by
      rw [hreset]
      rfl
    rw [StackMachine.load, hsame]
    rfl
  have hguised := hroute.under hignores
  rw [← hreset] at hguised
  generalize hothers : told.map (Notice.under ⟨m.session, m.gas⟩) = others at hguised ⊢
  cases hguised with
  | load hrest =>
    rw [show Machine.load code m.reset = Machine.load code m from hload] at hrest
    have hnotices : (Machine.load code m.reset).notices m.reset =
        (Machine.load code m).notices m := by
      rw [show Machine.load code m.reset = Machine.load code m from hload]
      rfl
    rw [hnotices]
    exact .load hrest

end Route

end ScriptTrace
