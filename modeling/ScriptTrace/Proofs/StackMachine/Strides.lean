import Mathlib.Data.List.SplitBy
import ScriptTrace.Proofs.Session.Likeness
import ScriptTrace.Proofs.StackMachine.Turns

/-!
The strides of a machine. A stride is a turn that the machine takes or a script that is loaded, with
the machine before and after it. `Path` is strides one after the other, `Course` says which they are
for a list of calls, and `Trail` for calls that may fail. The scripts on the call stack change by
one frame at most in a stride (`Stride.Taken.takes`), so the last change names the script that is
current (`Path.head?_hashes`). Observers are told of each frame that is pushed
(`Narrated.pushes_eq`). Gas is charged for each instruction that is dispatched in a stride, and for
nothing else (`Path.gas_eq`). Strides up to one that stops the machine are an invocation; the call
stack is emptied by the return that ends an invocation, and by nothing else
(`sentinels_invocation`).
-/

set_option autoImplicit false
set_option relaxedAutoImplicit false

namespace ScriptTrace

namespace StackMachine

/-- The scripts on the call stack, that of the top frame first. -/
def hashes (m : StackMachine) : List Hash := m.frames.map (·.scriptHash)

/-- The script and the position of the top frame. -/
def top? (m : StackMachine) : Option (Hash × Nat) :=
  m.frames.head?.map fun f ↦ (f.scriptHash, f.position)

end StackMachine

/-- What is kept of the first element comes first. -/
theorem filterMap_cons_eq_append {α β : Type} (g : α → Option β) (a : α) (as : List α) :
    (a :: as).filterMap g = (g a).toList ++ as.filterMap g := by
  cases h : g a with
  | none => rw [List.filterMap_cons_none h, Option.toList_none, List.nil_append]
  | some b => rw [List.filterMap_cons_some h, Option.toList_some, List.singleton_append]

/-! ### Changes of the call stack -/

/-- A frame comes to the top of the call stack. -/
inductive Change where
  /-- It was pushed. -/
  | pushed (hash : Hash)
  /-- The one above it was popped; there may be none left. -/
  | popped (caller : Option Hash)
deriving DecidableEq

namespace Change

/-- The script that is current after a change. -/
def current? : Change → Option Hash
  | pushed hash => some hash
  | popped caller => caller

/-- The hash by which the script that is current is recorded. -/
def hash (c : Change) : Hash := c.current?.getD Hash.zero

/-- The script that is current after some changes, the last of which counts. -/
def currentAfter (cs : List Change) (before : Option Hash) : Option Hash :=
  (cs.getLast?.map current?).getD before

theorem currentAfter_append (cs others : List Change) (before : Option Hash) :
    currentAfter (cs ++ others) before = currentAfter others (currentAfter cs before) := by
  rw [currentAfter, List.getLast?_append, currentAfter]
  cases others.getLast? <;> rfl

/-- The change from some scripts on the call stack to others, told by how many they are. -/
def between? (hashes hashes' : List Hash) : Option Change :=
  match compare hashes.length hashes'.length with
  | .lt => hashes'.head?.map pushed
  | .eq => none
  | .gt => some (popped hashes'.head?)

/-- What a change does to the scripts on the call stack: it pushes one or pops one. -/
inductive Takes : List Hash → Option Change → List Hash → Prop
  | same (hashes : List Hash) : Takes hashes none hashes
  | pushed (hash : Hash) (hashes : List Hash) : Takes hashes (some (pushed hash)) (hash :: hashes)
  | popped (hash : Hash) (hashes : List Hash) :
    Takes (hash :: hashes) (some (popped hashes.head?)) hashes

namespace Takes

variable {hashes hashes' : List Hash} {c : Option Change}

/-- The change is the one between the scripts. -/
theorem between?_eq (h : Takes hashes c hashes') : between? hashes hashes' = c := by
  cases h with
  | same hashes => rw [between?, Nat.compare_eq_eq.mpr rfl]
  | pushed hash hashes =>
    rw [between?, List.length_cons, Nat.compare_eq_lt.mpr (Nat.lt_succ_self hashes.length)]
    rfl
  | popped hash =>
    rw [between?, List.length_cons, Nat.compare_eq_gt.mpr (Nat.lt_succ_self hashes'.length)]

/-- The script that is current is the one that a change says, if there is one. -/
theorem head?_eq (h : Takes hashes c hashes') :
    hashes'.head? = currentAfter c.toList hashes.head? := by
  cases h <;> rfl

end Takes

end Change

/-! ### Strides -/

/-- A machine before and after a turn, or before and after a script was loaded. -/
structure Stride where
  before : StackMachine
  after : StackMachine

namespace Stride

open StackMachine

/-- The turn that a machine takes. -/
def turn (m : StackMachine) (t : Turn StackMachine) : Stride := ⟨m, t.next⟩

/-- A script is loaded, once a machine that has stopped has forgotten its last run. -/
def load (m : StackMachine) (code : Bytes) : Stride := ⟨m.reset, (m.load code).next⟩

/-- The instruction that was dispatched, by script and position; it was charged. -/
def dispatched? (s : Stride) : Option (Hash × Nat) :=
  if s.before.gas < s.after.gas then s.before.top? else none

/-- The frame that came to the top of the call stack. -/
def change? (s : Stride) : Option Change := Change.between? s.before.hashes s.after.hashes

/-- The outermost frame has returned: the machine had frames and has halted. -/
def Returns (s : Stride) : Prop := s.before.frames ≠ [] ∧ s.after.state = .halt

instance (s : Stride) : Decidable s.Returns := by
  unfold Returns
  infer_instance

/-- The change of a stride that is known to take place. -/
theorem change?_eq {s : Stride} {c : Option Change}
    (h : Change.Takes s.before.hashes c s.after.hashes) : s.change? = c :=
  h.between?_eq

theorem change?_eq_none {s : Stride} (h : s.after.hashes = s.before.hashes) : s.change? = none := by
  refine change?_eq ?_
  rw [h]
  exact .same _

/-- A machine takes a stride. -/
inductive Taken (overrides : Overrides) : Stride → Prop
  | turn {m : StackMachine} {t : Turn StackMachine} (hturn : m.turn overrides = some t) :
    Taken overrides (turn m t)
  | load (m : StackMachine) (code : Bytes) : Taken overrides (load m code)

end Stride

namespace StackMachine

theorem hashes_of_sameScripts {m m' : StackMachine} (h : SameScripts m m') :
    m'.hashes = m.hashes := h.hashes_eq

/-- A completed operation changes the scripts on the call stack by one at most, and it halts the
machine if it empties the call stack. -/
theorem Effect.takes {m m' : StackMachine} {events : List Event} (h : Effect m events m') :
    ∃ c, Change.Takes m.hashes c m'.hashes ∧
      (c = some (.popped none) ∧ m'.state = .halt ∨
        c ≠ some (.popped none) ∧ m'.state = m.state) := by
  have hsame {m₁ : StackMachine} (hscripts : SameScripts m m₁) :
      ∃ c, Change.Takes m.hashes c m₁.hashes ∧
        (c = some (.popped none) ∧ m₁.state = .halt ∨
          c ≠ some (.popped none) ∧ m₁.state = m.state) := by
    rw [hashes_of_sameScripts hscripts]
    exact ⟨none, .same _, .inr ⟨nofun, hscripts.state_eq⟩⟩
  cases h with
  | silent h => exact hsame h
  | logged h => exact hsame h
  | notified h => exact hsame h
  | called h hdeployed arguments =>
    rw [← hashes_of_sameScripts h]
    exact ⟨_, .pushed _ _, .inr ⟨nofun, h.state_eq⟩⟩
  | returned h hframes =>
    rw [← hashes_of_sameScripts h, hashes, hframes]
    exact ⟨_, .popped _ _, .inr ⟨nofun, h.state_eq⟩⟩
  | finished h hframes =>
    rw [← hashes_of_sameScripts h, hashes, hframes]
    exact ⟨_, .popped _ _, .inl ⟨rfl, rfl⟩⟩

end StackMachine

namespace Stride

open StackMachine

variable {overrides : Overrides} {s : Stride}

/-- A stride changes the scripts on the call stack by one at most. The call stack is emptied by the
return of the outermost frame. -/
theorem Taken.exists_takes (h : Taken overrides s) :
    ∃ c, Change.Takes s.before.hashes c s.after.hashes ∧
      (c = some (.popped none) ↔ s.Returns) := by
  cases h with
  | @turn m t hturn =>
    have hrunning := running_of_turn hturn
    cases outcome_of_turn hturn with
    | empty _ hframes => exact ⟨none, .same _, ⟨nofun, fun hreturns ↦ absurd hframes hreturns.1⟩⟩
    | undecodable => exact ⟨none, .same _, ⟨nofun, fun hreturns ↦ VmState.noConfusion hreturns.2⟩⟩
    | @completed i events m' hcompletes =>
      have hframes : m.frames ≠ [] := by
        obtain ⟨f, rest, hframes⟩ := exists_frames_of_next hcompletes.next
        rw [hframes]
        exact List.cons_ne_nil f rest
      obtain ⟨c, htakes, hstate⟩ := hcompletes.effect.takes
      rw [hashes, hashes_charge] at htakes
      refine ⟨c, htakes, ?_⟩
      rcases hstate with ⟨hc, hhalt⟩ | ⟨hc, hgoes⟩
      · exact ⟨fun _ ↦ ⟨hframes, hhalt⟩, fun _ ↦ hc⟩
      · refine ⟨fun hpopped ↦ absurd hpopped hc, fun hreturns ↦ ?_⟩
        have hhalt : m'.state = .halt := hreturns.2
        rw [hgoes] at hhalt
        exact absurd (hhalt.symm.trans hrunning) nofun
    | @faulted i fault m' hfaults =>
      have hsame : m'.hashes = m.hashes :=
        (sameScripts_of_operate hfaults.operate).hashes_eq.trans (hashes_charge i m)
      refine ⟨none, ?_, ⟨nofun, fun hreturns ↦ VmState.noConfusion hreturns.2⟩⟩
      change Change.Takes m.hashes none m'.hashes
      rw [hsame]
      exact .same _
  | load m code =>
    refine ⟨_, .pushed (Hash.ofScript code) m.reset.hashes, ⟨nofun, fun hreturns ↦ ?_⟩⟩
    have hstate : m.reset.state = .halt := hreturns.2
    unfold reset at hstate
    split at hstate
    · cases hstate
    · rename_i hrunning
      exact absurd (.inl hstate) hrunning

/-- A stride changes the scripts on the call stack by one at most. -/
theorem Taken.takes (h : Taken overrides s) :
    Change.Takes s.before.hashes s.change? s.after.hashes := by
  obtain ⟨c, htakes, -⟩ := h.exists_takes
  rwa [change?_eq htakes]

/-- The call stack is emptied by the return of the outermost frame, and by nothing else. -/
theorem Taken.change?_eq_iff (h : Taken overrides s) :
    s.change? = some (.popped none) ↔ s.Returns := by
  obtain ⟨c, htakes, hreturns⟩ := h.exists_takes
  rwa [change?_eq htakes]

end Stride

/-! ### Paths -/

namespace StackMachine

/-- Strides that take one machine to another. -/
inductive Path (overrides : Overrides) : StackMachine → List Stride → StackMachine → Prop
  | nil (m : StackMachine) : Path overrides m [] m
  | turn {m m' : StackMachine} {t : Turn StackMachine} {ss : List Stride}
    (hturn : m.turn overrides = some t) (hrest : Path overrides t.next ss m') :
    Path overrides m (.turn m t :: ss) m'
  | load {m m' : StackMachine} {code : Bytes} {ss : List Stride}
    (hrest : Path overrides (m.load code).next ss m') : Path overrides m (.load m code :: ss) m'

variable {overrides : Overrides} {m m₁ m' : StackMachine} {ss us : List Stride}

namespace Path

theorem taken (h : Path overrides m ss m') {s : Stride} (hs : s ∈ ss) : s.Taken overrides := by
  induction h with
  | nil => cases hs
  | turn hturn _ ih =>
    rcases List.mem_cons.mp hs with rfl | hrest
    · exact .turn hturn
    · exact ih hrest
  | load _ ih =>
    rcases List.mem_cons.mp hs with rfl | hrest
    · exact .load _ _
    · exact ih hrest

theorem trans (hfirst : Path overrides m ss m₁) (hsecond : Path overrides m₁ us m') :
    Path overrides m (ss ++ us) m' := by
  induction hfirst with
  | nil => exact hsecond
  | turn hturn _ ih => exact .turn hturn (ih hsecond)
  | load _ ih => exact .load (ih hsecond)

/-- A path up to one of its strides. -/
theorem upTo {s : Stride} (h : Path overrides m (ss ++ s :: us) m') :
    Path overrides m (ss ++ [s]) s.after := by
  induction ss generalizing m with
  | nil =>
    cases h with
    | turn hturn _ => exact .turn hturn (.nil _)
    | load _ => exact .load (.nil _)
  | cons _ _ ih =>
    cases h with
    | turn hturn hrest => exact .turn hturn (ih hrest)
    | load hrest => exact .load (ih hrest)

/-- The script that is current at the end of a path is that of the last change. -/
theorem head?_hashes (h : Path overrides m ss m') :
    m'.hashes.head? = Change.currentAfter (ss.filterMap Stride.change?) m.hashes.head? := by
  induction h with
  | nil => rfl
  | @turn m _ t ss hturn _ ih =>
    have htakes : Change.Takes m.hashes (Stride.turn m t).change? t.next.hashes :=
      (Stride.Taken.turn hturn).takes
    rw [ih, htakes.head?_eq, filterMap_cons_eq_append, Change.currentAfter_append]
  | @load m _ code ss _ ih =>
    have htakes : Change.Takes m.reset.hashes (some (.pushed (Hash.ofScript code)))
        (m.load code).next.hashes := .pushed _ _
    have hc : (Stride.load m code).change? = some (.pushed (Hash.ofScript code)) :=
      Stride.change?_eq htakes
    -- Whatever was current before the load, its script is current after it.
    rw [ih, htakes.head?_eq, filterMap_cons_eq_append, hc, Change.currentAfter_append]
    rfl

end Path

/-- The strides of turns, one after the other. -/
def strides : StackMachine → List (Turn StackMachine) → List Stride
  | _, [] => []
  | m, t :: ts => .turn m t :: strides t.next ts

theorem strides_concat {ts : List (Turn StackMachine)} {t : Turn StackMachine}
    (hmoves : Moves overrides m ts m₁) : m.strides (ts ++ [t]) = m.strides ts ++ [.turn m₁ t] := by
  induction hmoves with
  | refl m => rfl
  | cons _ _ ih => exact congrArg (List.cons _) ih

theorem path_of_moves {ts : List (Turn StackMachine)} (hmoves : Moves overrides m ts m') :
    Path overrides m (m.strides ts) m' := by
  induction hmoves with
  | refl m => exact .nil m
  | cons hturn _ ih => exact .turn hturn ih

/-- The strides of a machine through a list of calls, and whether all of the calls ended. An
execution that has not ended took as many turns as it was given. -/
inductive Course (overrides : Overrides) :
    List Call → Bool → StackMachine → List Stride → StackMachine → Prop
  | nil (m : StackMachine) : Course overrides [] true m [] m
  | load {code : Bytes} {calls : List Call} {ended : Bool} {m m' : StackMachine}
    {ss : List Stride} (hrest : Course overrides calls ended (m.load code).next ss m') :
    Course overrides (.load code :: calls) ended m (.load m code :: ss) m'
  | execute {budget : Nat} {calls : List Call} {ended : Bool} {m m₁ m' : StackMachine}
    {ts : List (Turn StackMachine)} {ss : List Stride} (hmoves : Moves overrides m ts m₁)
    (hstop : m₁.turn overrides = none) (hlength : ts.length < budget)
    (hrest : Course overrides calls ended m₁ ss m') :
    Course overrides (.execute budget :: calls) ended m (m.strides ts ++ ss) m'
  | unfinished {budget : Nat} {calls : List Call} {m m' : StackMachine}
    {ts : List (Turn StackMachine)} (hmoves : Moves overrides m ts m')
    (hlength : ts.length = budget) :
    Course overrides (.execute budget :: calls) false m (m.strides ts) m'

theorem Course.path {calls : List Call} {ended : Bool} (h : Course overrides calls ended m ss m') :
    Path overrides m ss m' := by
  induction h with
  | nil m => exact .nil m
  | load _ ih => exact .load ih
  | execute hmoves _ _ _ ih => exact (path_of_moves hmoves).trans ih
  | unfinished hmoves _ => exact path_of_moves hmoves

/-- Strides, with what observers are told of them. -/
inductive Narrated (overrides : Overrides) : List Stride → List Notice → Prop
  | nil : Narrated overrides [] []
  | turn {m : StackMachine} {t : Turn StackMachine} {ss : List Stride} {told : List Notice}
    (hturn : m.turn overrides = some t) (hrest : Narrated overrides ss told) :
    Narrated overrides (.turn m t :: ss) (t.notices m ++ told)
  | load (m : StackMachine) (code : Bytes) {ss : List Stride} {told : List Notice}
    (hrest : Narrated overrides ss told) :
    Narrated overrides (.load m code :: ss) ((m.load code).notices m ++ told)

theorem Narrated.append {told others : List Notice} (hfirst : Narrated overrides ss told)
    (hsecond : Narrated overrides us others) : Narrated overrides (ss ++ us) (told ++ others) := by
  induction hfirst with
  | nil => exact hsecond
  | turn hturn _ ih =>
    rw [List.append_assoc]
    exact .turn hturn ih
  | load m code _ ih =>
    rw [List.append_assoc]
    exact .load m code ih

theorem narrated_of_moves {ts : List (Turn StackMachine)} (hmoves : Moves overrides m ts m') :
    Narrated overrides (m.strides ts) (story m ts) := by
  induction hmoves with
  | refl => exact .nil
  | cons hturn _ ih => exact .turn hturn ih

/-- The way of a machine through a list of calls is one of strides. -/
theorem exists_course_of_route {calls : List Call} {ended : Bool} {told : List Notice}
    (hroute : Route overrides calls ended m told m') :
    ∃ ss, Course overrides calls ended m ss m' ∧ Narrated overrides ss told := by
  induction hroute with
  | nil m => exact ⟨[], .nil m, .nil⟩
  | @load code _ _ m _ _ _ ih =>
    obtain ⟨ss, hcourse, hnarrated⟩ := ih
    exact ⟨_, .load hcourse, .load m code hnarrated⟩
  | execute hmoves hstop hlength _ ih =>
    obtain ⟨ss, hcourse, hnarrated⟩ := ih
    exact ⟨_, .execute hmoves hstop hlength hcourse, (narrated_of_moves hmoves).append hnarrated⟩
  | unfinished hmoves hlength => exact ⟨_, .unfinished hmoves hlength, narrated_of_moves hmoves⟩

/-- The strides of a machine through a list of calls that may fail, with the outcome of each call
and the machine as the call leaves it. A load that fails has pushed its frame, and an execution that
fails has taken some turns. -/
inductive Trail (overrides : Overrides) : List Call → StackMachine →
    List (Except TracerError Unit × StackMachine) → List Stride → StackMachine → Prop
  | nil (m : StackMachine) : Trail overrides [] m [] [] m
  | load {code : Bytes} {calls : List Call} {m m' : StackMachine}
    {outcomes : List (Except TracerError Unit × StackMachine)} {ss : List Stride}
    (outcome : Except TracerError Unit)
    (hrest : Trail overrides calls (m.load code).next outcomes ss m') :
    Trail overrides (.load code :: calls) m ((outcome, (m.load code).next) :: outcomes)
      (.load m code :: ss) m'
  | execute {budget : Nat} {calls : List Call} {m m₁ m' : StackMachine}
    {ts : List (Turn StackMachine)} {outcomes : List (Except TracerError Unit × StackMachine)}
    {ss : List Stride} (outcome : Except TracerError Unit) (hmoves : Moves overrides m ts m₁)
    (hrest : Trail overrides calls m₁ outcomes ss m') :
    Trail overrides (.execute budget :: calls) m ((outcome, m₁) :: outcomes)
      (m.strides ts ++ ss) m'

theorem Trail.path {calls : List Call} {outcomes : List (Except TracerError Unit × StackMachine)}
    (h : Trail overrides calls m outcomes ss m') : Path overrides m ss m' := by
  induction h with
  | nil m => exact .nil m
  | load _ _ ih => exact .load ih
  | execute _ hmoves _ ih => exact (path_of_moves hmoves).trans ih

/-- Calls after others. -/
theorem Trail.append {calls others : List Call} {m₁ : StackMachine}
    {outcomes later : List (Except TracerError Unit × StackMachine)} {us : List Stride}
    (hfirst : Trail overrides calls m outcomes ss m₁)
    (hsecond : Trail overrides others m₁ later us m') :
    Trail overrides (calls ++ others) m (outcomes ++ later) (ss ++ us) m' := by
  induction hfirst with
  | nil => exact hsecond
  | load outcome _ ih => exact .load outcome (ih hsecond)
  | execute outcome hmoves _ ih =>
    rw [List.append_assoc]
    exact .execute outcome hmoves (ih hsecond)

/-- Where a call that failed has left the machine, by script and position. -/
def failedAt? (outcome : Except TracerError Unit × StackMachine) : Option (Hash × Nat) :=
  match outcome.1 with
  | .ok _ => none
  | .error _ => outcome.2.top?

/-! ### What observers are told -/

/-- A machine keeps its snapshot and shows no other one. -/
theorem preserved_snapshot (overrides : Overrides) (snapshot : Snapshot) :
    Preserved overrides (fun m : StackMachine ↦ m.snapshot = snapshot)
      fun n ↦ n.1.snapshot = snapshot := by
  have hshown {m : StackMachine} {t : Turn StackMachine} (hm : m.snapshot = snapshot)
      (hnext : t.next.snapshot = snapshot) : ∀ n ∈ t.notices m, n.1.snapshot = snapshot := by
    intro n hn
    rcases List.mem_append.mp hn with hbefore | hafter
    · obtain ⟨event, -, rfl⟩ := List.mem_map.mp hbefore
      exact hm
    · obtain ⟨event, -, rfl⟩ := List.mem_map.mp hafter
      exact hnext
  have hsnapshot {m m' : StackMachine} (hsetting : m'.setting = m.setting) :
      m'.snapshot = m.snapshot := congrArg (·.2.1) hsetting
  constructor
  · intro m code hm
    have hnext := (hsnapshot (setting_load code m)).trans hm
    exact ⟨hnext, hshown hm hnext⟩
  · intro m t hm hturn
    have hnext := (hsnapshot (setting_of_turn hturn)).trans hm
    exact ⟨hnext, hshown hm hnext⟩

/-- The frame that was pushed. -/
def pushed? : Notice → Option Context
  | (_, .contextLoaded context) => some context
  | _ => none

/-- The frames that were pushed, as observers are told of them. -/
def pushes (told : List Notice) : List Context := told.filterMap pushed?

theorem pushes_append (told others : List Notice) :
    pushes (told ++ others) = pushes told ++ pushes others :=
  List.filterMap_append

/-- A completed operation reports the frames that it pushes. -/
theorem Effect.pushes_eq {m m' : StackMachine} {events : List Event} (h : Effect m events m')
    (view : View) : pushes (events.map (Prod.mk view)) = pushed m m' := by
  cases h with
  | silent h => exact (pushed_eq_nil (Nat.le_of_eq h.length_eq)).symm
  | logged h => exact (pushed_eq_nil (Nat.le_of_eq h.length_eq)).symm
  | notified h => exact (pushed_eq_nil (Nat.le_of_eq h.length_eq)).symm
  | called h hdeployed arguments =>
    rw [pushed_enter h.length_eq]
    rfl
  | returned h hframes =>
    refine (pushed_eq_nil ?_).symm
    rw [← h.length_eq, hframes]
    exact Nat.le_succ _
  | finished h hframes => exact (pushed_eq_nil (Nat.zero_le _)).symm

theorem pushes_turn {m : StackMachine} {t : Turn StackMachine} (hturn : m.turn overrides = some t) :
    pushes (t.notices m) = pushed m t.next := by
  cases outcome_of_turn hturn with
  | empty => exact (pushed_eq_nil (Nat.le_refl _)).symm
  | undecodable => exact (pushed_eq_nil (Nat.le_refl _)).symm
  | @completed i events m' hcompletes =>
    have hevents := hcompletes.effect.pushes_eq m'.view
    rw [pushed_charge] at hevents
    have hlast : pushes ((events ++ [Event.postExecute i]).map (Prod.mk m'.view)) =
        pushes (events.map (Prod.mk m'.view)) := by
      rw [List.map_append, pushes_append]
      exact List.append_nil _
    exact hlast.trans hevents
  | @faulted i fault m' hfaults =>
    have hsame : (m'.raise fault).1.frames.length = m.frames.length :=
      (sameScripts_of_operate hfaults.operate).length_eq.trans (length_charge i m)
    exact (pushed_eq_nil (Nat.le_of_eq hsame)).symm

theorem pushes_load (m : StackMachine) (code : Bytes) :
    pushes ((m.load code).notices m) = pushed m.reset (m.load code).next :=
  (pushed_enter rfl code (Hash.ofScript code) []).symm

/-- The frames that observers are told of are those which strides leave on top. -/
theorem Narrated.pushes_eq {told : List Notice} (h : Narrated overrides ss told) :
    pushes told = ss.flatMap fun s ↦ pushed s.before s.after := by
  induction h with
  | nil => rfl
  | turn hturn _ ih => rw [pushes_append, ih, pushes_turn hturn, List.flatMap_cons]; rfl
  | load m code _ ih => rw [pushes_append, ih, pushes_load, List.flatMap_cons]; rfl

/-! ### Dispatches -/

/-- What observers are told when the next instruction is about to run. -/
theorem dispatch?_view (m : StackMachine) (i : Instruction) :
    dispatch? (m.view, .preExecute i) = m.top? := by
  cases hframes : m.frames <;> simp [dispatch?, view, top?, hframes]

theorem top?_of_next {m : StackMachine} {i : Instruction} (hnext : m.next? = some (.ok i)) :
    ∃ d, m.top? = some d := by
  obtain ⟨f, rest, hframes⟩ := exists_frames_of_next hnext
  exact ⟨(f.scriptHash, f.position), by rw [top?, hframes]; rfl⟩

/-- What a completed operation reports is no dispatch. -/
theorem Effect.dispatches_eq_nil {m m' : StackMachine} {events : List Event}
    (h : Effect m events m') (view : View) : dispatches (events.map (Prod.mk view)) = [] := by
  cases h <;> rfl

section Turns

variable {overrides : Overrides} {m : StackMachine} {t : Turn StackMachine}

/-- A turn is reported before it begins if an instruction is charged in it. -/
theorem charged_of_turn (hturn : m.turn overrides = some t) :
    t.before = none ∧ t.next.gas = m.gas ∨
      ∃ i d, t.before = some (.preExecute i) ∧ m.top? = some d ∧ t.next.gas = m.gas + 1 := by
  cases outcome_of_turn hturn with
  | empty => exact .inl ⟨rfl, rfl⟩
  | undecodable => exact .inl ⟨rfl, rfl⟩
  | @completed i events m' hcompletes =>
    obtain ⟨d, htop⟩ := top?_of_next hcompletes.next
    exact .inr ⟨i, d, rfl, htop, hcompletes.effect.sameSession.gas_eq⟩
  | @faulted i fault m' hfaults =>
    obtain ⟨d, htop⟩ := top?_of_next hfaults.next
    exact .inr ⟨i, d, rfl, htop, (sameScripts_of_operate hfaults.operate).sameSession.gas_eq⟩

/-- The instruction that is dispatched in a turn is the one that observers are told of before it,
and it is the only one that is charged. -/
theorem dispatches_before (hturn : m.turn overrides = some t) :
    dispatches (t.before.toList.map (Prod.mk m.view)) = (Stride.turn m t).dispatched?.toList ∧
      m.gas + (Stride.turn m t).dispatched?.toList.length = t.next.gas := by
  rcases charged_of_turn hturn with ⟨hbefore, hgas⟩ | ⟨i, d, hbefore, htop, hgas⟩
  · have hfree : (Stride.turn m t).dispatched? = none := if_neg (Nat.not_lt.mpr hgas.le)
    rw [hfree, hbefore, hgas]
    exact ⟨rfl, rfl⟩
  · have hcharged : (Stride.turn m t).dispatched? = some d :=
      (if_pos (hgas ▸ Nat.lt_succ_self m.gas)).trans htop
    have hview : dispatch? (m.view, .preExecute i) = some d := (dispatch?_view m i).trans htop
    rw [hcharged, hbefore, hgas]
    exact ⟨List.filterMap_cons_some hview, rfl⟩

/-- Nothing that observers are told after a turn is a dispatch. -/
theorem dispatches_after (hturn : m.turn overrides = some t) :
    dispatches (t.after.map (Prod.mk t.next.view)) = [] := by
  cases outcome_of_turn hturn with
  | empty => rfl
  | undecodable => rfl
  | completed hcompletes =>
    rw [List.map_append, dispatches_append, hcompletes.effect.dispatches_eq_nil]
    rfl
  | faulted => rfl

/-- An instruction is dispatched at the position of the top frame. -/
theorem dispatched?_sublist_top? (s : Stride) :
    s.dispatched?.toList.Sublist s.before.top?.toList := by
  unfold Stride.dispatched?
  split
  · exact .refl _
  · exact List.nil_sublist _

end Turns

/-- Gas is charged for each instruction that is dispatched on a path, and for nothing else. -/
theorem Path.gas_eq {overrides : Overrides} {m m' : StackMachine} {ss : List Stride}
    (h : Path overrides m ss m') :
    m.gas + (ss.filterMap Stride.dispatched?).length = m'.gas := by
  induction h with
  | nil => rfl
  | turn hturn _ ih =>
    rw [filterMap_cons_eq_append, List.length_append, ← Nat.add_assoc,
      (dispatches_before hturn).2, ih]
  | @load m _ code ss _ ih =>
    have hnone : (Stride.load m code).dispatched? = none := if_neg (Nat.lt_irrefl _)
    rw [List.filterMap_cons_none hnone, ← ih]
    congr 1
    exact (gas_reset m).symm

end StackMachine

/-! ### Invocations -/

/-- Strides in groups, each up to one that stops the machine. -/
def invocations (ss : List Stride) : List (List Stride) :=
  ss.splitBy fun s _ ↦ s.after.state = .none

/-- An invocation ends with the return of its outermost frame. -/
def endsByReturn (invocation : List Stride) : Bool :=
  invocation.getLast?.any fun s ↦ s.Returns

/-- How often the call stack was emptied by popping its last frame. -/
def sentinels (ss : List Stride) : Nat := ss.countP fun s ↦ s.change? = some (.popped none)

section Invocations

variable {overrides : Overrides} {ss : List Stride} (htaken : ∀ s ∈ ss, s.Taken overrides)
include htaken

theorem sentinels_eq_countP : sentinels ss = ss.countP (fun s ↦ s.Returns) :=
  List.countP_congr fun s hs ↦ by simpa using (htaken s hs).change?_eq_iff

/-- In an invocation the call stack is emptied once if it ends with the return of its outermost
frame, and never if it does not. -/
theorem sentinels_invocation {invocation : List Stride} (hmem : invocation ∈ invocations ss) :
    sentinels invocation = if endsByReturn invocation then 1 else 0 := by
  have hchain := List.isChain_of_mem_splitBy hmem
  have hsub : ∀ s ∈ invocation, s.Taken overrides := fun s hs ↦ htaken s <| by
    rw [← List.flatten_splitBy (fun s _ ↦ s.after.state = .none) ss]
    exact List.mem_flatten_of_mem hmem hs
  rw [sentinels_eq_countP hsub]
  clear hsub hmem
  -- Only the last stride of an invocation stops the machine.
  induction invocation with
  | nil => rfl
  | cons s rest ih =>
    cases rest with
    | nil => simp [endsByReturn, List.countP_cons]
    | cons s' rest =>
      obtain ⟨hgoes, hrest⟩ := List.isChain_cons_cons.mp hchain
      have hreturns : ¬ s.Returns := fun hreturns ↦ by
        simp [hreturns.2] at hgoes
      rw [List.countP_cons_of_neg (by simpa using hreturns), ih hrest]
      rfl

/-- The call stack was emptied as often as invocations ended with the return of their outermost
frame. -/
theorem sentinels_eq : sentinels ss = (invocations ss).countP endsByReturn := by
  have hflatten := List.flatten_splitBy (fun s _ ↦ s.after.state = .none) ss
  have hsum : sentinels ss = ((invocations ss).map sentinels).sum := by
    have hcount := List.countP_flatten (p := fun s : Stride ↦ s.change? = some (.popped none))
      (l := invocations ss)
    rwa [invocations, hflatten] at hcount
  rw [hsum, List.map_congr_left fun invocation hmem ↦ sentinels_invocation htaken hmem]
  induction invocations ss with
  | nil => rfl
  | cons invocation rest ih => rw [List.map_cons, List.sum_cons, ih, List.countP_cons, Nat.add_comm]

end Invocations

end ScriptTrace
