import ScriptTrace.Proofs.Session.Drive
import ScriptTrace.Proofs.StackMachine.Refit
import ScriptTrace.Proofs.StackMachine.Turns

/-!
A machine whose witness checks are answered by membership in a list, and the machine with this list
as its signers. The one is asked by the arguments that it popped, the other by the argument of the
system call, and they fault with the same text, although not with the same fault
(`mirrors_syscall`). So each takes the turns of the other (`turn_signedBy`), as long as the other
replaced system calls do not ask for the machine's own judgement on witnesses
(`Overrides.Impartial`).
-/

set_option autoImplicit false
set_option relaxedAutoImplicit false

namespace ScriptTrace

/-- A view of a machine with another judgement on witnesses. -/
def View.judging (judge : Hash → Bool) (view : View) : View := { view with checkWitness := judge }

/-- The replaced system calls answer alike under another judgement on witnesses. -/
def Overrides.Impartial (judge : Hash → Bool) (overrides : Overrides) : Prop :=
  ∀ hash handler, overrides.get? hash = some handler → ∀ (view : View) (arguments : List Item),
    handler (view.judging judge) arguments = handler view arguments

theorem get?_witnessed (judge : Hash → Bool) (overrides : Overrides) (hash : UInt32) :
    (Engine.witnessed (some judge) overrides).get? hash =
      if Syscall.checkWitness.hash = hash then some (WitnessChecker.handler judge)
      else overrides.get? hash :=
  Table.get?_set overrides _ hash _

/-- Each system call is known by its own identity only. -/
theorem Syscall.hash_of_ofHash? {hash : UInt32} {s : Syscall} (h : ofHash? hash = some s) :
    s.hash = hash := by
  have hmem : (hash, s) ∈ table := by
    obtain ⟨front, back, htable, -⟩ := List.lookup_eq_some_iff.mp h
    rw [htable]
    exact List.mem_append_right _ List.mem_cons_self
  obtain ⟨s', -, hs'⟩ := List.mem_map.mp hmem
  obtain ⟨rfl, rfl⟩ := Prod.mk.inj hs'
  rfl

theorem Syscall.ofHash?_checkWitness : ofHash? checkWitness.hash = some checkWitness := by
  decide +kernel

/-- A byte string or a buffer names an account: the one with these bytes, or that of a key. -/
def Item.Names (argument : Item) (target : Hash) : Prop :=
  ∃ bs, argument.bytes? = some bs ∧
    (target.bytes = bs ∨ bs.length = 33 ∧ target = Hash.ofScript (Syscall.redeemScript bs))

theorem witnessTarget_eq_ok_iff {argument : Item} {target : Hash} :
    witnessTarget argument = .ok target ↔ argument.Names target := by
  unfold witnessTarget Hash.ofBytes? Item.Names
  cases argument.bytes? with
  | none => exact ⟨nofun, fun ⟨_, hbytes, _⟩ ↦ absurd hbytes nofun⟩
  | some bs =>
    simp only [Option.some.injEq, exists_eq_left']
    by_cases hhash : bs.length = 20
    · rw [dif_pos hhash]
      refine ⟨fun h ↦ .inl ?_, ?_⟩
      · rw [← Except.ok.inj h]
      · rintro (rfl | ⟨hkey, -⟩)
        · rfl
        · omega
    · rw [dif_neg hhash]
      have hother : target.bytes ≠ bs := fun hbytes ↦ hhash (hbytes ▸ target.length_bytes)
      by_cases hkey : bs.length = 33
      · simp [hkey, hother, eq_comm]
      · simp [hkey, hother]

/-- Anything but a hash of 20 bytes and a key of 33 bytes names no account. -/
theorem exists_witnessTarget_eq {argument : Item}
    (hlengths : ∀ bs, argument.bytes? = some bs → bs.length ≠ 20 ∧ bs.length ≠ 33) :
    ∃ e, witnessTarget argument = .error e := by
  cases htarget : witnessTarget argument with
  | error e => exact ⟨e, rfl⟩
  | ok target =>
    obtain ⟨bs, hbytes, rfl | ⟨hkey, -⟩⟩ := witnessTarget_eq_ok_iff.mp htarget
    · exact absurd target.length_bytes (hlengths _ hbytes).1
    · exact absurd hkey (hlengths bs hbytes).2

namespace StackMachine

/-- The same machine with other signers. -/
def signedBy (signers : List Hash) (m : StackMachine) : StackMachine :=
  { m with signers := signers }

/-- Other signers take the place of the signers. -/
def signing (signers : List Hash) : Refit := fun (session, gas, _) => (session, gas, signers)

variable {L : List Hash} {overrides : Overrides}

/-! ### Steps -/

section Steps

variable {κ : Type} {text : ScriptFault → κ}

/-- A system call other than a witness check. -/
theorem mirrors_perform {s : Syscall} (hs : s ≠ .checkWitness) (arguments : List Item)
    (m : StackMachine) :
    Mirrors (refit (signing L)) id text (perform s arguments) (perform s arguments) m := by
  unfold perform
  split
  · unfold log
    split
    · exact .throw rfl _
    · rfl
  · unfold notify
    split
    · exact .throw rfl _
    · split
      · rfl
      · exact .throw rfl _
  · exact absurd rfl hs
  · exact mirrors_call _ _ m
  · exact (mirrors_push _ m).bind fun _ _ _ ↦ .pure _ _
  · exact .throw rfl _

/-- The predicate and the machine judge an argument alike. -/
theorem mirrors_witness (argument : Item) (m : StackMachine) :
    Mirrors (refit (signing L)) id ScriptFault.message
      (do
        match WitnessChecker.handler L.contains (← get).view [argument] with
        | .error message => throw (.override message)
        | .ok none => return ([] : List Event)
        | .ok (some item) => do
          push item
          return [])
      (do
        checkWitness argument
        return []) m := by
  cases htarget : witnessTarget argument with
  | error e =>
    have hhandler : WitnessChecker.handler L.contains m.view [argument] = .error e.message := by
      simp only [WitnessChecker.handler, htarget]
    have hnative : checkWitness argument = throw (.witness e) := by
      rw [checkWitness, htarget]
    have htext : (ScriptFault.witness e).message = (ScriptFault.override e.message).message := rfl
    refine (Mirrors.throw htext m).congr ?_ ?_
    · rw [get_bind_eq, hhandler]
    · rw [hnative]
      rfl
  | ok target =>
    have hhandler : WitnessChecker.handler L.contains m.view [argument] =
        .ok (some (.boolean (L.contains target))) := by
      simp only [WitnessChecker.handler, htarget]
    have hnative : checkWitness argument (m.refit (signing L)) =
        push (.boolean (L.contains target)) (m.refit (signing L)) := by
      rw [checkWitness, htarget]
      rfl
    have hpushes : Mirrors (refit (signing L)) id ScriptFault.message
        (push (.boolean (L.contains target))) (checkWitness argument) m :=
      (mirrors_push _ m).congr rfl hnative
    refine (hpushes.bind (k := id) fun _ _ _ ↦ .pure ([] : List Event) _).congr ?_ rfl
    rw [get_bind_eq, hhandler]

/-- A replaced system call that is impartial. -/
theorem mirrors_handled {handler : SyscallHandler} {arguments : List Item}
    (hhandler : ∀ view : View, handler (view.judging L.contains) arguments =
      handler view arguments) (m : StackMachine) :
    Mirrors (refit (signing L)) id text
      (do
        match handler (← get).view arguments with
        | .error message => throw (.override message)
        | .ok none => return ([] : List Event)
        | .ok (some item) => do
          push item
          return [])
      (do
        match handler (← get).view arguments with
        | .error message => throw (.override message)
        | .ok none => return []
        | .ok (some item) => do
          push item
          return []) m := by
  refine .get_bind ?_
  have hanswer : handler (m.refit (signing L)).view arguments = handler m.view arguments :=
    hhandler m.view
  rw [hanswer]
  split
  · exact .throw rfl _
  · exact .pure _ _
  · exact (mirrors_push _ m).bind fun _ _ _ ↦ .pure _ _

end Steps

section Turns

variable (hfree : overrides.get? Syscall.checkWitness.hash = none)
  (himpartial : overrides.Impartial L.contains)
include hfree himpartial

theorem mirrors_syscall (hash : UInt32) (m : StackMachine) :
    Mirrors (refit (signing L)) id ScriptFault.message
      (syscall (Engine.witnessed (some L.contains) overrides) hash) (syscall overrides hash) m := by
  have hlookup := get?_witnessed L.contains overrides hash
  have hasked := Syscall.ofHash?_checkWitness
  have hidentity (hknown : Syscall.ofHash? hash = some .checkWitness) :=
    Syscall.hash_of_ofHash? hknown
  unfold syscall
  refine (mirrors_popMany _ m).bind fun arguments m₁ hpopped ↦ ?_
  have hlength := length_of_popMany hpopped
  dsimp only [id]
  rw [hlookup]
  generalize Syscall.checkWitness.hash = asked at *
  by_cases hhash : asked = hash
  · subst hhash
    rw [if_pos rfl, hfree, hasked] at *
    obtain ⟨argument, rfl⟩ := List.length_eq_one_iff.mp hlength
    exact mirrors_witness argument m₁
  · rw [if_neg hhash]
    cases hfound : overrides.get? hash with
    | some handler => exact mirrors_handled (himpartial hash handler hfound · arguments) m₁
    | none =>
      cases hknown : Syscall.ofHash? hash with
      | none => exact .throw rfl _
      | some s =>
        exact mirrors_perform (fun hs ↦ hhash (hidentity (hs ▸ hknown))) arguments m₁

theorem mirrors_operate (op : Operation) (m : StackMachine) :
    Mirrors (refit (signing L)) id ScriptFault.message
      (operate (Engine.witnessed (some L.contains) overrides) op) (operate overrides op) m := by
  unfold operate
  cases op with
  | push item => exact (mirrors_push item m).bind fun _ _ _ ↦ .pure _ _
  | jumpIf target => exact (mirrors_jumpIf target m).bind fun _ _ _ ↦ .pure _ _
  | abort => exact .throw rfl m
  | enterTry => exact (mirrors_modifyFrame _ m).bind fun _ _ _ ↦ .pure _ _
  | ret => exact mirrors_leave m
  | syscall hash => exact mirrors_syscall hfree himpartial hash m
  | skip => exact .pure _ m

theorem dispatch_signedBy (i : Instruction) (m : StackMachine) :
    (m.signedBy L).dispatch overrides i =
      Prod.map (signedBy L) id
        (m.dispatch (Engine.witnessed (some L.contains) overrides) i) := by
  have hoperate := mirrors_operate hfree himpartial i.operation (m.charge i)
  have hcharge : (m.signedBy L).charge i = (m.charge i).refit (signing L) := rfl
  unfold dispatch
  rw [hcharge]
  cases hrun : operate (Engine.witnessed (some L.contains) overrides) i.operation (m.charge i) with
  | ok events m' =>
    rw [hoperate.of_ok hrun]
    rfl
  | error fault m' =>
    obtain ⟨fault', htext, hrun'⟩ := hoperate.of_error hrun
    rw [hrun']
    simp only [raise, htext]
    rfl

/-- Assumes: no replaced system call for witness checks, and impartial others. The machine with a
list as its signers takes the turns of the machine whose witness checks are answered by membership
in this list. -/
theorem turn_signedBy (m : StackMachine) :
    turn overrides (m.signedBy L) =
      (turn (Engine.witnessed (some L.contains) overrides) m).map (Turn.mapNext (signedBy L)) := by
  have hdispatch (i : Instruction) := dispatch_signedBy hfree himpartial i m
  unfold turn
  have hstate : (m.signedBy L).state = m.state := rfl
  have hframes : (m.signedBy L).frames = m.frames := rfl
  rw [hstate, hframes]
  split
  · rfl
  · cases m.frames with
    | nil => rfl
    | cons f rest =>
      dsimp only
      cases Instruction.decode f.code f.position with
      | error fault => rfl
      | ok i =>
        dsimp only
        rw [hdispatch i]
        rfl

/-- So does every run. -/
theorem moves_signedBy {m m' : StackMachine} {ts : List (Turn StackMachine)}
    (hmoves : Moves (Engine.witnessed (some L.contains) overrides) m ts m') :
    Moves overrides (m.signedBy L) (ts.map (Turn.mapNext (signedBy L))) (m'.signedBy L) := by
  induction hmoves with
  | refl m => exact .refl _
  | @cons m m' t ts hturn _ ih =>
    have himage : Machine.turn overrides (m.signedBy L) = some (t.mapNext (signedBy L)) :=
      (turn_signedBy hfree himpartial m).trans (congrArg (Option.map _) hturn)
    exact .cons himage ih

end Turns

theorem load_signedBy (code : Bytes) (m : StackMachine) :
    load code (m.signedBy L) = (load code m).mapNext (signedBy L) := by
  have hstate : (m.signedBy L).state = m.state := rfl
  have hreset : (m.signedBy L).reset = m.reset.signedBy L := by
    unfold reset
    rw [hstate]
    split <;> rfl
  unfold load
  rw [hreset]
  rfl

/-! ### Checks -/

/-- A running machine comes to a witness check, with an argument on top of its stack. -/
structure Asks (m : StackMachine) (i : Instruction) (argument : Item) : Prop where
  running : m.state = .none
  next : m.next? = some (.ok i)
  operation : i.operation = .syscall Syscall.checkWitness.hash
  top : ∃ f rest below, m.frames = f :: rest ∧ f.stack = argument :: below

/-- An answer takes the place of the item on top of the stack. -/
def answered (answer : Item) (m : StackMachine) : StackMachine :=
  { m with frames := m.frames.modifyHead fun f ↦ { f with stack := answer :: f.stack.tail } }

/-- The move of a machine that answers a witness check, after the answer is pushed. -/
def replies (judge : Hash → Bool) (target : Hash) (i : Instruction) (m : StackMachine) :
    Turn StackMachine :=
  ⟨some (.preExecute i), (m.charge i).answered (.boolean (judge target)), [.postExecute i]⟩

section Asks

variable {m : StackMachine} {i : Instruction} {argument : Item}

/-- A predicate answers the check, or the machine faults with the reason why it cannot. -/
theorem Asks.exists_operate_eq (h : m.Asks i argument) (judge : Hash → Bool)
    (overrides : Overrides) :
    ∃ m₁, operate (Engine.witnessed (some judge) overrides) i.operation (m.charge i) =
      match witnessTarget argument with
      | .error e => .error (.override e.message) m₁
      | .ok target => .ok [] ((m.charge i).answered (.boolean (judge target))) := by
  obtain ⟨f, rest, below, hframes, hstack⟩ := h.top
  let top : Frame := { f with position := f.position + i.size, stack := below }
  let popped : StackMachine := { m.charge i with frames := top :: rest }
  have hpop : pop (m.charge i) = .ok argument popped := by
    simp only [pop, charge, hframes, hstack, popped, top]
  have hpopMany : popMany 1 (m.charge i) = .ok [argument] popped := by
    rw [popMany, bind_ok hpop]
    rfl
  have hlookup := get?_witnessed judge overrides Syscall.checkWitness.hash
  rw [if_pos rfl] at hlookup
  have hasked := Syscall.ofHash?_checkWitness
  have hcount : (Option.map Syscall.parameters (some Syscall.checkWitness)).getD 0 = 1 := rfl
  refine ⟨popped, ?_⟩
  rw [h.operation, operate, syscall]
  generalize Syscall.checkWitness.hash = asked at *
  simp only [hasked, hlookup, hcount]
  rw [bind_ok hpopMany, get_bind_eq]
  cases htarget : witnessTarget argument with
  | error e =>
    simp only [WitnessChecker.handler, htarget]
    rfl
  | ok target =>
    simp only [WitnessChecker.handler, htarget]
    have hanswered : (m.charge i).answered (.boolean (judge target)) =
        { popped with
          frames := { top with stack := .boolean (judge target) :: below } :: rest } := by
      simp only [answered, charge, hframes, hstack, popped, top, List.modifyHead_cons,
        List.tail_cons]
    rw [hanswered]
    rfl

theorem Asks.turn_eq (h : m.Asks i argument) (judge : Hash → Bool) (overrides : Overrides)
    {target : Hash} (htarget : witnessTarget argument = .ok target) :
    turn (Engine.witnessed (some judge) overrides) m = some (replies judge target i m) := by
  obtain ⟨m₁, hoperate⟩ := h.exists_operate_eq judge overrides
  rw [htarget] at hoperate
  rw [turn_of_next h.running h.next, dispatch, hoperate]
  rfl

theorem Asks.exists_turn_eq (h : m.Asks i argument) (judge : Hash → Bool) (overrides : Overrides)
    {e : WitnessError} (htarget : witnessTarget argument = .error e) :
    ∃ m₁ : StackMachine, turn (Engine.witnessed (some judge) overrides) m =
      some ⟨some (.preExecute i), (m₁.raise (.override e.message)).1, [.fault e.message]⟩ := by
  obtain ⟨m₁, hoperate⟩ := h.exists_operate_eq judge overrides
  rw [htarget] at hoperate
  refine ⟨m₁, ?_⟩
  rw [turn_of_next h.running h.next, dispatch, hoperate]
  rfl

end Asks

end StackMachine

end ScriptTrace
