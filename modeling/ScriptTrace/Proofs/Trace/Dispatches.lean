import Mathlib.Data.List.Induction
import ScriptTrace.Proofs.StackMachine.Positions
import ScriptTrace.Proofs.StackMachine.Strides
import ScriptTrace.Proofs.Trace.Telling

/-!
Where the instructions of a trace were dispatched. A Trace record shows the machine between two
instructions, so the position on top of its call stack is that of the next one (`tops`). `Plays`
gives, for the records of one invocation, the states after which an instruction was dispatched: all
but the last one, and if the invocation ended at an instruction that does not decode, but the last
two. `Chronicle` does so for a list of calls, and `chronicle_of_route` shows that these are the
dispatches of the machine on its way through the calls.
-/

set_option autoImplicit false
set_option relaxedAutoImplicit false

namespace ScriptTrace

/-- The script and the position on top of the call stack that a Trace record shows. -/
def Record.top? : Record → Option (Option (Hash × Nat))
  | .trace _ frames => some (frames.head?.map fun f ↦ (f.scriptHash, f.instructionPointer.toNat))
  | _ => none

/-- The tops of the call stacks that Trace records show. -/
def Record.tops (rs : List Record) : List (Option (Hash × Nat)) := rs.filterMap Record.top?

namespace TraceRecorder

open StackMachine

/-! ### Chronicles -/

/-- The records of an invocation, and where its instructions were dispatched. -/
inductive Plays (config : TraceConfig) (overrides : Overrides) :
    StackMachine → List Record → List (Option (Hash × Nat)) → StackMachine → Prop
  /-- Every instruction decoded; the last state is the one that the invocation closed with. -/
  | decoded {n : Nat} {m m' : StackMachine} {rs : List Record}
    (hinvocation : Invocation config overrides n m rs m')
    (hdecodes : ∀ ts m₁ fault, Moves overrides m ts m₁ → ¬m₁.Undecodable fault) :
    Plays config overrides m rs (Record.tops rs).dropLast m'
  /-- The last instruction did not decode; no dispatch followed the state before it either. -/
  | undecodable {n : Nat} {m m₁ : StackMachine} {rs : List Record} {ts : List (Turn StackMachine)}
    {fault : ScriptFault} (hinvocation : Invocation config overrides n m rs (m₁.raise fault).1)
    (hmoves : Moves overrides m ts m₁) (hundecodable : m₁.Undecodable fault) :
    Plays config overrides m rs (Record.tops rs).dropLast.dropLast (m₁.raise fault).1

/-- The records of an execution that was given too few moves to see the machine stop, and where its
instructions were dispatched. -/
inductive Pauses (config : TraceConfig) (overrides : Overrides) :
    StackMachine → List Record → List (Option (Hash × Nat)) → StackMachine → Prop
  | silent {m m' : StackMachine} (hunfinished : Unfinished config overrides m [] m') :
    Pauses config overrides m [] [] m'
  /-- The last state is the one before the next instruction. -/
  | opened {m m' : StackMachine} {rs : List Record} (hopened : Opened config overrides m rs m') :
    Pauses config overrides m rs (Record.tops rs).dropLast m'
  | whole {m m' : StackMachine} {rs : List Record} {ds : List (Option (Hash × Nat))}
    (hplays : Plays config overrides m rs ds m') : Pauses config overrides m rs ds m'

/-- The records of a list of calls, and where the instructions of its invocations were dispatched.
An execution that ended took fewer moves than it was given, and one that has not ended took as
many. -/
inductive Chronicle (config : TraceConfig) (overrides : Overrides) : List Call → Bool →
    StackMachine → List Record → List (Option (Hash × Nat)) → StackMachine → Prop
  | nil (m : StackMachine) : Chronicle config overrides [] true m [] [] m
  | load {code : Bytes} {calls : List Call} {ended : Bool} {m m' : StackMachine}
    {rs : List Record} {ds : List (Option (Hash × Nat))}
    (h : Chronicle config overrides calls ended (m.load code).next rs ds m') :
    Chronicle config overrides (.load code :: calls) ended m rs ds m'
  | idle {budget : Nat} {calls : List Call} {ended : Bool} {m m₁ m' : StackMachine}
    {ts : List (Turn StackMachine)} {rs : List Record} {ds : List (Option (Hash × Nat))}
    (hmoves : Moves overrides m ts m₁) (hlength : ts.length < budget) (hidles : Idles m m₁)
    (h : Chronicle config overrides calls ended m₁ rs ds m') :
    Chronicle config overrides (.execute budget :: calls) ended m rs ds m'
  | invocation {budget : Nat} {calls : List Call} {ended : Bool} {m m₁ m' : StackMachine}
    {ts : List (Turn StackMachine)} {rs us : List Record} {ds es : List (Option (Hash × Nat))}
    (hmoves : Moves overrides m ts m₁) (hlength : ts.length < budget)
    (hplays : Plays config overrides m rs ds m₁)
    (h : Chronicle config overrides calls ended m₁ us es m') :
    Chronicle config overrides (.execute budget :: calls) ended m (rs ++ us) (ds ++ es) m'
  | unfinished {budget : Nat} {calls : List Call} {m m' : StackMachine}
    {ts : List (Turn StackMachine)} {rs : List Record} {ds : List (Option (Hash × Nat))}
    (hmoves : Moves overrides m ts m') (hlength : ts.length = budget)
    (hpauses : Pauses config overrides m rs ds m') :
    Chronicle config overrides (.execute budget :: calls) false m rs ds m'

/-! ### Tops of records -/

theorem tops_append (rs us : List Record) :
    Record.tops (rs ++ us) = Record.tops rs ++ Record.tops us :=
  List.filterMap_append

theorem tops_eq_nil {rs : List Record} (h : ∀ r ∈ rs, r.kind ≠ .trace) : Record.tops rs = [] := by
  refine List.filterMap_eq_nil_iff.mpr fun r hr ↦ ?_
  cases r with
  | trace state frames => exact absurd rfl (h _ hr)
  | _ => rfl

/-- The script and the position of the current frame. -/
def top (m : StackMachine) : Option (Hash × Nat) :=
  m.frames.head?.map fun f ↦ (f.scriptHash, f.position)

/-- Positions that 32 bits hold. -/
abbrev Short (code : Bytes) : Prop := code.length < UInt32.size

theorem tops_block {m : StackMachine} (hwithin : Within Short m) (config : TraceConfig)
    {view : View} (hframes : view.frames = m.view.frames) :
    Record.tops (block config view) = [top m] := by
  obtain ⟨rest, hblock, hkind⟩ := exists_block_eq config view
  have hrest : Record.tops rest = [] := tops_eq_nil fun r hr ↦ by
    rw [hkind r hr]
    exact RecordKind.noConfusion
  have htop : ((m.frames.map Frame.context).map Context.toRecord).head?.map
      (fun f ↦ (f.scriptHash, f.instructionPointer.toNat)) = top m := by
    cases hframes : m.frames with
    | nil => simp [top, hframes]
    | cons f below =>
      have hf := hwithin.top hframes
      have hposition : (UInt32.ofNat f.position).toNat = f.position := by
        rw [UInt32.toNat_ofNat']
        exact Nat.mod_eq_of_lt (Nat.lt_of_le_of_lt hf.1 hf.2)
      simp [top, hframes, Frame.context, Context.toRecord, hposition]
  rw [hblock, ← List.singleton_append, tops_append, hrest, List.append_nil, hframes]
  exact congrArg (fun x ↦ [x]) htop

theorem tops_opening {m : StackMachine} (hwithin : Within Short m) (config : TraceConfig)
    {view : View} (hframes : view.frames = m.view.frames) :
    Record.tops (opening config view) = [top m] := by
  have hscripts : Record.tops (scripts view.frames.reverse) = [] := tops_eq_nil fun r hr ↦ by
    rw [kind_of_mem_scripts hr]
    exact RecordKind.noConfusion
  rw [opening, List.cons_append, ← List.singleton_append, tops_append, tops_append, hscripts,
    tops_block hwithin config hframes]
  rfl

/-! ### One turn -/

section Turn

variable {config : TraceConfig} {overrides : Overrides} {m : StackMachine} {r : TraceRecorder}

/-- Where a machine was about to dispatch an instruction, if it did in a turn. -/
theorem dispatches_of_turn {t : Turn StackMachine} (hturn : turn overrides m = some t) :
    (dispatches (t.notices m)).map some = if t.before.isSome then [top m] else [] := by
  have hdispatch {i : Instruction} (hnext : m.next? = some (.ok i)) (told : List Notice)
      (htold : dispatches told = []) :
      (dispatches ((m.view, .preExecute i) :: told)).map some = [top m] := by
    cases hframes : m.frames with
    | nil => simp [next?, hframes] at hnext
    | cons f rest =>
      have hhead : dispatch? (m.view, .preExecute i) = some (f.scriptHash, f.position) := by
        simp [dispatch?, view, hframes]
      rw [dispatches, List.filterMap_cons_some hhead, ← dispatches, htold, top, hframes]
      rfl
  cases outcome_of_turn hturn with
  | empty => rfl
  | undecodable => rfl
  | @completed i events m' hcompletes =>
    refine hdispatch hcompletes.next _ ?_
    show dispatches ((events ++ [Event.postExecute i]).map (Prod.mk m'.view)) = []
    rw [List.map_append, dispatches_append, hcompletes.effect.dispatches_eq_nil]
    rfl
  | faulted hfaults => exact hdispatch hfaults.next _ rfl

/-- Assumes: positions that 32 bits hold, and a machine with frames. A turn shows the call stack
after it, and the one before it if the invocation has not begun. -/
theorem tops_of_turn (hwithin : Within Short m) (hframes : m.frames ≠ [])
    (hfollows : Follows config m r) {t : Turn StackMachine} (hturn : turn overrides m = some t) :
    Record.tops (recount tell (r, []) (t.notices m)).2 =
        (if r.started then [] else [top m]) ++ [top t.next] ∧
      (recount tell (r, []) (t.notices m)).1.started = decide (t.next.state = .none) := by
  obtain ⟨-, hsession, hfresh⟩ := hfollows
  have hwithin' : Within Short t.next := hwithin.turn hturn
  have hemits := emits_follow MemorySink.keeps hfresh m t
  have hopening (view : View) (hview : view.frames = m.view.frames) :
      Record.tops (if r.started then [] else opening r.config view) =
        if r.started then [] else [top m] := by
    split
    · rfl
    · exact tops_opening hwithin _ hview
  have hfault (exception : String) :
      Record.tops (.fault exception :: block r.config t.next.view) = [top t.next] := by
    rw [← List.singleton_append, tops_append, tops_block hwithin' _ rfl]
    rfl
  cases outcome_of_turn hturn with
  | empty _ hnil => exact absurd hnil hframes
  | @undecodable fault hundecodable =>
    obtain ⟨hrecorder, hrecords⟩ :=
      (emits_follow_undecodable MemorySink.keeps m fault hfresh).unique .empty hemits
    rw [← hrecorder, ← hrecords, tops_append, hopening (m.raise fault).1.view rfl, hfault]
    exact ⟨rfl, rfl⟩
  | @completed i events m' hcompletes =>
    obtain ⟨r', aside, hemits', haside, -, -, hstarted', -⟩ :=
      emits_follow_completed MemorySink.keeps hcompletes hfresh hsession
    obtain ⟨hrecorder, hrecords⟩ := hemits'.unique .empty hemits
    have hnone : Record.tops aside = [] := tops_eq_nil fun record hrecord htrace ↦ by
      have hmem := haside.isAside.kind_mem record hrecord
      rw [htrace] at hmem
      exact absurd hmem (by decide)
    have hresults : Record.tops (if m'.state = .halt then
        [.results m'.state (Int64.ofNat m'.gas) m'.results] else []) = [] := by
      split <;> rfl
    have hstate : decide (m'.state ≠ .halt) = decide (m'.state = .none) := by
      rcases hcompletes.effect.state_eq_or with hgoes | ⟨hhalt, -⟩
      · rw [hgoes.trans hcompletes.running]
        rfl
      · rw [hhalt]
        rfl
    rw [← hrecorder, ← hrecords, tops_append, tops_append, tops_append, hopening _ rfl, hnone,
      tops_block hwithin' _ rfl, hresults, List.nil_append, List.append_nil, hstarted', hstate]
    exact ⟨rfl, rfl⟩
  | @faulted i fault m' hfaults =>
    obtain ⟨hrecorder, hrecords⟩ :=
      (emits_follow_faulted MemorySink.keeps m i fault m' hfresh).unique .empty hemits
    rw [← hrecorder, ← hrecords, tops_append, hopening _ rfl, hfault]
    exact ⟨rfl, rfl⟩

end Turn

/-! ### One execution -/

/-- A machine whose next instruction does not decode stops with a fault. -/
theorem turn_of_undecodable {overrides : Overrides} {m : StackMachine} {fault : ScriptFault}
    (h : m.Undecodable fault) :
    turn overrides m = some ⟨none, (m.raise fault).1, [.fault fault.message]⟩ := by
  obtain ⟨f, hf, hdecode⟩ := Option.map_eq_some_iff.mp h.next
  obtain ⟨rest, hframes⟩ := List.head?_eq_some_iff.mp hf
  unfold turn
  rw [if_neg (not_not.mpr h.running), hframes]
  simp only [hdecode]
  rfl

/-- A machine that stops at a turn with an instruction does not come to one that does not decode. -/
theorem decodes_of_moves {overrides : Overrides} {m m₁ : StackMachine}
    {ts : List (Turn StackMachine)} (hmoves : Moves overrides m ts m₁) {t : Turn StackMachine}
    (hturn : turn overrides m₁ = some t) (hstop : turn overrides t.next = none)
    (hbefore : t.before ≠ none) (us : List (Turn StackMachine)) (m₂ : StackMachine)
    (fault : ScriptFault) (hother : Moves overrides m us m₂) : ¬m₂.Undecodable fault := by
  intro hundecodable
  have hfaulted := hother.concat (turn_of_undecodable hundecodable)
  have hstopped : turn overrides (m₂.raise fault).1 = none :=
    (turn_eq_none_iff overrides _).mpr VmState.noConfusion
  obtain ⟨hturns, -⟩ := (hmoves.concat hturn).unique hstop hfaulted hstopped
  have hlast := (List.append_inj' hturns rfl).2
  exact hbefore (congrArg Turn.before (List.cons.inj hlast).1)

theorem dispatches_of_concat {overrides : Overrides} {m₀ m : StackMachine}
    {ts : List (Turn StackMachine)} (hmoves : Moves overrides m₀ ts m) {t : Turn StackMachine}
    (hturn : turn overrides m = some t) : (dispatches (story m₀ (ts ++ [t]))).map some =
      (dispatches (story m₀ ts)).map some ++ if t.before.isSome then [top m] else [] := by
  rw [hmoves.story_append, dispatches_append, List.map_append, story, story, List.append_nil,
    dispatches_of_turn hturn]

section Execution

variable {config : TraceConfig} {overrides : Overrides} {m₀ m : StackMachine} {r : TraceRecorder}
  {ts : List (Turn StackMachine)}
  (hfollows : Follows config m₀ r) (hstarted : r.started = false) (hwithin : Within Short m₀)
  (hframes : m₀.frames ≠ []) (hmoves : Moves overrides m₀ ts m)
include hfollows hstarted hwithin hframes hmoves

/-- Assumes: until now, the last state that was shown is that of the next dispatch. One more turn
shows one more state. -/
theorem tops_of_concat {t : Turn StackMachine} (hturn : turn overrides m = some t)
    (hlast : Record.tops (recount tell (r, []) (story m₀ ts)).2 ++
        (if (recount tell (r, []) (story m₀ ts)).1.started then [] else [top m]) =
      (dispatches (story m₀ ts)).map some ++ [top m]) :
    Record.tops (recount tell (r, []) (story m₀ (ts ++ [t]))).2 =
        (dispatches (story m₀ ts)).map some ++ [top m] ++ [top t.next] ∧
      (recount tell (r, []) (story m₀ (ts ++ [t]))).1.started = decide (t.next.state = .none) := by
  have hframes' := frames_ne_nil_of_moves hmoves hframes (running_of_turn hturn)
  obtain ⟨hfollows', -⟩ := phase_of_moves hmoves hfollows hstarted
  obtain ⟨htops, hstarted'⟩ := tops_of_turn (hwithin.moves hmoves) hframes' hfollows' hturn
  rw [hmoves.story_append, recount_append, recount_eq, story, story, List.append_nil, tops_append,
    htops, ← List.append_assoc, hlast]
  exact ⟨rfl, hstarted'⟩

/-- While the machine goes on, the last state that was shown is that of the next dispatch. -/
theorem tops_of_moves (hrunning : m.state = .none) :
    Record.tops (recount tell (r, []) (story m₀ ts)).2 ++
        (if (recount tell (r, []) (story m₀ ts)).1.started then [] else [top m]) =
      (dispatches (story m₀ ts)).map some ++ [top m] := by
  induction ts using List.reverseRecOn generalizing m with
  | nil =>
    cases hmoves
    show [] ++ (if r.started then [] else [top m₀]) = [] ++ [top m₀]
    rw [hstarted]
    rfl
  | append_singleton us t ih =>
    obtain ⟨m₁, hbefore, hturn, rfl⟩ := hmoves.of_concat
    obtain ⟨htops, hstarted'⟩ := tops_of_concat hfollows hstarted hwithin hframes hbefore hturn
      (ih hbefore (running_of_turn hturn))
    have hsome : t.before.isSome := by
      cases outcome_of_turn hturn with
      | empty => cases hrunning
      | undecodable => cases hrunning
      | completed => rfl
      | faulted => cases hrunning
    rw [htops, hstarted', hrunning, dispatches_of_concat hbefore hturn, if_pos hsome]
    simp

/-- An execution of a machine with frames that has stopped was an invocation. -/
theorem plays_of_moves (hrunning : m₀.state = .none) (hstop : turn overrides m = none) :
    Plays config overrides m₀ (recount tell (r, []) (story m₀ ts)).2
      ((dispatches (story m₀ ts)).map some) m := by
  have hstopped := (turn_eq_none_iff overrides m).mp hstop
  obtain ⟨-, hphase⟩ := phase_of_moves hmoves hfollows hstarted
  obtain ⟨-, hcases⟩ := hphase.cases_of_stopped hstopped
  have hinvocation : ∃ n, Invocation config overrides n m₀
      (recount tell (r, []) (story m₀ ts)).2 m := by
    rcases hcases with ⟨hidles, -⟩ | hinvocation
    · cases hidles with
      | stopped hstate => exact absurd hrunning hstate
      | empty _ hnil => exact absurd hnil hframes
    · exact hinvocation
  obtain ⟨n, hinvocation⟩ := hinvocation
  clear hphase hcases
  rcases List.eq_nil_or_concat ts with rfl | ⟨us, t, rfl⟩
  · cases hmoves
    exact absurd hrunning hstopped
  rw [List.concat_eq_append] at *
  obtain ⟨m₁, hbefore, hturn, rfl⟩ := hmoves.of_concat
  obtain ⟨htops, -⟩ := tops_of_concat hfollows hstarted hwithin hframes hbefore hturn
    (tops_of_moves hfollows hstarted hwithin hframes hbefore (running_of_turn hturn))
  have hdispatches := dispatches_of_concat hbefore hturn
  have hdecoded (hsome : t.before ≠ none) : Plays config overrides m₀
      (recount tell (r, []) (story m₀ (us ++ [t]))).2
      ((dispatches (story m₀ (us ++ [t]))).map some) t.next := by
    have hlast := congrArg List.dropLast htops
    rw [List.dropLast_concat] at hlast
    rw [hdispatches, if_pos (Option.isSome_iff_ne_none.mpr hsome), ← hlast]
    exact .decoded hinvocation (decodes_of_moves hbefore hturn hstop hsome)
  cases outcome_of_turn hturn with
  | empty _ hnil =>
    exact absurd hnil (frames_ne_nil_of_moves hbefore hframes (running_of_turn hturn))
  | undecodable hundecodable =>
    have hlast := congrArg (fun tops ↦ tops.dropLast.dropLast) htops
    rw [List.dropLast_concat, List.dropLast_concat] at hlast
    rw [hdispatches, if_neg (by simp), List.append_nil, ← hlast]
    exact .undecodable hinvocation hbefore hundecodable
  | completed => exact hdecoded (Option.some_ne_none _)
  | faulted => exact hdecoded (Option.some_ne_none _)

/-- An execution of a machine with frames, whether or not it was seen to stop. -/
theorem pauses_of_moves (hrunning : m₀.state = .none) :
    Pauses config overrides m₀ (recount tell (r, []) (story m₀ ts)).2
      ((dispatches (story m₀ ts)).map some) m := by
  by_cases hgoes : m.state = .none
  · have htops := tops_of_moves hfollows hstarted hwithin hframes hmoves hgoes
    obtain ⟨-, hphase⟩ := phase_of_moves hmoves hfollows hstarted
    generalize (recount tell (r, []) (story m₀ ts)).2 = rs at htops hphase
    generalize (recount tell (r, []) (story m₀ ts)).1.started = begun at htops hphase
    cases hphase with
    | idle hidles => exact absurd hgoes hidles.state_ne
    | ended _ hstopped => exact absurd hgoes hstopped
    | running hbegin hsteps _ =>
      cases hsteps with
      | refl =>
        have hnone : [] = (dispatches (story m₀ ts)).map some := List.append_cancel_right htops
        rw [← hnone]
        exact .silent (.waiting m₀)
      | snoc hsteps hcompletes haside =>
        have hlast := congrArg List.dropLast htops
        simp only [Nat.succ_ne_zero, bne_iff_ne, ne_eq, not_false_eq_true, if_true, if_false,
          List.append_nil, List.dropLast_concat] at hlast
        rw [← hlast]
        exact .opened ⟨hbegin, .snoc hsteps hcompletes haside⟩
  · have hstop := (turn_eq_none_iff overrides m).mpr hgoes
    exact .whole (plays_of_moves hfollows hstarted hwithin hframes hmoves hrunning hstop)

end Execution

/-- A machine that has stopped or has no frames says nothing on its way. -/
theorem idles_of_moves {overrides : Overrides} {m m' : StackMachine}
    {ts : List (Turn StackMachine)} (hmoves : Moves overrides m ts m')
    (hidle : m.state ≠ .none ∨ m.frames = []) : story m ts = [] ∧ (m' = m ∨ Idles m m') := by
  cases hmoves with
  | refl => exact ⟨rfl, .inl rfl⟩
  | @cons _ _ t ts hturn hrest =>
    have hrunning := running_of_turn hturn
    have hnil := hidle.resolve_left (not_not.mpr hrunning)
    have hnext : m.next? = none := by rw [next?, hnil, List.head?_nil, Option.map_none]
    cases outcome_of_turn hturn with
    | empty =>
      obtain ⟨rfl, rfl⟩ := hrest.eq_of_stopped
        ((turn_eq_none_iff overrides _).mpr VmState.noConfusion)
      exact ⟨rfl, .inr (.empty hrunning hnil)⟩
    | undecodable h => exact absurd (hnext.symm.trans h.next) (Option.some_ne_none _).symm
    | completed h => exact absurd (hnext.symm.trans h.next) (Option.some_ne_none _).symm
    | faulted h => exact absurd (hnext.symm.trans h.next) (Option.some_ne_none _).symm

/-! ### Calls -/

/-- Assumes: a recorder that is not in an invocation, and positions that 32 bits hold. What is
recounted of the way of a machine through a list of calls shows where its instructions were
dispatched. -/
theorem chronicle_of_route {config : TraceConfig} {overrides : Overrides} {calls : List Call}
    {ended : Bool} {m m' : StackMachine} {told : List Notice}
    (hroute : Route overrides calls ended m told m')
    (hcodes : ∀ code, .load code ∈ calls → Short code) {r : TraceRecorder}
    (hfollows : Follows config m r) (hstarted : r.started = false) (hwithin : Within Short m) :
    Chronicle config overrides calls ended m (recount tell (r, []) told).2
      ((dispatches told).map some) m' := by
  induction hroute generalizing r with
  | nil m => exact .nil m
  | @load code calls ended m m' told _ ih =>
    have hrest := ih (fun other hother ↦ hcodes other (.tail _ hother)) (hfollows.load code)
      hstarted (hwithin.load (hcodes code List.mem_cons_self))
    have hsame : dispatches ((m.load code).notices m ++ told) = dispatches told :=
      dispatches_append _ told
    rw [show Machine.load code m = m.load code from rfl, recount_load hstarted, hsame]
    exact .load hrest
  | @execute budget calls ended m m₁ m' ts told hmoves hstop hlength _ ih =>
    have hstopped := (turn_eq_none_iff overrides m₁).mp hstop
    obtain ⟨hfollows₁, hphase⟩ := phase_of_moves hmoves hfollows hstarted
    obtain ⟨hstarted₁, -⟩ := hphase.cases_of_stopped hstopped
    have hrest := ih (fun other hother ↦ hcodes other (.tail _ hother)) hfollows₁ hstarted₁
      (hwithin.moves hmoves)
    by_cases hidle : m.state ≠ .none ∨ m.frames = []
    · obtain ⟨hstory, hcases⟩ := idles_of_moves hmoves hidle
      rw [hstory] at hrest ⊢
      refine .idle hmoves hlength ?_ hrest
      rcases hcases with rfl | hidles
      · exact .stopped hstopped
      · exact hidles
    · obtain ⟨hrunning, hframes⟩ := not_or.mp hidle
      rw [recount_append, recount_eq, dispatches_append, List.map_append]
      exact .invocation hmoves hlength (plays_of_moves hfollows hstarted hwithin hframes hmoves
        (not_not.mp hrunning) hstop) hrest
  | @unfinished budget calls m m' ts hmoves hlength =>
    refine .unfinished hmoves hlength ?_
    by_cases hidle : m.state ≠ .none ∨ m.frames = []
    · obtain ⟨hstory, hcases⟩ := idles_of_moves hmoves hidle
      rw [hstory]
      refine .silent ?_
      rcases hcases with rfl | hidles
      · exact .waiting _
      · exact .idle hidles
    · obtain ⟨hrunning, hframes⟩ := not_or.mp hidle
      exact pauses_of_moves hfollows hstarted hwithin hframes hmoves (not_not.mp hrunning)

end TraceRecorder

end ScriptTrace
