import ScriptTrace.Proofs.Coverage.Dispatches
import ScriptTrace.Proofs.StackMachine.Branches

/-!
What a coverage log says of each stride of a machine. A stride that dispatches an instruction is an
address line, one after which another frame is on top is a hash line, and a conditional branch that
completes with its target in the script is a branch line right after its address (`Stride.lines`).
Nothing of it depends on the strides before: a branch that a recorder still remembers is forgotten
when the next instruction is told (`snd_recount_turn`). So the log of a list of calls is the lines
of its strides, one after the other (`drive_course`).
-/

set_option autoImplicit false
set_option relaxedAutoImplicit false

namespace ScriptTrace

/-! ### The lines of a stride -/

/-- The line of the branch at the position of a frame, if its target lies within the script. -/
def Frame.branch? (f : Frame) : Option CoverageLine :=
  if f.JumpsWithin then some (.branch f.position f.jump.toNat f.outcome) else none

/-- The branch line of a stride: a conditional branch has completed, and its target lies within the
script. -/
def Stride.branch? (s : Stride) : Option CoverageLine := s.jumped?.bind Frame.branch?

/-- What a log says of a stride. -/
def Stride.lines (s : Stride) : List CoverageLine :=
  (s.dispatched?.map fun d ↦ CoverageLine.address d.2).toList ++ s.branch?.toList ++
    (s.change?.map fun c ↦ CoverageLine.current c.hash).toList

namespace CoverageLine

/-- A line says how a branch went. -/
def isBranch : CoverageLine → Bool
  | branch _ _ _ => true
  | _ => false

end CoverageLine

namespace Stride

open CoverageLine

theorem exists_of_branch? {s : Stride} {l : CoverageLine} (h : s.branch? = some l) :
    ∃ f ∈ s.jumped?, f.JumpsWithin ∧ l = .branch f.position f.jump.toNat f.outcome := by
  obtain ⟨f, hf, hline⟩ := Option.bind_eq_some_iff.mp h
  unfold Frame.branch? at hline
  split at hline
  · rename_i hwithin
    exact ⟨f, hf, hwithin, (Option.some.inj hline).symm⟩
  · cases hline

/-- The hash line of a stride is that of its change. -/
theorem filterMap_script?_lines (s : Stride) :
    s.lines.filterMap script? = (s.change?.map Change.hash).toList := by
  have hbranch : s.branch?.toList.filterMap script? = [] := by
    cases h : s.branch? with
    | none => rfl
    | some l =>
      obtain ⟨f, -, -, rfl⟩ := exists_of_branch? h
      rfl
  rw [lines, List.filterMap_append, List.filterMap_append, hbranch]
  cases s.dispatched? <;> cases s.change? <;> rfl

/-- The branch line of a stride. -/
theorem filter_isBranch_lines (s : Stride) : s.lines.filter isBranch = s.branch?.toList := by
  have hbranch : s.branch?.toList.filter isBranch = s.branch?.toList := by
    cases h : s.branch? with
    | none => rfl
    | some l =>
      obtain ⟨f, -, -, rfl⟩ := exists_of_branch? h
      rfl
  rw [lines, List.filter_append, List.filter_append, hbranch]
  cases s.dispatched? <;> cases s.change? <;> simp [isBranch]

/-- A branch line stands right after the address line of its instruction. -/
theorem lines_of_branch? {s : Stride} {l : CoverageLine} (h : s.branch? = some l) :
    ∃ f ∈ s.jumped?, f.JumpsWithin ∧ l = .branch f.position f.jump.toNat f.outcome ∧
      ∃ rest, s.lines = .address f.position :: l :: rest := by
  obtain ⟨f, hf, hwithin, hl⟩ := exists_of_branch? h
  refine ⟨f, hf, hwithin, hl, (s.change?.map fun c ↦ CoverageLine.current c.hash).toList, ?_⟩
  obtain ⟨htop, hjumped⟩ := Option.filter_eq_some_iff.mp hf
  have hdispatched : s.dispatched? = some (f.scriptHash, f.position) := by
    rw [dispatched?, if_pos (of_decide_eq_true hjumped).1, StackMachine.top?, htop, Option.map_some]
  rw [lines, hdispatched, h]
  rfl

/-- A stride that was charged begins with an address line. -/
theorem lines_of_charged {s : Stride} {f : Frame} {rest : List Frame}
    (hframes : s.before.frames = f :: rest) (hgas : s.after.gas = s.before.gas + 1) :
    s.lines = .address f.position ::
      (s.branch?.toList ++ (s.change?.map fun c ↦ CoverageLine.current c.hash).toList) := by
  have hdispatched : s.dispatched? = some (f.scriptHash, f.position) := by
    rw [dispatched?, if_pos (hgas ▸ Nat.lt_succ_self _), StackMachine.top?, hframes,
      List.head?_cons, Option.map_some]
  rw [lines, hdispatched, List.append_assoc]
  rfl

/-- A stride that was not charged has at most a hash line. -/
theorem lines_of_not_charged {s : Stride} (hgas : s.after.gas = s.before.gas) :
    s.lines = (s.change?.map fun c ↦ CoverageLine.current c.hash).toList := by
  have hfree : ¬ s.before.gas < s.after.gas := hgas ▸ Nat.lt_irrefl _
  have hjumped : s.jumped? = none := by
    simp [jumped?, hfree]
  rw [lines, dispatched?, if_neg hfree, branch?, hjumped]
  rfl

end Stride

/-- The hash lines of strides are those of their changes, in order. -/
theorem filterMap_script?_flatMap_lines (ss : List Stride) :
    (ss.flatMap Stride.lines).filterMap CoverageLine.script? =
      (ss.filterMap Stride.change?).map Change.hash := by
  induction ss with
  | nil => rfl
  | cons s rest ih =>
    rw [List.flatMap_cons, List.filterMap_append, ih, s.filterMap_script?_lines,
      filterMap_cons_eq_append, List.map_append]
    cases s.change? <;> rfl

/-- The branch lines of strides, in order. -/
theorem filter_isBranch_flatMap_lines (ss : List Stride) :
    (ss.flatMap Stride.lines).filter CoverageLine.isBranch = ss.filterMap Stride.branch? := by
  induction ss with
  | nil => rfl
  | cons s rest ih =>
    rw [List.flatMap_cons, List.filter_append, ih, s.filter_isBranch_lines,
      filterMap_cons_eq_append]

namespace CoverageRecorder

open CoverageLine StackMachine

/-! ### What is told of a stride -/

/-- A completed operation has the hash line of what it does to the call stack, and whatever branch
is remembered stays so. -/
theorem recount_effect {m m' : StackMachine} {events : List Event} (heffect : Effect m events m')
    (q : CoverageRecorder × List CoverageLine) :
    ∃ c, Change.Takes m.hashes c m'.hashes ∧
      (recount tell q (events.map (Prod.mk m'.view))).1.pending = q.1.pending ∧
      (recount tell q (events.map (Prod.mk m'.view))).2 =
        q.2 ++ (c.map fun c ↦ current c.hash).toList := by
  have hsame {m₁ : StackMachine} (hscripts : SameScripts m m₁) :
      Change.Takes m.hashes none m₁.hashes := by
    rw [hashes_of_sameScripts hscripts]
    exact .same _
  cases heffect with
  | silent h => exact ⟨none, hsame h, rfl, (List.append_nil _).symm⟩
  | logged h => exact ⟨none, hsame h, rfl, rfl⟩
  | notified h => exact ⟨none, hsame h, rfl, rfl⟩
  | @called m₁ h hash contract hdeployed arguments =>
    rw [← hashes_of_sameScripts h]
    exact ⟨some (.pushed contract.hash), .pushed _ _, rfl, rfl⟩
  | @returned m₁ h f caller rest hframes =>
    rw [← hashes_of_sameScripts h, hashes, hframes]
    exact ⟨some (.popped (some caller.scriptHash)), .popped _ _, rfl, rfl⟩
  | @finished m₁ h f hframes =>
    rw [← hashes_of_sameScripts h, hashes, hframes]
    exact ⟨some (.popped none), .popped _ _, rfl, rfl⟩

/-- An instruction is told of: its address is written, and its branch is remembered in place of any
other. -/
theorem recount_before {m : StackMachine} {f : Frame} {rest : List Frame}
    (hframes : m.frames = f :: rest) (q : CoverageRecorder × List CoverageLine) (i : Instruction) :
    (recount tell q [(m.view, .preExecute i)]).1.pending =
        i.branchTarget.map (fun target ↦ ⟨f.scriptHash, f.position, target, m.frames.length⟩) ∧
      (recount tell q [(m.view, .preExecute i)]).2 = q.2 ++ [.address f.position] := by
  have hhash : m.view.currentHash = some f.scriptHash := by
    rw [view, hframes]
    rfl
  have hposition : m.view.currentPointer = some f.position := by
    rw [view, hframes]
    rfl
  simp only [recount, tell, hhash, hposition, List.foldl_cons, List.foldl_nil]
  exact ⟨rfl, trivial⟩

/-- The instruction at the position of the top frame. -/
theorem decode_of_next {m : StackMachine} {f : Frame} {rest : List Frame} {i : Instruction}
    (hframes : m.frames = f :: rest) (hnext : m.next? = some (.ok i)) :
    Instruction.decode f.code f.position = .ok i := by
  rw [next?, hframes] at hnext
  exact Option.some.inj hnext

section Completed

variable {overrides : Overrides} {m m' : StackMachine} {i : Instruction} {events : List Event}
  {f : Frame} {rest : List Frame} (h : m.Completes overrides i events m')
  (hframes : m.frames = f :: rest)
include h hframes

/-- The branch that is remembered of an instruction gets its line if the instruction completes as a
branch with its target in the script, and none if it does not. -/
theorem line?_of_completed :
    (i.branchTarget.map fun target ↦
      (⟨f.scriptHash, f.position, target, m.frames.length⟩ : PendingBranch)).bind
        (PendingBranch.line? · m'.view) = (⟨m, m'⟩ : Stride).branch? := by
  have hdecode := decode_of_next hframes h.next
  have hgas : m'.gas = m.gas + 1 := h.effect.sameSession.gas_eq
  by_cases hbranch : f.AtBranch
  · obtain ⟨-, hrunning, stack, hframes'⟩ := h.jumped hframes hbranch
    obtain ⟨-, -, htarget⟩ := Frame.eq_of_decode_branch hbranch hdecode
    have hjumped : (⟨m, m'⟩ : Stride).jumped? = some f := by
      simp [Stride.jumped?, hframes, hgas, hrunning, hbranch]
    have hview : m'.view.depth = m.frames.length ∧ m'.view.currentHash = some f.scriptHash ∧
        m'.view.currentPointer = some f.outcome := by
      simp [view, hframes, hframes']
    rw [Stride.branch?, hjumped, Option.bind_some, Frame.branch?, htarget]
    split
    · rw [Option.map_some, Option.bind_some, PendingBranch.line?, if_pos ⟨hview.1, hview.2.1⟩,
        hview.2.2, Option.map_some]
    · rfl
  · have hjumped : (⟨m, m'⟩ : Stride).jumped? = none := by
      simp [Stride.jumped?, hframes, hbranch]
    rw [Stride.branch?, hjumped, Frame.branchTarget_eq_none hbranch hdecode]
    rfl

/-- A stride does not both take a branch and change the call stack. -/
theorem branch?_eq_none_or :
    (⟨m, m'⟩ : Stride).branch? = none ∨ (⟨m, m'⟩ : Stride).change? = none := by
  by_cases hbranch : f.AtBranch
  · obtain ⟨-, -, stack, hframes'⟩ := h.jumped hframes hbranch
    have hhashes : m'.hashes = m.hashes := by
      rw [hashes, hashes, hframes', hframes]
      rfl
    exact .inr (Stride.change?_eq_none hhashes)
  · refine .inl ?_
    simp [Stride.branch?, Stride.jumped?, hframes, hbranch]

/-- What is told of a completed instruction. -/
theorem snd_recount_completed (q : CoverageRecorder × List CoverageLine) :
    (recount tell q (Turn.notices m ⟨some (.preExecute i), m', events ++ [.postExecute i]⟩)).2 =
      q.2 ++ (⟨m, m'⟩ : Stride).lines := by
  obtain ⟨hpending, hfirst⟩ := recount_before hframes q i
  obtain ⟨c, htakes, hkept, hlines⟩ :=
    recount_effect h.effect (recount tell q [(m.view, .preExecute i)])
  rw [hashes, hashes_charge] at htakes
  rw [hfirst] at hlines
  rw [hpending] at hkept
  have hlast (q : CoverageRecorder × List CoverageLine) :
      (recount tell q [(m'.view, .postExecute i)]).2 =
        q.2 ++ (q.1.pending.bind (PendingBranch.line? · m'.view)).toList := rfl
  have htold : Turn.notices m ⟨some (.preExecute i), m', events ++ [.postExecute i]⟩ =
      [(m.view, .preExecute i)] ++ events.map (Prod.mk m'.view) ++ [(m'.view, .postExecute i)] := by
    rw [Turn.notices, List.map_append, List.append_assoc]
    rfl
  have hchange : (⟨m, m'⟩ : Stride).change? = c := Stride.change?_eq htakes
  have hstride := Stride.lines_of_charged (s := ⟨m, m'⟩) hframes h.effect.sameSession.gas_eq
  rw [htold, recount_append, recount_append, hlast, hkept, hlines, line?_of_completed h hframes,
    ← hchange, hstride]
  -- The recorder writes the hash line first; there is no stride with both lines.
  rcases branch?_eq_none_or h hframes with hnone | hnone <;> simp [hnone]

end Completed

/-- What a recorder writes of a turn does not depend on what it remembers. -/
theorem snd_recount_turn {overrides : Overrides} {m : StackMachine} {t : Turn StackMachine}
    (hturn : turn overrides m = some t) (q : CoverageRecorder × List CoverageLine) :
    (recount tell q (t.notices m)).2 = q.2 ++ (Stride.turn m t).lines := by
  cases outcome_of_turn hturn with
  | empty hrunning hframes =>
    rw [Stride.lines_of_not_charged rfl, Stride.change?_eq_none rfl]
    exact (List.append_nil q.2).symm
  | @undecodable fault hundecodable =>
    rw [Stride.lines_of_not_charged rfl, Stride.change?_eq_none rfl]
    rfl
  | completed hcompletes =>
    obtain ⟨f, rest, hframes⟩ := exists_frames_of_next hcompletes.next
    exact snd_recount_completed hcompletes hframes q
  | @faulted i fault m' hfaults =>
    obtain ⟨f, rest, hframes⟩ := exists_frames_of_next hfaults.next
    have hscripts := sameScripts_of_operate hfaults.operate
    let s : Stride := ⟨m, (m'.raise fault).1⟩
    have hchange : s.change? = none :=
      Stride.change?_eq_none (hscripts.hashes_eq.trans (hashes_charge i m))
    have hbranch : s.branch? = none := by
      simp [s, Stride.branch?, Stride.jumped?, raise]
    have hlines : s.lines = [.address f.position] := by
      rw [Stride.lines_of_charged hframes hscripts.sameSession.gas_eq, hbranch, hchange]
      rfl
    have htold : Turn.notices m ⟨some (.preExecute i), (m'.raise fault).1, [.fault fault.message]⟩ =
        [(m.view, .preExecute i)] ++ [((m'.raise fault).1.view, .fault fault.message)] := rfl
    change _ = q.2 ++ s.lines
    rw [htold, recount_append, hlines, ← (recount_before hframes q i).2]
    exact List.append_nil _

/-- What a recorder writes of a load. -/
theorem snd_recount_load (m : StackMachine) (code : Bytes)
    (q : CoverageRecorder × List CoverageLine) :
    (recount tell q ((m.load code).notices m)).2 = q.2 ++ (Stride.load m code).lines := by
  have htakes : Change.Takes m.reset.hashes (some (.pushed (Hash.ofScript code)))
      (m.load code).next.hashes := .pushed _ _
  rw [Stride.lines_of_not_charged rfl, Stride.change?_eq (s := .load m code) htakes]
  rfl

/-- What a recorder writes are the lines of the strides that it is told of. -/
theorem snd_recount_narrated {overrides : Overrides} {ss : List Stride} {told : List Notice}
    (h : Narrated overrides ss told) (q : CoverageRecorder × List CoverageLine) :
    (recount tell q told).2 = q.2 ++ ss.flatMap Stride.lines := by
  induction h generalizing q with
  | nil => exact (List.append_nil q.2).symm
  | turn hturn _ ih =>
    rw [recount_append, ih, snd_recount_turn hturn, List.flatMap_cons, List.append_assoc]
  | load m code _ ih =>
    rw [recount_append, ih, snd_recount_load, List.flatMap_cons, List.append_assoc]

/-! ### Sessions -/

/-- Assumes: a storage that does not fail, and an engine that was built over a session without
observers and without frames. However the engine is driven, no call fails, and the bytes of the log
are those of the lines of the strides, one after the other. -/
theorem drive_course {τ : Type} {fs : Storage τ} {sound : τ → Prop}
    {content : τ → Handle → Option Bytes} (hfs : fs.Reliable sound content)
    {config : CoverageConfig} {sessionName : String} {checker : Option WitnessChecker}
    {session : Session StackMachine τ} (hobservers : session.observers = [])
    (hframes : session.machine.frames = []) {t₀ t₁ : τ} (hsound : sound t₀)
    {engine : CoverageEngine StackMachine τ}
    (hstart : CoverageEngine.start fs config sessionName checker session t₀ = .ok engine t₁)
    (calls : List Call) :
    ∃ ended engine' t₂ log ss,
      Engine.drive calls (engine, t₁) = .ok ended (engine', t₂) ∧
      engine'.recorder.writer.log = some log ∧
      content t₂ log = some (text (ss.flatMap Stride.lines)) ∧
      Course (Engine.witnessed checker session.overrides) calls ended session.machine ss
        engine'.session.machine := by
  have hempty := hashesOf_reset_of_frames_eq_nil hframes
  obtain ⟨w, ended, ⟨engine', t₂⟩, hrun, -, told, hroute, -, htold⟩ :=
    drive_start hfs hobservers hempty hsound hstart calls
  obtain ⟨ss, hcourse, hnarrated⟩ := exists_course_of_route hroute
  have hlines := snd_recount_narrated hnarrated (.ofWriter w, [])
  obtain ⟨log, hlog, hcontent⟩ := htold.holds.content_eq
  rw [hlines, List.nil_append] at hcontent
  exact ⟨ended, engine', t₂, log, ss, hrun, hlog, hcontent, hcourse⟩

/-- The last hash line of a log names the script that is current, and the zero hash stands there
once the call stack was emptied by a return. -/
theorem lastScript?_of_path {overrides : Overrides} {m m' : StackMachine} {ss : List Stride}
    (hpath : StackMachine.Path overrides m ss m') (hframes : m.frames = [])
    (hbegun : m'.frames ≠ [] ∨ ∃ s ∈ ss, s.Returns) :
    lastScript? (ss.flatMap Stride.lines) = some m'.currentHash := by
  have hcurrent := hpath.head?_hashes
  rw [hashes, hashes, hframes, List.map_nil, List.head?_nil, List.head?_map] at hcurrent
  rw [lastScript?, filterMap_script?_flatMap_lines, List.getLast?_map, currentHash, hcurrent,
    Change.currentAfter]
  cases hlast : (ss.filterMap Stride.change?).getLast? with
  | some c => rfl
  | none =>
    have hnone := List.getLast?_eq_none_iff.mp hlast
    rcases hbegun with hsome | ⟨s, hs, hreturns⟩
    · rw [hnone] at hcurrent
      exact absurd (List.head?_eq_none_iff.mp (Option.map_eq_none_iff.mp hcurrent)) hsome
    · have hchange := (hpath.taken hs).change?_eq_iff.mpr hreturns
      rw [List.filterMap_eq_nil_iff.mp hnone s hs] at hchange
      cases hchange

/-- The hash lines of a log follow the call stack through strides. -/
structure NamesScripts (ss : List Stride) (lines : List CoverageLine) : Prop where
  /-- A stride pushes one frame, pops one, or leaves the frames where they are. -/
  takes : ∀ s ∈ ss, Change.Takes s.before.hashes s.change? s.after.hashes
  /-- There is one hash line for each frame that is pushed or popped, in order. -/
  scripts_eq : lines.filterMap script? = (ss.filterMap Stride.change?).map Change.hash
  /-- After each stride the last hash line names the script that is current, or none after a return
  from the outermost frame. -/
  current : ∀ front s back, ss = front ++ s :: back →
    s.after.frames ≠ [] ∨ (∃ r ∈ front ++ [s], r.Returns) →
    lastScript? ((front ++ [s]).flatMap Stride.lines) = some s.after.currentHash
  /-- An invocation has one line for a call stack that was emptied if it ends with the return of its
  outermost frame, and none if it does not. -/
  invocation : ∀ invocation ∈ invocations ss,
    sentinels invocation = if endsByReturn invocation then 1 else 0
  sentinels_eq : sentinels ss = (invocations ss).countP endsByReturn

/-- The branch lines of a log are those of strides, each right after the address of its branch. -/
structure ShowsBranches (ss : List Stride) (lines : List CoverageLine) : Prop where
  branches_eq : lines.filter isBranch = ss.filterMap Stride.branch?
  placed : ∀ front s back l, ss = front ++ s :: back → s.branch? = some l →
    ∃ f ∈ s.jumped?, f.JumpsWithin ∧ l = .branch f.position f.jump.toNat f.outcome ∧
      ∃ rest, lines = front.flatMap Stride.lines ++ .address f.position :: l :: rest

section Sessions

variable {τ : Type} {fs : Storage τ} {sound : τ → Prop} {content : τ → Handle → Option Bytes}
  (hfs : fs.Reliable sound content) (config : CoverageConfig) (sessionName : String)
  (checker : Option WitnessChecker) {session : Session StackMachine τ}
  (hobservers : session.observers = []) (hframes : session.machine.frames = []) {t₀ t₁ : τ}
  (hsound : sound t₀) {engine : CoverageEngine StackMachine τ}
  (hstart : CoverageEngine.start fs config sessionName checker session t₀ = .ok engine t₁)
  (calls : List Call)
include hfs hobservers hframes hsound hstart

/-- Assumes: a storage that does not fail, and an engine that was built over a session without
observers and without frames. However the engine is driven, no call fails, and the log names the
scripts that the machine pushed and popped. An execution may be given any number of moves, so the
last hash line names the current script between any two of them. -/
theorem drive_namesScripts :
    ∃ ended engine' t₂ log lines ss,
      Engine.drive calls (engine, t₁) = .ok ended (engine', t₂) ∧
      engine'.recorder.writer.log = some log ∧ content t₂ log = some (text lines) ∧
      (∀ others, text others = text lines → others = lines) ∧
      Course (Engine.witnessed checker session.overrides) calls ended session.machine ss
        engine'.session.machine ∧
      lines = ss.flatMap Stride.lines ∧ NamesScripts ss lines ∧
      (engine'.session.machine.frames ≠ [] ∨ (∃ s ∈ ss, s.Returns) →
        lastScript? lines = some engine'.session.machine.currentHash) := by
  obtain ⟨ended, engine', t₂, log, ss, hrun, hlog, hcontent, hcourse⟩ :=
    drive_course hfs hobservers hframes hsound hstart calls
  have hpath := hcourse.path
  have htaken : ∀ s ∈ ss, s.Taken (Engine.witnessed checker session.overrides) :=
    fun s hs ↦ hpath.taken hs
  refine ⟨ended, engine', t₂, log, _, ss, hrun, hlog, hcontent, fun _ ↦ text_injective, hcourse,
    rfl, ?_, lastScript?_of_path hpath hframes⟩
  exact {
    takes := fun s hs ↦ (htaken s hs).takes
    scripts_eq := filterMap_script?_flatMap_lines ss
    current := fun front s back hss ↦ lastScript?_of_path (hss ▸ hpath).upTo hframes
    invocation := fun invocation hmem ↦ sentinels_invocation htaken hmem
    sentinels_eq := sentinels_eq htaken }

omit hfs hobservers hframes hsound hstart in
/-- A script halts and another one aborts, over files in memory. -/
theorem namesScripts_of_memory :
    let session : Session StackMachine MemoryStore :=
      .ofMachine (.create ⟨1⟩ .empty .default [])
    let store : MemoryStore := .ofFiles [] []
    let calls := [Call.load [Opcode.pushTrue], .execute 9, .load [Opcode.abort], .execute 9]
    MemoryStore.storage.Reliable MemoryStore.Sound MemoryStore.content ∧ store.Sound ∧
      session.observers = [] ∧ session.machine.frames = [] ∧
      ∃ engine store₁,
        CoverageEngine.start MemoryStore.storage .default "run" none session store =
          .ok engine store₁ ∧
        ∃ ended engine' store₂ log lines ss,
          Engine.drive calls (engine, store₁) = .ok ended (engine', store₂) ∧
          engine'.recorder.writer.log = some log ∧ store₂.content log = some (text lines) ∧
          (∀ others, text others = text lines → others = lines) ∧
          Course (Engine.witnessed none session.overrides) calls ended session.machine ss
            engine'.session.machine ∧
          lines = ss.flatMap Stride.lines ∧ NamesScripts ss lines ∧
          (engine'.session.machine.frames ≠ [] ∨ (∃ s ∈ ss, s.Returns) →
            lastScript? lines = some engine'.session.machine.currentHash) := by
  intro session store calls
  have hsound : store.Sound := MemoryStore.sound_ofFiles []
  obtain ⟨engine, store₁, hstart⟩ : ∃ engine store₁,
      CoverageEngine.start MemoryStore.storage .default "run" none session store =
        .ok engine store₁ := ⟨_, _, rfl⟩
  exact ⟨MemoryStore.reliable, hsound, rfl, rfl, engine, store₁, hstart,
    drive_namesScripts MemoryStore.reliable .default "run" none rfl rfl hsound hstart calls⟩

/-- Assumes: a storage that does not fail, and an engine that was built over a session without
observers and without frames. However the engine is driven, no call fails, and the branch lines of
the log are one for each conditional branch that completed and has its target in the script. -/
theorem drive_showsBranches :
    ∃ ended engine' t₂ log lines ss,
      Engine.drive calls (engine, t₁) = .ok ended (engine', t₂) ∧
      engine'.recorder.writer.log = some log ∧ content t₂ log = some (text lines) ∧
      (∀ others, text others = text lines → others = lines) ∧
      Course (Engine.witnessed checker session.overrides) calls ended session.machine ss
        engine'.session.machine ∧
      lines = ss.flatMap Stride.lines ∧ ShowsBranches ss lines := by
  obtain ⟨ended, engine', t₂, log, ss, hrun, hlog, hcontent, hcourse⟩ :=
    drive_course hfs hobservers hframes hsound hstart calls
  refine ⟨ended, engine', t₂, log, _, ss, hrun, hlog, hcontent, fun _ ↦ text_injective, hcourse,
    rfl, filter_isBranch_flatMap_lines ss, fun front s back l hss hline ↦ ?_⟩
  obtain ⟨f, hf, hwithin, hl, rest, hlines⟩ := Stride.lines_of_branch? hline
  refine ⟨f, hf, hwithin, hl, rest ++ back.flatMap Stride.lines, ?_⟩
  rw [hss, List.flatMap_append, List.flatMap_cons, hlines]
  rfl

omit hfs hobservers hframes hsound hstart in
/-- A script that branches to its end, over files in memory. -/
theorem showsBranches_of_memory :
    let session : Session StackMachine MemoryStore :=
      .ofMachine (.create ⟨1⟩ .empty .default [])
    let store : MemoryStore := .ofFiles [] []
    let calls := [Call.load [Opcode.pushTrue, Opcode.jumpIf, 2], .execute 9]
    MemoryStore.storage.Reliable MemoryStore.Sound MemoryStore.content ∧ store.Sound ∧
      session.observers = [] ∧ session.machine.frames = [] ∧
      ∃ engine store₁,
        CoverageEngine.start MemoryStore.storage .default "run" none session store =
          .ok engine store₁ ∧
        ∃ ended engine' store₂ log lines ss,
          Engine.drive calls (engine, store₁) = .ok ended (engine', store₂) ∧
          engine'.recorder.writer.log = some log ∧ store₂.content log = some (text lines) ∧
          (∀ others, text others = text lines → others = lines) ∧
          Course (Engine.witnessed none session.overrides) calls ended session.machine ss
            engine'.session.machine ∧
          lines = ss.flatMap Stride.lines ∧ ShowsBranches ss lines := by
  intro session store calls
  have hsound : store.Sound := MemoryStore.sound_ofFiles []
  obtain ⟨engine, store₁, hstart⟩ : ∃ engine store₁,
      CoverageEngine.start MemoryStore.storage .default "run" none session store =
        .ok engine store₁ := ⟨_, _, rfl⟩
  exact ⟨MemoryStore.reliable, hsound, rfl, rfl, engine, store₁, hstart,
    drive_showsBranches MemoryStore.reliable .default "run" none rfl rfl hsound hstart calls⟩

end Sessions

end CoverageRecorder

end ScriptTrace
