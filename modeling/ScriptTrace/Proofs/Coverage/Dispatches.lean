import ScriptTrace.Proofs.Coverage.Counts
import ScriptTrace.Proofs.Coverage.Telling

/-!
Where the instructions of a coverage log were dispatched. `Shifts` says how an event changes the
scripts on the call stack and what its view shows of them, and every turn of a machine and every
load are such shifts (`shifting_turn`, `shifting_load`). A recorder whose log agrees with the
scripts on the call stack is allowed a shift, and its log agrees with them afterwards; the address
lines are the dispatches that it was told of (`Reports.recount`). So it is wherever the story of a
route is cut (`Reports.throughout_of_route`).
-/

set_option autoImplicit false
set_option relaxedAutoImplicit false

namespace ScriptTrace

namespace CoverageRecorder

open CoverageLine StackMachine

/-! ### Shifts -/

/-- How an event changes the scripts on the call stack, that of the top frame first, and what its
view shows of them. -/
inductive Shifts : List Hash → Notice → List Hash → Prop
  | pushed (hashes : List Hash) (view : View) (context : Context) :
    Shifts hashes (view, .contextLoaded context) (context.scriptHash :: hashes)
  | popped {hash : Hash} {hashes : List Hash} {view : View}
    (hview : view.currentHash = hashes.head?) (context : Context) :
    Shifts (hash :: hashes) (view, .contextUnloaded context) hashes
  | before {hash : Hash} {hashes : List Hash} {position : Nat} {view : View}
    (hhash : view.currentHash = some hash) (hposition : view.currentPointer = some position)
    (i : Instruction) : Shifts (hash :: hashes) (view, .preExecute i) (hash :: hashes)
  | after {hashes : List Hash} {view : View}
    (hview : view.currentHash.isSome → view.currentPointer.isSome) (i : Instruction) :
    Shifts hashes (view, .postExecute i) hashes
  | fault (hashes : List Hash) (view : View) (exception : String) :
    Shifts hashes (view, .fault exception) hashes
  | log (hashes : List Hash) (view : View) (event : LogEvent) :
    Shifts hashes (view, .log event) hashes
  | notify (hashes : List Hash) (view : View) (event : NotifyEvent) :
    Shifts hashes (view, .notify event) hashes

/-- How events change the scripts on the call stack, one after the other. -/
inductive Shifting : List Hash → List Notice → List Hash → Prop
  | nil (hashes : List Hash) : Shifting hashes [] hashes
  | cons {hashes hashes₁ hashes' : List Hash} {n : Notice} {told : List Notice}
    (hshifts : Shifts hashes n hashes₁) (hrest : Shifting hashes₁ told hashes') :
    Shifting hashes (n :: told) hashes'

/-- What is dispatched is on top of the call stack. -/
theorem Shifts.mem_of_dispatch? {hashes hashes' : List Hash} {n : Notice}
    (h : Shifts hashes n hashes') {d : Hash × Nat} (hn : dispatch? n = some d) : d.1 ∈ hashes := by
  cases h with
  | before hhash hposition i =>
    simp only [dispatch?, hhash, hposition] at hn
    obtain rfl := Option.some.inj hn
    exact List.mem_cons_self
  | _ => cases hn

theorem Shifts.single {hashes hashes' : List Hash} {n : Notice} (h : Shifts hashes n hashes') :
    Shifting hashes [n] hashes' := .cons h (.nil hashes')

/-- The events up to one of them, and that one. -/
theorem Shifting.split {hashes hashes' : List Hash} {front : List Notice} {n : Notice}
    {back : List Notice} (h : Shifting hashes (front ++ n :: back) hashes') :
    ∃ hashes₁ hashes₂, Shifting hashes front hashes₁ ∧ Shifts hashes₁ n hashes₂ := by
  induction front generalizing hashes with
  | nil =>
    cases h with
    | cons hshifts _ => exact ⟨_, _, .nil hashes, hshifts⟩
  | cons _ _ ih =>
    cases h with
    | cons hshifts hrest =>
      obtain ⟨hashes₁, hashes₂, hfront, hn⟩ := ih hrest
      exact ⟨hashes₁, hashes₂, .cons hshifts hfront, hn⟩

theorem Shifting.append {hashes hashes₁ hashes' : List Hash} {told others : List Notice}
    (hfirst : Shifting hashes told hashes₁) (hsecond : Shifting hashes₁ others hashes') :
    Shifting hashes (told ++ others) hashes' := by
  induction hfirst with
  | nil => exact hsecond
  | cons hshifts _ ih => exact .cons hshifts (ih hsecond)

/-! ### Moves -/

/-- The frames that a machine is left with. -/
theorem shifts_popped (hash : Hash) (m : StackMachine) (context : Context) :
    Shifts (hash :: hashesOf m) (m.view, .contextUnloaded context) (hashesOf m) :=
  .popped (currentHash_view m) context

/-- What a completed operation reports. -/
theorem shifting_effect {m m' : StackMachine} {events : List Event} (heffect : Effect m events m') :
    Shifting (hashesOf m) (events.map (Prod.mk m'.view)) (hashesOf m') := by
  cases heffect with
  | silent h =>
    rw [hashesOf_eq h]
    exact .nil _
  | logged h message =>
    rw [hashesOf_eq h]
    exact (Shifts.log _ _ _).single
  | notified h eventName state =>
    rw [hashesOf_eq h]
    exact (Shifts.notify _ _ _).single
  | called h hdeployed arguments =>
    rw [← hashesOf_eq h]
    exact (Shifts.pushed _ _ _).single
  | @returned m₁ h f caller rest hframes =>
    rw [← hashesOf_eq h, hashesOf, hframes]
    exact (shifts_popped f.scriptHash { m₁ with
      frames := { caller with stack := f.stack ++ caller.stack } :: rest } f.context).single
  | @finished m₁ h f hframes =>
    rw [← hashesOf_eq h, hashesOf, hframes]
    exact (shifts_popped f.scriptHash { m₁ with
      frames := [], results := f.stack.reverse, state := .halt } f.context).single

/-- An instruction is dispatched in the top frame. -/
theorem shifts_before {m : StackMachine} {i : Instruction} (hnext : m.next? = some (.ok i)) :
    Shifts (hashesOf m) (m.view, .preExecute i) (hashesOf m) := by
  cases hframes : m.frames with
  | nil => simp [next?, hframes] at hnext
  | cons f rest =>
    have hhash : m.view.currentHash = some f.scriptHash := by
      rw [view, hframes]
      rfl
    have hposition : m.view.currentPointer = some f.position := by
      rw [view, hframes]
      rfl
    rw [hashesOf, hframes]
    exact .before hhash hposition i

/-- A turn and a load begin with the frames that the machine does not give up. -/
theorem shifting_turn {overrides : Overrides} {m : StackMachine} {t : Turn StackMachine}
    (hturn : turn overrides m = some t) :
    Shifting (hashesOf m.reset) (t.notices m) (hashesOf t.next) := by
  rw [reset_of_running (running_of_turn hturn)]
  cases outcome_of_turn hturn with
  | empty => exact .nil _
  | undecodable => exact (Shifts.fault _ _ _).single
  | @completed i events m' hcompletes =>
    have heffect := shifting_effect hcompletes.effect
    rw [hashesOf_charge] at heffect
    have hview : m'.view.currentHash.isSome → m'.view.currentPointer.isSome := by
      simp [view]
    have hlast := heffect.append (Shifts.after hview i).single
    rw [← List.map_singleton, ← List.map_append] at hlast
    exact (shifts_before hcompletes.next).single.append hlast
  | @faulted i fault m' hfaults =>
    have hsame : hashesOf (m'.raise fault).1 = hashesOf m := by
      change hashesOf m' = hashesOf m
      rw [hashesOf_eq (sameScripts_of_operate hfaults.operate), hashesOf_charge]
    rw [hsame]
    exact (shifts_before hfaults.next).single.append (Shifts.fault _ _ _).single

theorem shifting_load (m : StackMachine) (code : Bytes) :
    Shifting (hashesOf m.reset) ((m.load code).notices m) (hashesOf (m.load code).next) :=
  (Shifts.pushed _ _ _).single

/-! ### Reports -/

/-- A recorder and the lines of its log agree with what they were told and with the scripts on the
call stack: the address lines are the dispatches. -/
structure Reports (q : CoverageRecorder × List CoverageLine) (told : List Notice)
    (hashes : List Hash) : Prop where
  tracks : Tracks q.1 q.2 (dispatches told).length hashes
  addresses_eq : addresses q.2 = (dispatches told).map fun d ↦ (some d.1, d.2)

namespace Reports

variable {q : CoverageRecorder × List CoverageLine} {told others : List Notice}
  {hashes hashes' : List Hash} {n : Notice}

theorem allows (h : Reports q told hashes) (hshifts : Shifts hashes n hashes') :
    q.1.Allows n := by
  cases hshifts with
  | pushed _ view context => exact hash_learned h.tracks.hash_eq view context
  | popped hview context =>
    intro hash hmem
    rw [hview] at hmem
    have hknown := h.tracks.executed hash (.tail _ (List.mem_of_mem_head? hmem))
    obtain ⟨script, hscript⟩ := Option.isSome_iff_exists.mp hknown
    exact ⟨script, hscript, h.tracks.hash_eq hash script hscript⟩
  | before hhash hposition i =>
    exact ⟨by rw [hhash]; rfl, by rw [hposition]; rfl⟩
  | after hview i => exact hview
  | fault => trivial
  | log => trivial
  | notify => trivial

/-- Lines other than address lines are written, and no dispatch is told. -/
theorem aside (h : Reports q told hashes) {r : CoverageRecorder} (line : Option CoverageLine)
    (htracks : Tracks r (q.2 ++ line.toList) (dispatches told).length hashes')
    (hline : line.bind position? = none) (hn : dispatch? n = none) :
    Reports (r, q.2 ++ line.toList) (told ++ [n]) hashes' := by
  have hsame : dispatches (told ++ [n]) = dispatches told := by
    rw [dispatches_append, dispatches, dispatches, List.filterMap_cons_none hn, List.filterMap_nil,
      List.append_nil]
  have haddresses : addresses (q.2 ++ line.toList) = addresses q.2 := by
    cases line with
    | none => rw [Option.toList_none, List.append_nil]
    | some l =>
      rw [Option.toList_some, addresses_append, show l.position? = none from hline, Option.map_none,
        Option.toList_none, List.append_nil]
  exact ⟨hsame ▸ htracks, by rw [hsame, haddresses, h.addresses_eq]⟩

/-- A frame is pushed: its script is learned, and becomes current. -/
theorem pushed (h : Reports q told hashes) (view : View) (context : Context) :
    Reports (recount tell q [(view, .contextLoaded context)])
      (told ++ [(view, .contextLoaded context)]) (context.scriptHash :: hashes) := by
  have hhash := hash_learned h.tracks.hash_eq view context
  have hlearned := h.tracks.learn (q.1.learned view context)
  have hknown : ∀ hash ∈ context.scriptHash :: hashes, ((q.1.executed.set
      (q.1.learned view context).hash (q.1.learned view context)).get? hash).isSome := by
    intro hash hmem
    rcases List.mem_cons.mp hmem with rfl | hold
    · rw [Table.get?_set, if_pos hhash]
      rfl
    · exact hlearned.executed hash hold
  have htop : ∀ top ∈ (context.scriptHash :: hashes).head?, top = context.scriptHash :=
    fun top hmem ↦ (Option.mem_some_iff.mp hmem).symm
  have hcurrent := hlearned.current htop hknown
  rw [hhash] at hcurrent
  exact h.aside (some (.current context.scriptHash)) hcurrent rfl rfl

/-- An instruction is about to run: its address is written after the hash of its script. -/
theorem dispatched {hash : Hash} {position : Nat} (h : Reports q told (hash :: hashes))
    {view : View} (hhash : view.currentHash = some hash)
    (hposition : view.currentPointer = some position) (i : Instruction) :
    Reports (recount tell q [(view, .preExecute i)]) (told ++ [(view, .preExecute i)])
      (hash :: hashes) := by
  have hdispatch : dispatch? (view, .preExecute i) = some (hash, position) := by
    simp [dispatch?, hhash, hposition]
  have htold : dispatches (told ++ [(view, .preExecute i)]) =
      dispatches told ++ [(hash, position)] := by
    rw [dispatches_append, dispatches, dispatches, List.filterMap_cons_some hdispatch,
      List.filterMap_nil]
  have hlast : lastScript? q.2 = some hash := h.tracks.lastScript_eq hash rfl
  have hrecount : recount tell q [(view, .preExecute i)] =
      ({ q.1 with
        hits := q.1.hits.set (hash, position) (q.1.hitCount hash position + 1)
        pending := i.branchTarget.map fun target ↦ ⟨hash, position, target, view.depth⟩ },
        q.2 ++ [.address position]) := by
    simp only [recount, tell, hhash, hposition, List.foldl_cons, List.foldl_nil]
  rw [hrecount]
  constructor
  · rw [htold, List.length_append, List.length_singleton]
    exact (h.tracks.address position).congr rfl rfl
  · rw [htold, addresses_append, h.addresses_eq, hlast, List.map_append]
    rfl

/-- At most the line of a branch is written. -/
theorem quiet (h : Reports q told hashes) {r : CoverageRecorder}
    (htracks : Tracks r q.2 (dispatches told).length hashes) (line : Option CoverageLine)
    (hline : ∀ l ∈ line, ∃ position target outcome, l = .branch position target outcome)
    (hn : dispatch? n = none) : Reports (r, q.2 ++ line.toList) (told ++ [n]) hashes := by
  cases line with
  | none =>
    rw [← List.append_nil q.2] at htracks
    exact h.aside none htracks rfl hn
  | some l =>
    obtain ⟨position, target, outcome, rfl⟩ := hline l rfl
    exact h.aside (some (.branch position target outcome)) (htracks.branch _ _ _) rfl hn

theorem tell (h : Reports q told hashes) (hshifts : Shifts hashes n hashes') :
    Reports (recount CoverageRecorder.tell q [n]) (told ++ [n]) hashes' := by
  have htracks := h.tracks
  have hcleared : Tracks { q.1 with pending := none } q.2 (dispatches told).length hashes :=
    htracks.congr rfl rfl
  have hnone : ∀ l ∈ (none : Option CoverageLine),
      ∃ position target outcome, l = .branch position target outcome := by
    intro l hmem
    cases hmem
  cases hshifts with
  | pushed _ view context => exact h.pushed view context
  | @popped hash _ view hview context =>
    refine h.aside (some (.current (view.currentHash.getD Hash.zero)))
      (htracks.current ?_ fun other hmem ↦ htracks.executed other (.tail _ hmem)) rfl rfl
    intro top hmem
    rw [hview, Option.mem_def.mp hmem, Option.getD_some]
  | before hhash hposition i => exact h.dispatched hhash hposition i
  | @after _ view hview i =>
    refine h.quiet hcleared (q.1.pending.bind (PendingBranch.line? · view)) ?_ rfl
    intro line hmem
    obtain ⟨branch, -, hbranch⟩ := Option.bind_eq_some_iff.mp hmem
    obtain ⟨outcome, hline⟩ := PendingBranch.eq_branch_of_line? hbranch
    exact ⟨_, _, outcome, hline⟩
  | fault => exact h.quiet hcleared none hnone rfl
  | log => exact h.quiet htracks none hnone rfl
  | notify => exact h.quiet htracks none hnone rfl

/-- The address lines of a log are the dispatches that were told. -/
theorem recount (h : Reports q told hashes) (hshifting : Shifting hashes others hashes') :
    Allowed CoverageRecorder.tell Allows q.1 others ∧
      Reports (ScriptTrace.recount CoverageRecorder.tell q others) (told ++ others) hashes' := by
  induction hshifting generalizing q told with
  | nil hashes => exact ⟨trivial, by rwa [List.append_nil]⟩
  | @cons _ _ _ n others hshifts _ ih =>
    obtain ⟨hallowed, hreports⟩ := ih (h.tell hshifts)
    rw [List.append_assoc] at hreports
    exact ⟨⟨h.allows hshifts, hallowed⟩, hreports⟩

/-- The call stack is given up. -/
theorem reset {m : StackMachine} (h : Reports q told (hashesOf m)) :
    Reports q told (hashesOf m.reset) := by
  unfold StackMachine.reset
  split
  · exact ⟨h.tracks.empty, h.addresses_eq⟩
  · exact h

/-- What is told next leaves the log in agreement, also if the machine stops with it. -/
theorem advance {before : List Notice} {m : StackMachine}
    (h : Reports (ScriptTrace.recount CoverageRecorder.tell q told) (before ++ told) hashes)
    (hshifting : Shifting hashes others (hashesOf m)) :
    Allowed CoverageRecorder.tell Allows (ScriptTrace.recount CoverageRecorder.tell q told).1
        others ∧
      Reports (ScriptTrace.recount CoverageRecorder.tell q (told ++ others))
        (before ++ (told ++ others)) (hashesOf m.reset) := by
  obtain ⟨hallowed, hreports⟩ := h.recount hshifting
  rw [← recount_append, List.append_assoc] at hreports
  exact ⟨hallowed, hreports.reset⟩

/-- A recorder that has seen nothing. -/
theorem begin (w : CoverageWriter) : Reports (.ofWriter w, []) [] [] where
  tracks := .ofWriter w
  addresses_eq := rfl

end Reports

/-- Wherever a story is cut, the recorder was told what agrees with its log, and the next event
shifts the scripts on the call stack. -/
def Reports.Throughout (q : CoverageRecorder × List CoverageLine) (told : List Notice) : Prop :=
  ∀ front n back, told = front ++ n :: back → ∃ hashes hashes',
    Reports (ScriptTrace.recount CoverageRecorder.tell q front) front hashes ∧
      Shifts hashes n hashes'

theorem Reports.Throughout.front {q : CoverageRecorder × List CoverageLine}
    {told others : List Notice} (h : Reports.Throughout q (told ++ others)) :
    Reports.Throughout q told := by
  rintro front n back rfl
  exact h front n (back ++ others) (by rw [List.append_assoc, List.cons_append])

theorem Reports.throughout_append {q : CoverageRecorder × List CoverageLine}
    {told others : List Notice} {hashes hashes' : List Hash}
    (hreports : Reports (ScriptTrace.recount CoverageRecorder.tell q told) told hashes)
    (hshifting : Shifting hashes others hashes') (hthroughout : Reports.Throughout q told) :
    Reports.Throughout q (told ++ others) := by
  intro front n back hcut
  rcases List.append_eq_append_iff.mp hcut with ⟨more, rfl, hothers⟩ | ⟨more, htold, hmore⟩
  · subst hothers
    obtain ⟨hashes₁, hashes₂, hfront, hn⟩ := hshifting.split
    rw [recount_append]
    exact ⟨hashes₁, hashes₂, (hreports.recount hfront).2, hn⟩
  · cases more with
    | nil =>
      rw [List.append_nil] at htold
      rw [List.nil_append] at hmore
      subst htold hmore
      cases hshifting with
      | cons hn _ => exact ⟨_, _, hreports, hn⟩
    | cons first more =>
      obtain ⟨rfl, -⟩ := List.cons_eq_cons.mp hmore
      exact hthroughout front n more htold

/-- What a recorder is told on a way from a call stack that its log agrees with. -/
theorem Reports.throughout_of_route {overrides : Overrides} {calls : List Call} {ended : Bool}
    {m m' : StackMachine} {told : List Notice} (hroute : Route overrides calls ended m told m')
    {q : CoverageRecorder × List CoverageLine} (hreports : Reports q [] (hashesOf m.reset)) :
    Reports.Throughout q told := by
  let inv (told : List Notice) (m : StackMachine) : Prop :=
    Reports (ScriptTrace.recount CoverageRecorder.tell q told) ([] ++ told) (hashesOf m.reset) ∧
      Reports.Throughout q told
  have hmove (told others : List Notice) (m m' : StackMachine) (h : inv told m)
      (hshifting : Shifting (hashesOf m.reset) others (hashesOf m')) : inv (told ++ others) m' :=
    ⟨(h.1.advance hshifting).2, h.1.throughout_append hshifting h.2⟩
  have hbegin : inv [] m := by
    refine ⟨hreports, fun front n back hcut ↦ ?_⟩
    exact absurd hcut.symm (List.append_ne_nil_of_right_ne_nil front (List.cons_ne_nil n back))
  exact (hroute.preserves (fun told m code h ↦ hmove told _ m _ h (shifting_load m code))
    (fun told m t h hturn ↦ hmove told _ m _ h (shifting_turn hturn)) [] hbegin).2

/-! ### Sessions -/

/-- Assumes: an audience that retells what a recorder does, and a recorder whose log agrees with
what it was told before and with the scripts on the call stack, unless the machine has stopped. No
call fails, and what the calls leave behind is recounted of their route. -/
theorem drive_reports {τ : Type} {o : Observer (CoverageRecorder × τ)}
    {holds : CoverageRecorder × List CoverageLine → CoverageRecorder × τ → Prop}
    (hretells : o.Retells tell Allows holds) {e : CoverageEngine StackMachine τ}
    {overrides : Overrides} (he : e.Watches o overrides) {q : CoverageRecorder × List CoverageLine}
    {before : List Notice} (hreports : Reports q before (hashesOf e.session.machine.reset)) {t : τ}
    (hholds : holds q (e.recorder, t)) (calls : List Call) :
    Succeeds (Engine.drive calls) (e, t) fun ended next ↦ next.1.Watches o overrides ∧
      ∃ told, Route overrides calls ended e.session.machine told next.1.session.machine ∧
        o.hear told (e.recorder, t) = .ok () (next.1.recorder, next.2) ∧
        Reports (recount tell q told) (before ++ told) (hashesOf next.1.session.machine.reset) ∧
        holds (recount tell q told) (next.1.recorder, next.2) := by
  let fits (told : List Notice) (m : StackMachine) : Prop :=
    Reports (recount tell q told) (before ++ told) (hashesOf m.reset)
  have hbegin : fits [] e.session.machine := by
    rw [← List.append_nil before] at hreports
    exact hreports
  have hload (told : List Notice) (m : StackMachine) (code : Bytes) (hfits : fits told m) :
      Allowed tell Allows (recount tell q told).1 ((Machine.load code m).notices m) ∧
        fits (told ++ (Machine.load code m).notices m) (Machine.load code m).next :=
    hfits.advance (shifting_load m code)
  have hturn (told : List Notice) (m : StackMachine) (t : Turn StackMachine) (hfits : fits told m)
      (hturn : turn overrides m = some t) :
      Allowed tell Allows (recount tell q told).1 (t.notices m) ∧
        fits (told ++ t.notices m) t.next :=
    hfits.advance (shifting_turn hturn)
  exact hretells.drive hload hturn he hbegin hholds calls

/-- Assumes: a storage that does not fail, and a session without observers whose machine has stopped
or has no frames. What calls on a new engine leave behind is recounted of their route. -/
theorem drive_start {τ : Type} {fs : Storage τ} {sound : τ → Prop}
    {content : τ → Handle → Option Bytes} (hfs : fs.Reliable sound content)
    {config : CoverageConfig} {sessionName : String} {checker : Option WitnessChecker}
    {session : Session StackMachine τ} (hobservers : session.observers = [])
    (hempty : hashesOf session.machine.reset = []) {t₀ t : τ} (ht₀ : sound t₀)
    {e : CoverageEngine StackMachine τ}
    (hstart : CoverageEngine.start fs config sessionName checker session t₀ = .ok e t)
    (calls : List Call) :
    let overrides := Engine.witnessed checker session.overrides
    ∃ w, Succeeds (Engine.drive calls) (e, t) fun ended next ↦
      next.1.Watches (observer fs) overrides ∧
      ∃ told, Route overrides calls ended session.machine told next.1.session.machine ∧
        Reports (recount tell (.ofWriter w, []) told) told
          (hashesOf next.1.session.machine.reset) ∧
        Told sound content (recount tell (.ofWriter w, []) told) (next.1.recorder, next.2) := by
  intro overrides
  obtain ⟨w, t', hwriter, hrest⟩ := bind_eq_ok hstart
  obtain ⟨rfl, rfl⟩ := EStateM.Result.ok.inj hrest
  have hmachine := Engine.machine_start (observer fs) (.ofWriter w) checker session
  have hwatches := Engine.watches_witnessed (observer fs) (.ofWriter w) checker hobservers
  have hbegin : Reports (.ofWriter w, []) [] (hashesOf (Engine.start (observer fs) (.ofWriter w)
      checker session).session.machine.reset) := by
    rw [hmachine, hempty]
    exact .begin w
  have hopen : Told sound content (.ofWriter w, []) (.ofWriter w, t') :=
    ⟨rfl, rfl, CoverageWriter.holds_start hfs ht₀ hwriter⟩
  have hdrive := drive_reports (retells hfs) hwatches hbegin hopen calls
  rw [hmachine] at hdrive
  refine ⟨w, hdrive.mono fun ended next hnext ↦ ?_⟩
  obtain ⟨he', told, hroute, -, hreports, htold⟩ := hnext
  exact ⟨he', told, hroute, hreports, htold⟩

end CoverageRecorder

end ScriptTrace
