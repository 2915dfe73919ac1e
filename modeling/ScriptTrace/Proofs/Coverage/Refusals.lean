import ScriptTrace.Proofs.Coverage.Counts
import ScriptTrace.Proofs.Coverage.Recording
import ScriptTrace.Proofs.Session.Attendance
import ScriptTrace.Proofs.StackMachine.Strides

/-!
Counts of a session whose calls fail. An instruction is counted when it is about to run, whether or
not its line can be written (`tallies_observer`). If the line is refused the machine has not moved,
and the next execution counts the instruction again. So a count is the number of dispatches and of
calls that failed in front of the instruction (`attemptEach_hitCount`), and it is larger than the
number of dispatches as soon as a line is refused (`hitCount_of_refused_line`).
-/

set_option autoImplicit false
set_option relaxedAutoImplicit false

namespace ScriptTrace

namespace CoverageRecorder

open StackMachine

/-! ### Counting -/

/-- The counts of a recorder are those of a list of instructions, by script and position. -/
def Counts (ds : List (Hash × ℕ)) (r : CoverageRecorder) : Prop :=
  ∀ hash position, r.hitCount hash position = ds.count (hash, position)

namespace Counts

variable {ds ds' : List (Hash × ℕ)} {r : CoverageRecorder}

theorem perm (h : Counts ds r) (hperm : ds.Perm ds') : Counts ds' r := by
  intro hash position
  rw [h hash position, hperm.count_eq]

theorem hit (h : Counts ds r) (hash : Hash) (position : ℕ) :
    Counts (ds ++ [(hash, position)]) (r.counting hash position) := by
  intro other place
  rw [counting, hitCount_set, h other place, List.count_append, List.count_singleton]
  simp only [beq_iff_eq, eq_comm (a := (hash, position))]

/-- All counts together are as many as the instructions. -/
theorem finsum_eq (h : Counts ds r) : ∑ᶠ k : Hash × ℕ, r.hitCount k.1 k.2 = ds.length := by
  have hsupport : (Function.support fun k : Hash × ℕ ↦ ds.count k) ⊆ ds.toFinset := by
    intro k hk
    exact List.mem_toFinset.mpr (List.count_pos_iff.mp (Nat.pos_of_ne_zero hk))
  have hcount : (fun k : Hash × ℕ ↦ r.hitCount k.1 k.2) = fun k ↦ ds.count k := by
    funext k
    exact h k.1 k.2
  rw [hcount, finsum_eq_sum_of_support_subset _ hsupport]
  convert List.sum_toFinset_count_eq_length ds

end Counts

/-! ### Events -/

section Observer

variable {τ : Type} (fs : Storage τ) (ds : List (Hash × ℕ))

theorem counts_survives : Survives fs fun host ↦ Counts ds host.1 where
  remember _ _ _ _ h := h
  line _ _ h := ends_onWriter (.of_cases (fun _ _ _ ↦ h) fun _ _ _ ↦ h)
  context _ _ h := ends_onWriter (.of_cases (fun _ _ _ ↦ h) fun _ _ _ ↦ h)

/-- An instruction is counted when it is about to run, whatever comes of writing its line. Nothing
else is counted. -/
theorem tallies_observer :
    (observer fs).Tallies fun told r ↦ Counts (ds ++ dispatches told) r := by
  rintro told view event ⟨r, t⟩ h
  dsimp only at h ⊢
  cases hevent : dispatch? (view, event) with
  | none =>
    have hsame : dispatches (told ++ [(view, event)]) = dispatches told := by
      rw [dispatches_append, dispatches, dispatches, List.filterMap_cons_none hevent,
        List.filterMap_nil, List.append_nil]
    rw [hsame]
    exact (counts_survives fs _).notice hevent h
  | some d =>
    obtain ⟨i, rfl, hhash, hposition⟩ := exists_of_dispatch? hevent
    have hmore : dispatches (told ++ [(view, .preExecute i)]) = dispatches told ++ [d] := by
      rw [dispatches_append, dispatches, dispatches, List.filterMap_cons_some hevent,
        List.filterMap_nil]
    rw [hmore, ← List.append_assoc]
    exact (counts_survives fs _).before hhash hposition i (h.hit d.1 d.2)

end Observer

/-! ### Turns -/

/-- A machine is on its way from another one. The counts are those of some instructions, of those
that were dispatched on the way, and of others that were counted without being dispatched. -/
def Shows (ds : List (Hash × ℕ)) (overrides : Overrides) (start : StackMachine)
    (refused : List (Hash × ℕ)) (m : StackMachine) (r : CoverageRecorder) : Prop :=
  ∃ ts, Moves overrides start ts m ∧
    Counts (ds ++ (start.strides ts).filterMap Stride.dispatched? ++ refused) r

/-- The same where a call has failed: what was counted is at most the instruction that the machine
stands in front of. -/
def Halts (ds : List (Hash × ℕ)) (overrides : Overrides) (start : StackMachine)
    (m : StackMachine) (r : CoverageRecorder) : Prop :=
  ∃ refused, refused.Sublist m.top?.toList ∧ Shows ds overrides start refused m r

/-- The counts behind calls that may have failed are those of some instructions, of those that were
dispatched, and of at most one for each call that failed, which is the one that the machine stood in
front of. -/
def Accounts (ds : List (Hash × ℕ)) (overrides : Overrides) (calls : List Call) (m : StackMachine)
    (outcomes : List (Except TracerError Unit × StackMachine)) (m' : StackMachine)
    (r : CoverageRecorder) : Prop :=
  ∃ ss refused, Trail overrides calls m outcomes ss m' ∧
    refused.Sublist (outcomes.filterMap failedAt?) ∧
    Counts (ds ++ ss.filterMap Stride.dispatched? ++ refused) r

/-- Calls after others. -/
theorem Accounts.append {ds refused : List (Hash × ℕ)} {overrides : Overrides}
    {calls others : List Call} {m m₁ m' : StackMachine} {ss : List Stride}
    {outcomes later : List (Except TracerError Unit × StackMachine)} {r : CoverageRecorder}
    (htrail : Trail overrides calls m outcomes ss m₁)
    (hrefused : refused.Sublist (outcomes.filterMap failedAt?))
    (hrest :
      Accounts (ds ++ ss.filterMap Stride.dispatched? ++ refused) overrides others m₁ later m' r) :
    Accounts ds overrides (calls ++ others) m (outcomes ++ later) m' r := by
  obtain ⟨us, more, htrail', hmore, hcounts'⟩ := hrest
  refine ⟨ss ++ us, refused ++ more, htrail.append htrail', ?_, hcounts'.perm ?_⟩
  · rw [List.filterMap_append]
    exact hrefused.append hmore
  · rw [List.filterMap_append]
    simp only [List.append_assoc]
    refine (List.perm_append_left_iff _).mpr ((List.perm_append_left_iff _).mpr ?_)
    rw [← List.append_assoc, ← List.append_assoc]
    exact (List.perm_append_right_iff _).mpr List.perm_append_comm

section Session

variable {τ : Type} {fs : Storage τ} {s : Session StackMachine (CoverageRecorder × τ)} {k : ℕ}
  {front back : List (ℕ × Observer τ)}
  (hobservers : s.observers = lifted front ++ (k, observer fs) :: lifted back)
  {host : CoverageRecorder × τ} {ds : List (Hash × ℕ)}
include hobservers

/-- What is counted of the events that are reported. -/
theorem report_counts (h : Counts ds host.1) (view : View) (events : List Event) :
    Ends (s.report view events) host
      (fun _ next ↦ Counts (ds ++ dispatches (events.map (Prod.mk view))) next.1)
      fun _ next ↦ ∃ refused, refused.Sublist (dispatches (events.map (Prod.mk view))) ∧
        Counts (ds ++ refused) next.1 := by
  have hnone : Counts (ds ++ dispatches []) host.1 := by
    rwa [dispatches, List.filterMap_nil, List.append_nil]
  refine (Session.report_tallies hobservers (tallies_observer fs ds) hnone view events).mono ?_ ?_
  · exact fun _ _ hnext ↦ hnext
  · rintro _ next ⟨seen, hseen, hnext⟩
    exact ⟨dispatches seen, hseen.sublist.filterMap dispatch?, hnext⟩

/-- A turn is counted if it is reported at all, and dispatched if no report before it fails. -/
theorem bears_turn {overrides : Overrides} {start : StackMachine} {t : Turn StackMachine}
    (h : Shows ds overrides start [] s.machine host.1)
    (hturn : s.machine.turn overrides = some t) :
    s.Bears (fun m next ↦ Shows ds overrides start [] m next.1)
      (fun m next ↦ Halts ds overrides start m next.1) t host := by
  obtain ⟨ts, hmoves, hcounts⟩ := h
  rw [List.append_nil] at hcounts
  refine (report_counts hobservers hcounts s.machine.view t.before.toList).mono ?_ ?_
  · intro _ host₁ hcounts₁
    rw [(dispatches_before hturn).1] at hcounts₁
    have hshows {r : CoverageRecorder} (h : Counts (ds ++
        (start.strides ts).filterMap Stride.dispatched? ++
        (Stride.turn s.machine t).dispatched?.toList) r) :
        Shows ds overrides start [] t.next r := by
      refine ⟨ts ++ [t], hmoves.concat hturn, ?_⟩
      rwa [strides_concat hmoves, List.filterMap_append, filterMap_cons_eq_append,
        List.filterMap_nil, List.append_nil, List.append_nil, ← List.append_assoc]
    have hafter := report_counts hobservers hcounts₁ t.next.view t.after
    rw [dispatches_after hturn, List.append_nil] at hafter
    refine hafter.mono (fun _ _ hnext ↦ hshows hnext) ?_
    rintro _ next ⟨refused, hrefused, hnext⟩
    rw [List.sublist_nil.mp hrefused, List.append_nil] at hnext
    exact ⟨[], List.nil_sublist _, hshows hnext⟩
  · rintro _ next ⟨refused, hrefused, hnext⟩
    rw [(dispatches_before hturn).1] at hrefused
    exact ⟨refused, hrefused.trans (dispatched?_sublist_top? _), ts, hmoves, hnext⟩

/-- A load is not counted. -/
theorem ends_load (h : Counts ds host.1) (code : Bytes) :
    Ends (Session.load code) (s, host)
      (fun _ ↦ s.Stands fun m next ↦ m = (s.machine.load code).next ∧ Counts ds next.1)
      fun _ ↦ s.Stands fun m next ↦ m = (s.machine.load code).next ∧ Counts ds next.1 := by
  let loaded (m : StackMachine) (next : CoverageRecorder × τ) : Prop :=
    m = (s.machine.load code).next ∧ Counts ds next.1
  have hbears : s.Bears loaded loaded (s.machine.load code) host := by
    have hnone : dispatches ((s.machine.load code).after.map
        (Prod.mk (s.machine.load code).next.view)) = [] := rfl
    have hafter := report_counts hobservers h (s.machine.load code).next.view
      (s.machine.load code).after
    rw [hnone, List.append_nil] at hafter
    refine .pure (hafter.mono (fun _ _ hnext ↦ ⟨rfl, hnext⟩) ?_)
    rintro _ next ⟨refused, hrefused, hnext⟩
    rw [List.sublist_nil.mp hrefused, List.append_nil] at hnext
    exact ⟨rfl, hnext⟩
  exact .get_bind (hbears.move.mono (fun _ _ hmoved ↦ ⟨_, hmoved⟩) fun _ _ hstands ↦ hstands)

/-- An execution counts what it dispatches, and one instruction more if it fails in front of it. -/
theorem ends_execute (h : Counts ds host.1) (budget : ℕ) :
    Ends (Session.execute budget) (s, host)
      (fun _ ↦ s.Stands fun m next ↦ Shows ds s.overrides s.machine [] m next.1)
      fun _ ↦ s.Stands fun m next ↦ Halts ds s.overrides s.machine m next.1 := by
  have hbegin : Shows ds s.overrides s.machine [] s.machine host.1 :=
    ⟨[], .refl _, by rwa [strides, List.filterMap_nil, List.append_nil, List.append_nil]⟩
  refine Session.execute_of_bears
    (P := fun m (next : CoverageRecorder × τ) ↦ Shows ds s.overrides s.machine [] m next.1) ?_
    hbegin budget
  intro m next t hshows hturn
  exact bears_turn (s := { s with machine := m }) hobservers hshows hturn

/-- The counts behind one call. -/
theorem ends_make (h : Counts ds host.1) (c : Call) :
    Ends (Session.make c) (s, host)
      (fun _ ↦ s.Stands fun m next ↦ Accounts ds s.overrides [c] s.machine [(.ok (), m)] m next.1)
      fun err ↦ s.Stands fun m next ↦
        Accounts ds s.overrides [c] s.machine [(.error err, m)] m next.1 := by
  cases c with
  | load code =>
    have haccounts {m : StackMachine} {r : CoverageRecorder}
        (h : m = (s.machine.load code).next ∧ Counts ds r) (outcome : Except TracerError Unit) :
        Accounts ds s.overrides [.load code] s.machine [(outcome, m)] m r := by
      obtain ⟨rfl, hcounts⟩ := h
      have hnone : (Stride.load s.machine code).dispatched? = none := if_neg (Nat.lt_irrefl _)
      refine ⟨_, [], .load outcome (.nil _), List.nil_sublist _, ?_⟩
      rwa [List.filterMap_cons_none hnone, List.filterMap_nil, List.append_nil, List.append_nil]
    refine (ends_load hobservers h code).mono ?_ ?_
    · rintro _ next ⟨m, hnext, hloaded⟩
      exact ⟨m, hnext, haccounts hloaded _⟩
    · rintro err next ⟨m, hnext, hloaded⟩
      exact ⟨m, hnext, haccounts hloaded _⟩
  | execute budget =>
    have haccounts {m : StackMachine} {r : CoverageRecorder} {refused : List (Hash × ℕ)}
        (h : Shows ds s.overrides s.machine refused m r) {outcome : Except TracerError Unit}
        (hrefused : refused.Sublist (failedAt? (outcome, m)).toList) :
        Accounts ds s.overrides [.execute budget] s.machine [(outcome, m)] m r := by
      obtain ⟨ts, hmoves, hcounts⟩ := h
      refine ⟨_, refused, .execute outcome hmoves (.nil _), ?_, ?_⟩
      · rwa [filterMap_cons_eq_append, List.filterMap_nil, List.append_nil]
      · rwa [List.append_nil]
    have hexecute : Ends (Session.execute budget) (s, host)
        (fun _ ↦ s.Stands fun m next ↦
          Accounts ds s.overrides [.execute budget] s.machine [(.ok (), m)] m next.1)
        fun err ↦ s.Stands fun m next ↦
          Accounts ds s.overrides [.execute budget] s.machine [(.error err, m)] m next.1 := by
      refine (ends_execute hobservers h budget).mono ?_ ?_
      · rintro _ next ⟨m, hnext, hshows⟩
        exact ⟨m, hnext, haccounts hshows (List.nil_sublist _)⟩
      · rintro err next ⟨m, hnext, refused, hrefused, hshows⟩
        exact ⟨m, hnext, haccounts hshows hrefused⟩
    exact hexecute.bind fun _ _ hnext ↦ .pure hnext

end Session

/-! ### Calls -/

section Engine

variable {τ : Type} {fs : Storage τ} {others : List (ℕ × Observer τ)}
  {e : CoverageEngine StackMachine τ} {t : τ} {ds : List (Hash × ℕ)}

/-- The counts behind all calls. -/
theorem succeeds_attemptEach (he : e.Attends (observer fs) others) (h : Counts ds e.recorder)
    (calls : List Call) :
    Succeeds (Engine.attemptEach calls) (e, t) fun outcomes next ↦
      Accounts ds e.session.overrides calls e.session.machine outcomes next.1.session.machine
        next.1.recorder := by
  induction calls generalizing e t ds with
  | nil =>
    refine .pure ⟨[], [], .nil _, .refl _, ?_⟩
    rwa [List.filterMap_nil, List.append_nil, List.append_nil]
  | cons c rest ih =>
    obtain ⟨k, front, back, -, -, hobservers, -⟩ := id he
    have hcall : Ends (Engine.make c) (e, t)
        (fun _ ↦ e.Stands fun m next ↦
          Accounts ds e.session.overrides [c] e.session.machine [(.ok (), m)] m next.1)
        fun err ↦ e.Stands fun m next ↦
          Accounts ds e.session.overrides [c] e.session.machine [(.error err, m)] m next.1 :=
      Engine.make_stands he.not_disposed (ends_make hobservers h c)
    refine (Ends.succeeds_outcome (P := fun outcome ↦ e.Stands fun m next ↦
      Accounts ds e.session.overrides [c] e.session.machine [(outcome, m)] m next.1) hcall).bind ?_
    intro outcome next hnext
    have hattends := hnext.attends he
    obtain ⟨_, t'⟩ := next
    obtain ⟨m, r, rfl, haccounts⟩ := hnext
    refine .get_bind ?_
    obtain ⟨ss, refused, htrail, hrefused, hcounts⟩ := haccounts
    exact (ih hattends hcounts).bind fun _ _ hrest ↦ .pure (.append htrail hrefused hrest)

/-- Assumes: a session whose observers have numbers from before the next one, as subscribing gives
them. An engine over it makes calls with any storage, and the host goes on after each failure. Each
count is the number of dispatches and of some of the calls that failed in front of the instruction.
Finitely many counts are not zero, and the sum of all is the gas that was charged and the number of
those calls. -/
theorem attemptEach_hitCount (fs : Storage τ) (config : CoverageConfig) (sessionName : String)
    (checker : Option WitnessChecker) {session : Session StackMachine τ}
    (hnumbered : session.Numbered) {t₀ t₁ : τ} {engine : CoverageEngine StackMachine τ}
    (hstart : CoverageEngine.start fs config sessionName checker session t₀ = .ok engine t₁)
    (calls : List Call) :
    ∃ outcomes engine' t₂ ss, ∃ refused : List (Hash × ℕ),
      Engine.attemptEach calls (engine, t₁) = .ok outcomes (engine', t₂) ∧
      Trail (Engine.witnessed checker session.overrides) calls session.machine outcomes ss
        engine'.session.machine ∧
      refused.Sublist (outcomes.filterMap failedAt?) ∧
      (∀ hash position, engine'.recorder.hitCount hash position =
        (ss.filterMap Stride.dispatched?).count (hash, position) +
          refused.count (hash, position)) ∧
      (Function.support fun k : Hash × ℕ ↦ engine'.recorder.hitCount k.1 k.2).Finite ∧
      session.machine.gas + ∑ᶠ k : Hash × ℕ, engine'.recorder.hitCount k.1 k.2 =
        engine'.session.machine.gas + refused.length := by
  obtain ⟨writer, t, hwriter, hrest⟩ := bind_eq_ok hstart
  obtain ⟨rfl, rfl⟩ := EStateM.Result.ok.inj hrest
  have hattends := Engine.attends_start (observer fs) (.ofWriter writer) checker hnumbered
  have hnone : Counts [] (Engine.start (observer fs) (.ofWriter writer) checker session).recorder :=
    fun _ _ ↦ rfl
  obtain ⟨outcomes, ⟨engine', t₂⟩, hrun, ss, refused, htrail, hrefused, hcounts⟩ :=
    succeeds_attemptEach (t := t) hattends hnone calls
  rw [Engine.overrides_start, Engine.machine_start] at htrail
  refine ⟨outcomes, engine', t₂, ss, refused, hrun, htrail, hrefused, fun hash position ↦ ?_,
    finite_support_hitCount _, ?_⟩
  · rw [hcounts hash position, List.nil_append, List.count_append]
  · rw [hcounts.finsum_eq, List.nil_append, List.length_append, ← Nat.add_assoc,
      htrail.path.gas_eq]

end Engine

/-- Two executions fail in front of the first instruction, over a file that takes the hash line and
nothing more. -/
theorem attemptEach_hitCount_of_memory :
    let session : Session StackMachine MemoryStore :=
      .ofMachine (.create ⟨1⟩ .empty .default [])
    let store : MemoryStore :=
      .ofFiles [] [⟨.write, ".neo-coverage", ⟨.other, "no space"⟩, 43, none⟩]
    let calls := [Call.load [Opcode.ret], .execute 9, .execute 9]
    session.Numbered ∧
      ∃ engine store₁,
        CoverageEngine.start MemoryStore.storage .default "run" none session store =
          .ok engine store₁ ∧
        ∃ outcomes engine' store₂ ss, ∃ refused : List (Hash × ℕ),
          Engine.attemptEach calls (engine, store₁) = .ok outcomes (engine', store₂) ∧
          Trail (Engine.witnessed none session.overrides) calls session.machine outcomes ss
            engine'.session.machine ∧
          refused.Sublist (outcomes.filterMap failedAt?) ∧
          (∀ hash position, engine'.recorder.hitCount hash position =
            (ss.filterMap Stride.dispatched?).count (hash, position) +
              refused.count (hash, position)) ∧
          (Function.support fun k : Hash × ℕ ↦ engine'.recorder.hitCount k.1 k.2).Finite ∧
          0 + ∑ᶠ k : Hash × ℕ, engine'.recorder.hitCount k.1 k.2 =
            engine'.session.machine.gas + refused.length := by
  intro session store calls
  have hnumbered : session.Numbered := fun _ hp ↦ absurd hp List.not_mem_nil
  obtain ⟨engine, store₁, hstart⟩ : ∃ engine store₁,
      CoverageEngine.start MemoryStore.storage .default "run" none session store =
        .ok engine store₁ := ⟨_, _, rfl⟩
  exact ⟨hnumbered, engine, store₁, hstart,
    attemptEach_hitCount MemoryStore.storage .default "run" none hnumbered hstart calls⟩

/-- The instruction is counted twice and was not dispatched, and no gas was charged. -/
theorem hitCount_of_refused_line :
    let session : Session StackMachine MemoryStore :=
      .ofMachine (.create ⟨1⟩ .empty .default [])
    let store : MemoryStore :=
      .ofFiles [] [⟨.write, ".neo-coverage", ⟨.other, "no space"⟩, 43, none⟩]
    let calls := [Call.load [Opcode.ret], .execute 9, .execute 9]
    let hash := Hash.ofScript [Opcode.ret]
    ∃ engine store₁,
      CoverageEngine.start MemoryStore.storage .default "run" none session store =
        .ok engine store₁ ∧
      ∃ outcomes engine' store₂,
        Engine.attemptEach calls (engine, store₁) = .ok outcomes (engine', store₂) ∧
        engine'.recorder.hitCount hash 0 = 2 ∧
        engine'.session.machine.gas = 0 ∧
        ∀ ss, Trail .empty calls session.machine outcomes ss engine'.session.machine →
          (ss.filterMap Stride.dispatched?).count (hash, 0) = 0 := by
  intro session store calls hash
  let begun := CoverageEngine.start MemoryStore.storage .default "run" none session store
  have hcounts : (match begun with
      | .ok engine store₁ => (match Engine.attemptEach calls (engine, store₁) with
        | .ok _ next => next.1.recorder.hitCount hash 0 == 2 && next.1.session.machine.gas == 0
        | .error _ _ => false)
      | .error _ _ => false) = true := by decide +kernel
  obtain ⟨engine, store₁, hstart⟩ : ∃ engine store₁, begun = .ok engine store₁ := ⟨_, _, rfl⟩
  rw [hstart] at hcounts
  cases hrun : Engine.attemptEach calls (engine, store₁) with
  | error err next => simp [hrun] at hcounts
  | ok outcomes next =>
    obtain ⟨engine', store₂⟩ := next
    obtain ⟨hhits, hgas⟩ :
        engine'.recorder.hitCount hash 0 = 2 ∧ engine'.session.machine.gas = 0 := by
      simpa [hrun] using hcounts
    refine ⟨engine, store₁, hstart, outcomes, engine', store₂, hrun, hhits, hgas, ?_⟩
    intro ss htrail
    have hcharged := htrail.path.gas_eq
    rw [hgas] at hcharged
    have hnone : ss.filterMap Stride.dispatched? = [] :=
      List.length_eq_zero_iff.mp (Nat.eq_zero_of_add_eq_zero_left hcharged)
    rw [hnone, List.count_nil]

end CoverageRecorder

end ScriptTrace
