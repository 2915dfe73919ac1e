import Mathlib.Data.List.Induction
import Mathlib.Data.List.Nodup
import ScriptTrace.Proofs.Trace.Shape

/-!
Which scripts a trace announces. `Entered` lists the frames that come onto the call stack in an
execution, and `Announces` says of records that each script is announced once, by the first of these
frames that has its hash, and before any trace record shows it. A recorder whose sink keeps every
record announces the scripts of every invocation in this way (`drive_announces`).
-/

set_option autoImplicit false
set_option relaxedAutoImplicit false

namespace ScriptTrace

/-- The hash that a record announces. -/
def Record.announced? : Record → Option Hash
  | .script hash _ => some hash
  | _ => none

namespace TraceRecorder

open StackMachine

/-! ### The scripts of frames -/

/-- One more element is kept unless it is like one that is kept already. -/
theorem eraseDupsBy_loop_concat {α : Type} (same : α → α → Bool) (xs seen : List α) (x : α) :
    List.eraseDupsBy.loop same (xs ++ [x]) seen =
      if (List.eraseDupsBy.loop same xs seen).any (same x) then List.eraseDupsBy.loop same xs seen
      else List.eraseDupsBy.loop same xs seen ++ [x] := by
  induction xs generalizing seen with
  | nil =>
    rw [List.nil_append, List.eraseDupsBy.loop, List.eraseDupsBy.loop, List.any_reverse]
    cases seen.any (same x) with
    | true => rfl
    | false => exact List.reverse_cons
  | cons y rest ih =>
    rw [List.cons_append, List.eraseDupsBy.loop, List.eraseDupsBy.loop]
    cases seen.any (same y) with
    | true => exact ih seen
    | false => exact ih (y :: seen)

theorem eraseDupsBy_concat {α : Type} (same : α → α → Bool) (xs : List α) (x : α) :
    (xs ++ [x]).eraseDupsBy same = if (xs.eraseDupsBy same).any (same x) then xs.eraseDupsBy same
      else xs.eraseDupsBy same ++ [x] :=
  eraseDupsBy_loop_concat same xs [] x

theorem any_eraseDupsBy (frames : List Context) (hash : Hash) :
    (frames.eraseDupsBy fun a b ↦ a.scriptHash == b.scriptHash).any (hash == ·.scriptHash) = true ↔
      hash ∈ frames.map (·.scriptHash) := by
  induction frames using List.reverseRecOn with
  | nil => exact iff_of_false Bool.false_ne_true List.not_mem_nil
  | append_singleton frames c ih =>
    rw [eraseDupsBy_concat, List.map_append, List.mem_append, List.map_singleton,
      List.mem_singleton, ← ih]
    split
    · rename_i hknown
      refine ⟨.inl, fun h ↦ h.elim id ?_⟩
      rintro rfl
      exact hknown
    · rw [List.any_append, Bool.or_eq_true, List.any_cons, List.any_nil, Bool.or_false, beq_iff_eq]

/-- The scripts of one frame more. -/
theorem scripts_concat (frames : List Context) (c : Context) :
    scripts (frames ++ [c]) = scripts frames ++
      if c.scriptHash ∈ frames.map (·.scriptHash) then []
      else [.script c.scriptHash c.code] := by
  rw [scripts, scripts, eraseDupsBy_concat]
  by_cases hknown : c.scriptHash ∈ frames.map (·.scriptHash)
  · rw [if_pos ((any_eraseDupsBy _ _).mpr hknown), if_pos hknown, List.append_nil]
  · rw [if_neg (mt (any_eraseDupsBy _ _).mp hknown), if_neg hknown, List.map_append,
      List.map_singleton]

/-- The hashes that are announced are those of the frames. -/
theorem mem_announced_scripts {frames : List Context} {hash : Hash} :
    hash ∈ (scripts frames).filterMap Record.announced? ↔ hash ∈ frames.map (·.scriptHash) := by
  induction frames using List.reverseRecOn with
  | nil => rfl
  | append_singleton frames c ih =>
    rw [scripts_concat, List.filterMap_append, List.mem_append, ih, List.map_append,
      List.mem_append, List.map_singleton, List.mem_singleton]
    split
    · rename_i hknown
      constructor
      · exact fun h ↦ h.imp_right fun hmem ↦ absurd hmem List.not_mem_nil
      · rintro (h | rfl)
        · exact .inl h
        · exact .inl hknown
    · exact or_congr_right List.mem_singleton

theorem nodup_announced_scripts (frames : List Context) :
    ((scripts frames).filterMap Record.announced?).Nodup := by
  induction frames using List.reverseRecOn with
  | nil => exact List.nodup_nil
  | append_singleton frames c ih =>
    rw [scripts_concat, List.filterMap_append]
    split
    · rwa [List.filterMap_nil, List.append_nil]
    · rename_i hnew
      refine List.nodup_append.mpr ⟨ih, List.nodup_singleton _, ?_⟩
      rintro hash hmem _ hlast rfl
      rw [List.mem_singleton.mp hlast] at hmem
      exact hnew (mem_announced_scripts.mp hmem)

theorem filter_scripts_of_notMem {frames : List Context} {hash : Hash}
    (hnew : hash ∉ frames.map (·.scriptHash)) :
    (scripts frames).filter (·.announced? = some hash) = [] := by
  refine List.filter_eq_nil_iff.mpr fun r hr hhash ↦ hnew ?_
  exact mem_announced_scripts.mp (List.mem_filterMap.mpr ⟨r, hr, of_decide_eq_true hhash⟩)

/-- A hash is announced with the code of the first frame that has it. -/
theorem filter_scripts {frames : List Context} {hash : Hash} {c : Context}
    (hfound : frames.find? (·.scriptHash == hash) = some c) :
    (scripts frames).filter (·.announced? = some hash) = [.script c.scriptHash c.code] := by
  induction frames using List.reverseRecOn with
  | nil => cases hfound
  | append_singleton frames d ih =>
    rw [scripts_concat, List.filter_append]
    rw [List.find?_append, List.find?_singleton] at hfound
    cases hold : frames.find? (·.scriptHash == hash) with
    | some c₁ =>
      rw [hold, Option.some_or] at hfound
      obtain rfl := Option.some.inj hfound
      have hmem : hash ∈ frames.map (·.scriptHash) := by
        have hsame := List.find?_some hold
        rw [beq_iff_eq] at hsame
        exact List.mem_map.mpr ⟨c₁, List.mem_of_find?_eq_some hold, hsame⟩
      have hlast : (if d.scriptHash ∈ frames.map (·.scriptHash) then []
          else [Record.script d.scriptHash d.code]).filter (·.announced? = some hash) = [] := by
        split
        · rfl
        · rename_i hnew
          refine List.filter_cons_of_neg fun hhash ↦ hnew ?_
          exact Option.some.inj (of_decide_eq_true hhash) ▸ hmem
      rw [ih hold, hlast, List.append_nil]
    | none =>
      rw [hold, Option.none_or] at hfound
      have hhash : d.scriptHash = hash := by
        by_contra hne
        rw [if_neg (by simpa using hne)] at hfound
        cases hfound
      rw [if_pos (by simpa using hhash)] at hfound
      obtain rfl := Option.some.inj hfound
      subst hhash
      have hnew : d.scriptHash ∉ frames.map (·.scriptHash) := by
        intro hmem
        obtain ⟨f, hf, hsame⟩ := List.mem_map.mp hmem
        exact List.find?_eq_none.mp hold f hf (beq_iff_eq.mpr hsame)
      rw [filter_scripts_of_notMem hnew, if_neg hnew, List.nil_append]
      exact List.filter_cons_of_pos (decide_eq_true rfl)

/-! ### Records that announce scripts -/

/-- Some frames came onto the call stack, in this order, and the records are those of a recorder
that saw them. The script records are those of the frames, and before a trace record shows a frame,
the first frame of that hash was announced and no other one was. -/
structure Announces (entered : List Context) (rs : List Record) : Prop where
  scripts_eq : rs.filter (·.announced?.isSome) = scripts entered
  announced_of_trace : ∀ before state frames after, rs = before ++ .trace state frames :: after →
    ∀ f ∈ frames, ∃ c, entered.find? (·.scriptHash == f.scriptHash) = some c ∧
      before.filter (·.announced? = some f.scriptHash) = [.script c.scriptHash c.code]

namespace Announces

variable {entered : List Context} {rs : List Record}

/-- The records that announce a hash are those of the frames. -/
theorem filter_eq (h : Announces entered rs) (hash : Hash) :
    rs.filter (·.announced? = some hash) =
      (scripts entered).filter (·.announced? = some hash) := by
  rw [← h.scripts_eq, List.filter_filter]
  refine List.filter_congr fun r _ ↦ ?_
  cases r.announced? <;> simp

theorem nodup (h : Announces entered rs) : (rs.filterMap Record.announced?).Nodup := by
  have hfilter : rs.filterMap Record.announced? =
      (rs.filter (·.announced?.isSome)).filterMap Record.announced? := by
    rw [List.filterMap_filter]
    refine List.filterMap_congr fun r _ ↦ ?_
    cases r.announced? <;> rfl
  rw [hfilter, h.scripts_eq]
  exact nodup_announced_scripts entered

/-- More frames come onto the call stack, and records follow. -/
theorem append (h : Announces entered rs) (more : List Context) (us : List Record)
    (hscripts : scripts (entered ++ more) =
      scripts entered ++ us.filter (·.announced?.isSome))
    (htrace : ∀ before state frames after, us = before ++ .trace state frames :: after →
      ∀ f ∈ frames, ∃ c, (entered ++ more).find? (·.scriptHash == f.scriptHash) = some c ∧
        (rs ++ before).filter (·.announced? = some f.scriptHash) =
          [.script c.scriptHash c.code]) :
    Announces (entered ++ more) (rs ++ us) where
  scripts_eq := by rw [List.filter_append, h.scripts_eq, hscripts]
  announced_of_trace before state frames after hrs f hf := by
    have hold : ∀ rest, rs = before ++ .trace state frames :: rest →
        ∃ c, (entered ++ more).find? (·.scriptHash == f.scriptHash) = some c ∧
          before.filter (·.announced? = some f.scriptHash) = [.script c.scriptHash c.code] := by
      intro rest hrs
      obtain ⟨c, hfound, hannounced⟩ := h.announced_of_trace before state frames rest hrs f hf
      exact ⟨c, by rw [List.find?_append, hfound, Option.some_or], hannounced⟩
    rcases List.append_eq_append_iff.mp hrs with ⟨between, rfl, hus⟩ | ⟨between, hsplit, hrest⟩
    · exact htrace between state frames after hus f hf
    · cases between with
      | nil =>
        obtain rfl : rs = before := by rw [hsplit, List.append_nil]
        have hnext := htrace [] state frames after hrest.symm f hf
        rwa [List.append_nil] at hnext
      | cons record rest =>
        obtain ⟨rfl, -⟩ := List.cons.inj hrest
        exact hold rest hsplit

/-- Records that are neither scripts nor traces. -/
theorem other (h : Announces entered rs) (us : List Record)
    (hus : ∀ r ∈ us, r.kind ≠ .script ∧ r.kind ≠ .trace) : Announces entered (rs ++ us) := by
  have hnone : us.filter (·.announced?.isSome) = [] := by
    refine List.filter_eq_nil_iff.mpr fun r hr hsome ↦ ?_
    cases r with
    | script => exact (hus _ hr).1 rfl
    | _ => cases hsome
  have hnext := h.append [] us (by rw [hnone, List.append_nil, List.append_nil])
    fun before state frames after hsplit ↦ ?_
  · rwa [List.append_nil] at hnext
  · refine absurd rfl (hus (.trace state frames) ?_).2
    rw [hsplit]
    exact List.mem_append_right _ List.mem_cons_self

/-- A frame comes onto the call stack, and is announced unless its hash is known. -/
theorem enter (h : Announces entered rs) (c : Context) :
    Announces (entered ++ [c]) (rs ++ if c.scriptHash ∈ entered.map (·.scriptHash) then []
      else [.script c.scriptHash c.code]) := by
  refine h.append [c] _ ?_ fun before state frames after hsplit ↦ ?_
  · rw [scripts_concat]
    split <;> rfl
  · have hmem : Record.trace state frames ∈ (if c.scriptHash ∈ entered.map (·.scriptHash) then []
        else [.script c.scriptHash c.code]) := by
      rw [hsplit]
      exact List.mem_append_right _ List.mem_cons_self
    split at hmem
    · cases hmem
    · cases List.mem_singleton.mp hmem

/-- The call stack is shown. -/
theorem trace (h : Announces entered rs) (state : VmState) (frames : List FrameRecord)
    (hframes : ∀ f ∈ frames, f.scriptHash ∈ entered.map (·.scriptHash)) :
    Announces entered (rs ++ [.trace state frames]) := by
  have hnext := h.append [] [.trace state frames] (by simp [Record.announced?])
    fun before state' frames' after hsplit f hf ↦ ?_
  · rwa [List.append_nil] at hnext
  · obtain rfl : before = [] := by
      refine List.length_eq_zero_iff.mp ?_
      have hlength := congrArg List.length hsplit
      simp only [List.length_append, List.length_cons, List.length_nil] at hlength
      omega
    obtain ⟨heq, -⟩ := List.cons.inj hsplit
    obtain ⟨rfl, rfl⟩ := Record.trace.inj heq
    obtain ⟨c, hfound⟩ : ∃ c, entered.find? (·.scriptHash == f.scriptHash) = some c := by
      obtain ⟨g, hg, hhash⟩ := List.mem_map.mp (hframes f hf)
      exact Option.isSome_iff_exists.mp
        (List.find?_isSome.mpr ⟨g, hg, beq_iff_eq.mpr hhash⟩)
    refine ⟨c, by rwa [List.append_nil], ?_⟩
    rw [List.append_nil, h.filter_eq, filter_scripts hfound]

theorem block (h : Announces entered rs) (config : TraceConfig) (view : View)
    (hframes : ∀ f ∈ view.frames, f.scriptHash ∈ entered.map (·.scriptHash)) :
    Announces entered (rs ++ block config view) := by
  have hshown := h.trace view.state (view.frames.map Context.toRecord) fun f hf ↦ by
    obtain ⟨c, hc, rfl⟩ := List.mem_map.mp hf
    exact hframes c hc
  have hstorages := hshown.other (if config.captureStorage then
      storages view.snapshot (view.frames.map (·.scriptHash)) else []) fun r hr ↦ by
    split at hr
    · obtain ⟨hash, -, hsome⟩ := List.mem_filterMap.mp hr
      obtain ⟨c, -, rfl⟩ := Option.map_eq_some_iff.mp hsome
      exact ⟨RecordKind.noConfusion, RecordKind.noConfusion⟩
    · cases hr
  rwa [List.append_assoc] at hstorages

/-- An invocation begins with the scripts of the call stack. -/
theorem opening (config : TraceConfig) (view : View) :
    Announces view.frames.reverse (opening config view) := by
  have hscripts : ∀ r ∈ scripts view.frames.reverse, r.announced?.isSome ∧ r.kind = .script := by
    intro r hr
    obtain ⟨c, -, rfl⟩ := List.mem_map.mp hr
    exact ⟨rfl, rfl⟩
  have hpreamble : Announces view.frames.reverse
      (.settings view.settings.network view.settings.addressVersion ::
        scripts view.frames.reverse) := {
    scripts_eq := by
      rw [List.filter_cons_of_neg Bool.false_ne_true,
        List.filter_eq_self.mpr fun r hr ↦ (hscripts r hr).1]
    announced_of_trace := fun before state frames after hsplit ↦ by
      have hmem : Record.trace state frames ∈ Record.settings view.settings.network
          view.settings.addressVersion :: scripts view.frames.reverse := by
        rw [hsplit]
        exact List.mem_append_right _ List.mem_cons_self
      rcases List.mem_cons.mp hmem with heq | hmem
      · cases heq
      · cases (hscripts _ hmem).2 }
  refine hpreamble.block config view fun f hf ↦ ?_
  exact List.mem_map_of_mem (List.mem_reverse.mpr hf)

end Announces

/-! ### Frames that come onto the call stack -/

/-- The frames that came onto the call stack from one machine to another, in this order. They begin
with those that were there, from the outermost one up. -/
inductive Entered (overrides : Overrides) (m : StackMachine) : List Context → StackMachine → Prop
  | refl : Entered overrides m m.view.frames.reverse m
  | turn {entered : List Context} {m₁ : StackMachine} {t : Turn StackMachine}
    (h : Entered overrides m entered m₁) (hturn : turn overrides m₁ = some t) :
    Entered overrides m (entered ++ pushed m₁ t.next) t.next

variable {config : TraceConfig} {overrides : Overrides}

/-- Every frame on the call stack came onto it. -/
theorem Entered.mem_hashes {m m' : StackMachine} {entered : List Context}
    (h : Entered overrides m entered m') {hash : Hash}
    (hhash : hash ∈ m'.frames.map (·.scriptHash)) : hash ∈ entered.map (·.scriptHash) := by
  induction h with
  | refl => rwa [List.map_reverse, List.mem_reverse, hashes_view]
  | turn _ hturn ih =>
    rw [List.map_append]
    rcases List.mem_append.mp (mem_hashes_of_turn hturn hhash) with hold | hnew
    · exact List.mem_append_left _ (ih hold)
    · exact List.mem_append_right _ hnew

/-- A turn that pushes no frame leaves the list of those that came onto the call stack alone. -/
theorem Entered.turn_of_length_le {m m' : StackMachine} {entered : List Context}
    {t : Turn StackMachine} (h : Entered overrides m entered m')
    (hturn : StackMachine.turn overrides m' = some t)
    (hlength : t.next.frames.length ≤ m'.frames.length) : Entered overrides m entered t.next := by
  have hnext := Entered.turn h hturn
  rwa [pushed_eq_nil hlength, List.append_nil] at hnext

/-- What a block shows of a machine are frames that came onto the call stack. -/
theorem Entered.announces_block {m m' : StackMachine} {entered : List Context}
    {rs : List Record} (h : Entered overrides m entered m') (hannounces : Announces entered rs)
    (config : TraceConfig) {view : View} (hview : view.frames = m'.view.frames) :
    Announces entered (rs ++ block config view) := by
  refine hannounces.block config view fun f hf ↦ h.mem_hashes ?_
  rw [← hashes_view, ← hview]
  exact List.mem_map_of_mem hf

theorem mem_announcing {known : List Hash} {frames : List Context} {hash : Hash} :
    hash ∈ announcing known frames ↔ hash ∈ known ∨ hash ∈ frames.map (·.scriptHash) := by
  induction frames generalizing known with
  | nil => simp [announcing]
  | cons c rest ih =>
    rw [announcing, List.foldl_cons, ← announcing, ih, List.map_cons, List.mem_cons]
    split
    · rename_i hknown
      constructor
      · exact fun h ↦ h.imp_right .inr
      · rintro (h | rfl | h)
        · exact .inl h
        · exact .inl hknown
        · exact .inr h
    · rw [List.mem_cons, or_assoc, or_left_comm]

theorem announcing_append (known : List Hash) (frames more : List Context) :
    announcing known (frames ++ more) = announcing (announcing known frames) more :=
  List.foldl_append

/-- The record between two blocks announces the frame that was pushed, if there is one. -/
theorem Announces.aside {entered more : List Context} {rs us : List Record}
    (h : Announces entered rs) (haside : Aside (announcing [] entered) more us) :
    Announces (entered ++ more) (rs ++ us) := by
  have hother : ∀ record : Record, record.kind ≠ .script → record.kind ≠ .trace →
      Announces (entered ++ []) (rs ++ [record]) := by
    intro record hscript htrace
    rw [List.append_nil]
    exact h.other _ fun r hr ↦ List.mem_singleton.mp hr ▸ ⟨hscript, htrace⟩
  cases haside with
  | none => rwa [List.append_nil, List.append_nil]
  | log => exact hother _ RecordKind.noConfusion RecordKind.noConfusion
  | notify => exact hother _ RecordKind.noConfusion RecordKind.noConfusion
  | script c =>
    have hknown : c.scriptHash ∈ announcing [] entered ↔
        c.scriptHash ∈ entered.map (·.scriptHash) := by
      simp [mem_announcing]
    simp only [hknown]
    exact h.enter c

/-! ### One execution -/

/-- What a recorder has announced in an execution that began with `m₀` and has come to `m`: nothing
yet, or the scripts of the frames that came onto the call stack, which it also remembers. -/
inductive Heard (overrides : Overrides) (m₀ m : StackMachine) (r : TraceRecorder) :
    List Record → Prop
  | silent (hentered : Entered overrides m₀ m.view.frames.reverse m)
    (hstarted : r.started = false) : Heard overrides m₀ m r []
  | announced {entered : List Context} {rs : List Record}
    (hentered : Entered overrides m₀ entered m) (hannounces : Announces entered rs)
    (hknown : m.state = .none → r.started = true ∧ r.announced = announcing [] entered) :
    Heard overrides m₀ m r rs

/-- Assumes: a running machine, and a view of its call stack. Once the invocation has begun, the
recorder remembers what it has announced. -/
theorem Heard.begin {m₀ m : StackMachine} {r : TraceRecorder} {rs : List Record}
    (h : Heard overrides m₀ m r rs) (hrunning : m.state = .none) (config : TraceConfig)
    (view : View) (hview : view.frames = m.view.frames) :
    ∃ entered, Entered overrides m₀ entered m ∧ r.begun view = announcing [] entered ∧
      Announces entered (rs ++ if r.started then [] else opening config view) := by
  cases h with
  | silent hentered hstarted =>
    refine ⟨_, hentered, ?_, ?_⟩
    · rw [begun, hstarted, hview]
      rfl
    · rw [hstarted, ← hview]
      exact .opening config view
  | @announced entered rs hentered hannounces hknown =>
    obtain ⟨hstarted, hannounced⟩ := hknown hrunning
    refine ⟨entered, hentered, ?_, ?_⟩
    · rw [begun, hstarted, if_pos rfl, hannounced]
    · rwa [hstarted, if_pos rfl, List.append_nil]

/-- An invocation ends with a fault. -/
theorem Heard.faulted {m₀ m : StackMachine} {entered : List Context} {rs : List Record}
    (hentered : Entered overrides m₀ entered m) (hannounces : Announces entered rs)
    (hstopped : m.state = .fault) (r : TraceRecorder) (exception : String) {view : View}
    (hview : view.frames = m.view.frames) :
    Heard overrides m₀ m r (rs ++ .fault exception :: TraceRecorder.block r.config view) := by
  have hfault := hannounces.other [.fault exception] fun record hrecord ↦ by
    rw [List.mem_singleton.mp hrecord]
    exact ⟨RecordKind.noConfusion, RecordKind.noConfusion⟩
  have hblock := hentered.announces_block hfault r.config hview
  rw [List.append_assoc] at hblock
  refine .announced hentered hblock fun hrunning ↦ ?_
  rw [hstopped] at hrunning
  cases hrunning

/-- An instruction completed. The script of the frame that it pushed is announced, and remembered
unless the invocation is over. -/
theorem Heard.completed {m₀ m m' : StackMachine} {entered : List Context} {rs aside : List Record}
    {r : TraceRecorder} (hentered : Entered overrides m₀ (entered ++ pushed m m') m')
    (hannounces : Announces entered rs) (haside : Aside (announcing [] entered) (pushed m m') aside)
    (hstarted : r.started = decide (m'.state ≠ .halt))
    (hannounced : r.announced = if m'.state = .halt then []
      else announcing (announcing [] entered) (pushed m m')) (config : TraceConfig) :
    Heard overrides m₀ m' r (rs ++ (aside ++ (TraceRecorder.block config m'.view ++
      if m'.state = .halt then [.results m'.state (Int64.ofNat m'.gas) m'.results] else []))) := by
  have hblock := hentered.announces_block (hannounces.aside haside) config rfl
  have hlast := hblock.other (if m'.state = .halt then
      [.results m'.state (Int64.ofNat m'.gas) m'.results] else []) fun record hrecord ↦ by
    split at hrecord
    · rw [List.mem_singleton.mp hrecord]
      exact ⟨RecordKind.noConfusion, RecordKind.noConfusion⟩
    · cases hrecord
  simp only [List.append_assoc] at hlast
  refine .announced hentered hlast fun hrunning ↦ ?_
  have hne : m'.state ≠ .halt := by
    rw [hrunning]
    exact VmState.noConfusion
  rw [hstarted, hannounced, if_neg hne, announcing_append]
  exact ⟨decide_eq_true hne, rfl⟩

section Execution

variable {τ : Type} {sink : Sink τ} {records : τ → List Record} (hsink : sink.Keeps records)
include hsink

/-- A move announces the script of the frame it pushes. -/
theorem follow_heard {m₀ m : StackMachine} {r : TraceRecorder} {rs : List Record}
    (hfollows : Follows config m r) (hheard : Heard overrides m₀ m r rs)
    {t : Turn StackMachine} (hturn : turn overrides m = some t) :
    ∃ r' us, Emits records ((observer sink).follow m t) r r' us ∧
      Heard overrides m₀ t.next r' (rs ++ us) := by
  obtain ⟨rfl, hsession, hfresh⟩ := hfollows
  have hmoves := running_of_turn hturn
  cases outcome_of_turn hturn with
  | empty _ hframes =>
    refine ⟨r, [], (Emits.pure r).bind (.pure r), ?_⟩
    rw [List.append_nil]
    cases hheard with
    | silent hentered hstarted =>
      exact .silent (hentered.turn_of_length_le hturn (Nat.le_refl _)) hstarted
    | announced hentered hannounces hknown =>
      exact .announced (hentered.turn_of_length_le hturn (Nat.le_refl _)) hannounces
        VmState.noConfusion
  | @undecodable fault hundecodable =>
    obtain ⟨entered, hentered, -, hannounces⟩ :=
      hheard.begin hmoves r.config (m.raise fault).1.view rfl
    refine ⟨_, _, emits_follow_undecodable hsink m fault hfresh, ?_⟩
    rw [← List.append_assoc]
    have hentered' := hentered.turn_of_length_le hturn (Nat.le_refl _)
    exact .faulted hentered' hannounces rfl _ _ rfl
  | @completed i events m' hcompletes =>
    obtain ⟨r', aside, hemits, haside, -, -, hstarted', hannounced'⟩ :=
      emits_follow_completed hsink hcompletes hfresh hsession
    obtain ⟨entered, hentered, hbegun, hannounces⟩ := hheard.begin hmoves r.config m.view rfl
    rw [hbegun] at haside hannounced'
    refine ⟨r', _, hemits, ?_⟩
    rw [← List.append_assoc]
    exact .completed (hentered.turn hturn) hannounces haside hstarted' hannounced' r.config
  | @faulted i fault m' hfaults =>
    obtain ⟨entered, hentered, -, hannounces⟩ := hheard.begin hmoves r.config m.view rfl
    refine ⟨_, _, emits_follow_faulted hsink m i fault m' hfresh, ?_⟩
    rw [← List.append_assoc]
    have hlength : m'.frames.length = m.frames.length :=
      (sameScripts_of_operate hfaults.operate).length_eq.trans (length_charge i m)
    have hentered' := hentered.turn_of_length_le hturn (Nat.le_of_eq hlength)
    exact .faulted hentered' hannounces rfl _ _ rfl

end Execution

/-! ### Invocations -/

/-- The records of an invocation announce its scripts: those on the call stack before the first
block, in the order of their first frames, any other when its first frame is pushed, and none
twice. -/
structure Announced (overrides : Overrides) (m : StackMachine) (rs : List Record)
    (m' : StackMachine) : Prop where
  announces : ∃ entered, Entered overrides m entered m' ∧ Announces entered rs
  nodup : (rs.filterMap Record.announced?).Nodup
  preamble : ∃ network addressVersion state rest, rs = .settings network addressVersion ::
    scripts m.view.frames.reverse ++ .trace state (m.view.frames.map Context.toRecord) :: rest

/-- The records begin as those of an invocation do. -/
theorem Invocation.eq_opening_append {n : Nat} {m m' : StackMachine} {rs : List Record}
    (h : Invocation config overrides n m rs m') :
    ∃ view rest, view.frames = m.view.frames ∧ rs = opening config view ++ rest := by
  cases h with
  | halted => exact ⟨_, _, rfl, List.append_assoc _ _ _⟩
  | faulted => exact ⟨_, _, rfl, List.append_assoc _ _ _⟩
  | undecodable => exact ⟨_, _, rfl, List.append_assoc _ _ _⟩
  | @unstarted _ fault => exact ⟨(m.raise fault).1.view, _, rfl, rfl⟩

theorem Phase.eq_opening_append {m₀ m : StackMachine} {started : Bool} {rs : List Record}
    (h : Phase config overrides m₀ m started rs) (hne : rs ≠ []) :
    ∃ view rest, view.frames = m₀.view.frames ∧ rs = opening config view ++ rest := by
  cases h with
  | idle => exact absurd rfl hne
  | running =>
    split at hne
    · exact absurd rfl hne
    · rename_i hstarted
      rw [if_neg hstarted]
      exact ⟨_, _, rfl, rfl⟩
  | ended hinvocation => exact hinvocation.eq_opening_append

theorem Heard.announced_of_phase {m₀ m : StackMachine} {r : TraceRecorder} {rs : List Record}
    (hheard : Heard overrides m₀ m r rs) (hphase : Phase config overrides m₀ m r.started rs)
    (hne : rs ≠ []) : Announced overrides m₀ rs m := by
  cases hheard with
  | silent => exact absurd rfl hne
  | announced hentered hannounces =>
    obtain ⟨view, rest, hview, rfl⟩ := hphase.eq_opening_append hne
    refine ⟨⟨_, hentered, hannounces⟩, hannounces.nodup, ?_⟩
    rw [← hview]
    refine ⟨view.settings.network, view.settings.addressVersion, view.state,
      (if config.captureStorage then storages view.snapshot (view.frames.map (·.scriptHash))
        else []) ++ rest, ?_⟩
    simp only [opening, block, List.cons_append, List.append_assoc]

/-- Assumes: a sink that keeps every record. Executions announce their scripts. -/
theorem account_heard {τ : Type} {sink : Sink τ} {records : τ → List Record}
    (hsink : sink.Keeps records) : Account config overrides sink records
      (fun m₀ m r rs ↦ Phase config overrides m₀ m r.started rs ∧ Heard overrides m₀ m r rs)
      (fun m us m' ↦ (∃ n, Invocation config overrides n m us m') ∧ Announced overrides m us m')
      (fun m us m' ↦ Unfinished config overrides m us m' ∧
        (us = [] ∨ Announced overrides m us m')) where
  begins m r _ hstarted := ⟨hstarted ▸ .begin m, .silent .refl hstarted⟩
  moves t m₀ m r rs move hfollows hphase hturn := by
    obtain ⟨r', us, hemits, hfollows', hphase'⟩ := follow_phase hsink hfollows hphase.1 hturn
    obtain ⟨r'', us', hemits', hheard'⟩ := follow_heard hsink hfollows hphase.2 hturn
    obtain ⟨rfl, rfl⟩ := hemits.unique t hemits'
    exact ⟨r', us, hemits, hfollows', hphase', hheard'⟩
  unfinished m₀ m r rs hphase := by
    refine ⟨hphase.1.unfinished, ?_⟩
    by_cases hne : rs = []
    · exact .inl hne
    · exact .inr (hphase.2.announced_of_phase hphase.1 hne)
  stops m₀ m r rs hphase hstopped := by
    obtain ⟨hstarted, hcases⟩ := hphase.1.cases_of_stopped hstopped
    refine ⟨hstarted, hcases.imp_right fun hinvocation ↦ ⟨hinvocation, ?_⟩⟩
    refine hphase.2.announced_of_phase hphase.1 ?_
    obtain ⟨n, hinvocation⟩ := hinvocation
    obtain ⟨view, rest, -, rfl⟩ := hinvocation.eq_opening_append
    exact List.cons_ne_nil _ _

/-- Assumes: a sink that keeps every record, and a session without observers. However the engine
over such a session is driven, no call fails, and every invocation announces its scripts, also one
that has not ended. -/
theorem drive_announces {τ : Type} {sink : Sink τ} {records : τ → List Record}
    (hsink : sink.Keeps records) (config : TraceConfig) (names : NameCache)
    (checker : Option WitnessChecker) {session : Session StackMachine τ}
    (hobservers : session.observers = []) (calls : List Call) (t : τ) :
    let engine := TraceEngine.start sink config names checker session
    ∃ ended engine' t' rs, Engine.drive calls (engine, t) = .ok ended (engine', t') ∧
      records t' = records t ++ rs ∧
      Transcript engine.session.overrides
        (fun m us m' ↦ (∃ n, Invocation config engine.session.overrides n m us m') ∧
          Announced engine.session.overrides m us m')
        (fun m us m' ↦ Unfinished config engine.session.overrides m us m' ∧
          (us = [] ∨ Announced engine.session.overrides m us m'))
        calls ended session.machine rs engine'.session.machine :=
  (account_heard hsink).drive_start names checker hobservers calls t

/-- Two scripts were loaded before the engine was built and the second one aborts; a third one is
loaded after that and halts. -/
theorem drive_announces_of_loaded :
    let machine := (((StackMachine.create ⟨1⟩ .empty .default []).load [Opcode.pushTrue]).next.load
      [Opcode.abort, Opcode.pushTrue]).next
    let session : Session StackMachine MemorySink := .ofMachine machine
    let engine := TraceEngine.start MemorySink.sink .default .empty none session
    let calls := [Call.execute 9, .load [Opcode.pushTrue], .execute 9]
    session.observers = [] ∧ MemorySink.sink.Keeps MemorySink.records ∧
      ∃ ended engine' t', Engine.drive calls (engine, .empty) = .ok ended (engine', t') ∧
        Transcript engine.session.overrides
          (fun m us m' ↦ (∃ n, Invocation .default engine.session.overrides n m us m') ∧
            Announced engine.session.overrides m us m')
          (fun m us m' ↦ Unfinished .default engine.session.overrides m us m' ∧
            (us = [] ∨ Announced engine.session.overrides m us m'))
          calls ended machine t'.records engine'.session.machine := by
  intro machine session engine calls
  have hobservers : session.observers = [] := rfl
  obtain ⟨ended, engine', t', rs, hrun, hrecords, htranscript⟩ :=
    drive_announces MemorySink.keeps .default .empty none hobservers calls .empty
  have hrs : t'.records = rs := hrecords
  rw [← hrs] at htranscript
  exact ⟨hobservers, MemorySink.keeps, ended, engine', t', hrun, htranscript⟩

end TraceRecorder

end ScriptTrace
