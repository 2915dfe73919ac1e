import ScriptTrace.Proofs.Snapshot
import ScriptTrace.Proofs.StackMachine.Strides
import ScriptTrace.Proofs.Trace.Likeness
import ScriptTrace.Proofs.Trace.Preservation
import ScriptTrace.Proofs.Trace.Telling

/-!
Traces with the storage of contracts and without it. With storage every trace record is followed by
the storage of the contracts on its call stack, and there is no other storage (`Captured`). Each
event brings such records to a recorder that captures storage, and the same without storage to one
that does not (`tell_muted`). So a session records the same under both, storage apart, and goes the
same way (`storage_captured`).
-/

set_option autoImplicit false
set_option relaxedAutoImplicit false

namespace ScriptTrace

/-! ### Streams with storage and without -/

/-- A record with the storage that goes with it: that of the contracts on the call stack behind a
trace, and none behind another record. -/
def Record.followed (snapshot : Snapshot) (record : Record) : List Record :=
  match record with
  | .trace _ frames => record :: TraceRecorder.storages snapshot (frames.map (·.scriptHash))
  | _ => [record]

/-- A stream without storage, and the one with the storage behind every trace. -/
structure Captured (snapshot : Snapshot) (plain stored : List Record) : Prop where
  eq : stored = plain.flatMap (Record.followed snapshot)
  plain : ∀ r ∈ plain, r.kind ≠ .storage

theorem kind_of_mem_storages {snapshot : Snapshot} {hashes : List Hash} {r : Record}
    (hr : r ∈ TraceRecorder.storages snapshot hashes) : r.kind = .storage := by
  obtain ⟨hash, -, hsome⟩ := List.mem_filterMap.mp hr
  obtain ⟨c, -, rfl⟩ := Option.map_eq_some_iff.mp hsome
  rfl

/-- Behind a record comes nothing but storage. -/
theorem Record.exists_followed_eq (snapshot : Snapshot) (r : Record) :
    ∃ stored, r.followed snapshot = r :: stored ∧ ∀ u ∈ stored, u.kind = .storage := by
  unfold followed
  split
  · exact ⟨_, rfl, fun u hu ↦ kind_of_mem_storages hu⟩
  · exact ⟨[], rfl, nofun⟩

namespace Captured

variable {snapshot : Snapshot} {plain stored us rs : List Record}

theorem nil : Captured snapshot [] [] := ⟨rfl, nofun⟩

theorem append (h : Captured snapshot plain stored) (h' : Captured snapshot us rs) :
    Captured snapshot (plain ++ us) (stored ++ rs) where
  eq := by rw [List.flatMap_append, h.eq, h'.eq]
  plain r hr := (List.mem_append.mp hr).elim (h.plain r) (h'.plain r)

/-- Records that are neither traces nor storage. -/
theorem of_kinds (h : ∀ r ∈ rs, r.kind ≠ .trace ∧ r.kind ≠ .storage) : Captured snapshot rs rs where
  eq := by
    have hsingle : ∀ r ∈ rs, r.followed snapshot = [r] := by
      intro r hr
      unfold Record.followed
      split
      · exact absurd rfl (h _ hr).1
      · rfl
    rw [List.flatMap_congr hsingle, List.flatMap_singleton']
  plain r hr := (h r hr).2

theorem single {r : Record} (htrace : r.kind ≠ .trace) (hstorage : r.kind ≠ .storage) :
    Captured snapshot [r] [r] :=
  of_kinds fun _ hr ↦ List.mem_singleton.mp hr ▸ ⟨htrace, hstorage⟩

/-- The stream without storage is the other one with storage removed. -/
theorem plain_eq_filter (h : Captured snapshot plain stored) :
    plain = stored.filter (·.kind ≠ .storage) := by
  obtain ⟨rfl, hplain⟩ := h
  induction plain with
  | nil => rfl
  | cons r rest ih =>
    obtain ⟨hr, hrest⟩ := List.forall_mem_cons.mp hplain
    obtain ⟨stored, hfollowed, hstored⟩ := r.exists_followed_eq snapshot
    have hnone : stored.filter (·.kind ≠ .storage) = [] :=
      List.filter_eq_nil_iff.mpr fun u hu ↦ by simp [hstored u hu]
    rw [List.flatMap_cons, List.filter_append, hfollowed, List.filter_cons_of_pos (by simp [hr]),
      hnone, List.singleton_append, ← ih hrest]

/-- A stream with storage does not begin with storage. -/
theorem takeWhile_eq_nil (h : Captured snapshot plain stored) :
    stored.takeWhile (·.kind = .storage) = [] := by
  obtain ⟨rfl, hplain⟩ := h
  cases plain with
  | nil => rfl
  | cons r rest =>
    obtain ⟨stored, hfollowed, -⟩ := r.exists_followed_eq snapshot
    have hr := hplain r List.mem_cons_self
    rw [List.flatMap_cons, hfollowed, List.cons_append,
      List.takeWhile_cons_of_neg (by simpa using hr)]

/-- What comes directly behind a trace is the storage of the contracts on its call stack. -/
theorem takeWhile_eq (h : Captured snapshot plain stored) {front rest : List Record}
    {state : VmState} {frames : List FrameRecord}
    (hsplit : stored = front ++ .trace state frames :: rest) :
    rest.takeWhile (·.kind = .storage) =
      TraceRecorder.storages snapshot (frames.map (·.scriptHash)) := by
  obtain ⟨rfl, hplain⟩ := h
  induction plain generalizing front with
  | nil => exact absurd hsplit.symm (by simp)
  | cons r later ih =>
    obtain ⟨hr, hlater⟩ := List.forall_mem_cons.mp hplain
    obtain ⟨behind, hfollowed, hbehind⟩ := r.exists_followed_eq snapshot
    rw [List.flatMap_cons] at hsplit
    cases front with
    | nil =>
      obtain rfl : r = .trace state frames := by
        rw [hfollowed] at hsplit
        exact (List.cons.inj hsplit).1
      have hrest : TraceRecorder.storages snapshot (frames.map (·.scriptHash)) ++
          later.flatMap (Record.followed snapshot) = rest := (List.cons.inj hsplit).2
      have hbehind : Captured snapshot later (later.flatMap (Record.followed snapshot)) :=
        ⟨rfl, hlater⟩
      rw [← hrest, List.takeWhile_append_of_pos (fun u hu ↦ by simp [kind_of_mem_storages hu]),
        hbehind.takeWhile_eq_nil, List.append_nil]
    | cons r' front =>
      rw [hfollowed] at hsplit
      have htail : behind ++ later.flatMap (Record.followed snapshot) =
          front ++ .trace state frames :: rest := (List.cons.inj hsplit).2
      -- The trace is not among the storage behind the first record.
      rcases List.append_eq_append_iff.mp htail with ⟨_, -, hsplit'⟩ | ⟨behind', hin, hsplit'⟩
      · exact ih hlater hsplit'
      · cases behind' with
        | nil =>
          have hbegin : later.flatMap (Record.followed snapshot) =
              [] ++ .trace state frames :: rest := hsplit'.symm
          exact ih hlater hbegin
        | cons u _ =>
          have hu : u ∈ behind := hin ▸ List.mem_append_right _ List.mem_cons_self
          rw [← (List.cons.inj hsplit').1] at hu
          exact absurd (hbehind _ hu) nofun

end Captured

/-! ### Events -/

namespace TraceRecorder

/-- The same recorder, which does not capture storage. -/
def muted (r : TraceRecorder) : TraceRecorder := { r with config := ⟨false⟩ }

theorem captured_block (view : View) :
    Captured view.snapshot (block ⟨false⟩ view) (block ⟨true⟩ view) where
  eq := by
    have hhashes : (view.frames.map Context.toRecord).map (·.scriptHash) =
        view.frames.map (·.scriptHash) := List.map_map
    simp [block, Record.followed, hhashes]
  plain r hr := by
    rw [block, if_neg Bool.false_ne_true, List.mem_singleton] at hr
    rw [hr]
    exact nofun

theorem captured_opening (view : View) :
    Captured view.snapshot (opening ⟨false⟩ view) (opening ⟨true⟩ view) := by
  have hscripts : Captured view.snapshot (scripts view.frames.reverse)
      (scripts view.frames.reverse) :=
    .of_kinds fun r hr ↦ by rw [kind_of_mem_scripts hr]; exact ⟨nofun, nofun⟩
  have hsettings (network : UInt32) (version : UInt8) : Captured view.snapshot
      [.settings network version] [.settings network version] := .single nofun nofun
  exact (hsettings _ _).append (hscripts.append (captured_block view))

/-- An event brings the same records to a recorder and to one that does not capture storage, storage
apart, and they remember the same. -/
structure Mutes (r : TraceRecorder) (n : Notice) : Prop where
  recorder : (r.muted.tell n).1 = (r.tell n).1.muted
  config : (r.tell n).1.config = r.config
  captured : Captured n.1.snapshot (r.muted.tell n).2 (r.tell n).2

/-- The records of some events show neither the call stack nor the storage. -/
theorem Mutes.of_kinds {r r' : TraceRecorder} {n : Notice} {rs : List Record}
    (hstored : r.tell n = (r', rs)) (hplain : r.muted.tell n = (r'.muted, rs))
    (hkept : r'.config = r.config)
    (hkinds : ∀ record ∈ rs, record.kind ≠ .trace ∧ record.kind ≠ .storage) : r.Mutes n where
  recorder := by rw [hplain, hstored]
  config := by rw [hstored, hkept]
  captured := by
    rw [hplain, hstored]
    exact .of_kinds hkinds

theorem mutes_postExecute {r : TraceRecorder} (hconfig : r.config = ⟨true⟩) (view : View)
    (i : Instruction) : r.Mutes (view, .postExecute i) := by
  obtain ⟨session, names, _, started, announced⟩ := r
  obtain rfl := hconfig.symm
  have hblock := captured_block view
  by_cases hhalt : view.state = .halt
  · have hresults : Captured view.snapshot
        [.results view.state view.gasConsumed view.resultStack]
        [.results view.state view.gasConsumed view.resultStack] := .single nofun nofun
    have hlast := hblock.append hresults
    constructor <;> simp only [tell, muted, if_pos hhalt]
    exact hlast
  · have hlast := hblock.append .nil
    constructor <;> simp only [tell, muted, if_neg hhalt]
    exact hlast

/-- A recorder that captures storage and one that does not remember the same of any event. -/
theorem tell_muted {r : TraceRecorder} (hconfig : r.config = ⟨true⟩) (n : Notice) :
    r.Mutes n := by
  obtain ⟨view, event⟩ := n
  obtain ⟨session, names, _, started, announced⟩ := r
  obtain rfl := hconfig.symm
  cases event with
  | contextLoaded c =>
    cases started with
    | false => exact .of_kinds rfl rfl rfl nofun
    | true =>
      refine .of_kinds rfl rfl rfl fun record hrecord ↦ ?_
      split at hrecord
      · cases hrecord
      · rw [List.mem_singleton.mp hrecord]
        exact ⟨nofun, nofun⟩
  | contextUnloaded c => exact .of_kinds rfl rfl rfl nofun
  | preExecute i =>
    cases started with
    | false => exact ⟨rfl, rfl, captured_opening view⟩
    | true => exact ⟨rfl, rfl, .nil⟩
  | postExecute i => exact mutes_postExecute rfl view i
  | fault exception =>
    have hfault : Captured view.snapshot [.fault exception] [.fault exception] :=
      .single nofun nofun
    have hblock := hfault.append (captured_block view)
    cases started with
    | false => exact ⟨rfl, rfl, (captured_opening view).append hblock⟩
    | true => exact ⟨rfl, rfl, hblock⟩
  | log event =>
    by_cases hsender : event.sender = session
    · exact .of_kinds (if_pos hsender) (if_pos hsender) rfl (by simp [Record.kind])
    · exact .of_kinds (if_neg hsender) (if_neg hsender) rfl nofun
  | notify event =>
    by_cases hsender : event.sender = session
    · exact .of_kinds (if_pos hsender) (if_pos hsender) rfl (by simp [Record.kind])
    · exact .of_kinds (if_neg hsender) (if_neg hsender) rfl nofun

end TraceRecorder

/-! ### Sinks beside other states -/

/-- A sink accepts every record and every flush, and flushing keeps the records. -/
structure Sink.Accepts {τ : Type} (sink : Sink τ) (records : τ → List Record) : Prop
    extends sink.Keeps records where
  flush : ∀ t, ∃ t', sink.flush t = .ok () t' ∧ records t' = records t

theorem MemorySink.accepts : MemorySink.sink.Accepts MemorySink.records where
  toKeeps := MemorySink.keeps
  flush t := ⟨t, rfl, rfl⟩

section Beside

variable {τ ω : Type} {sink : Sink τ} {records : τ → List Record}

theorem Sink.Keeps.onFirst (h : sink.Keeps records) :
    (sink.onFirst : Sink (τ × ω)).Keeps fun s ↦ records s.1 where
  write record s := by
    obtain ⟨t', hrun, hrecords⟩ := h.write record s.1
    have hfirst : sink.write record s.1 = resultOf (.ok ()) t' := hrun
    exact ⟨(t', s.2), onFirst_eq hfirst s.2, hrecords⟩
  nameContract name s := h.nameContract name s.1

theorem Sink.onFirst_preserves (sink : Sink τ) (other : ω) :
    (sink.onFirst : Sink (τ × ω)).Preserves fun s ↦ s.2 = other where
  write record s h := by
    obtain ⟨answer, t', hrun⟩ := exists_resultOf (sink.write record) s.1
    have hfirst : sink.onFirst.write record s = resultOf answer (t', s.2) := onFirst_eq hrun s.2
    unfold Ends
    rw [hfirst]
    cases answer <;> exact h
  nameContract name s h := h

end Beside

/-! ### Sessions -/

namespace TraceRecorder

variable {τ ω : Type} {sink : Sink τ} {records : τ → List Record} {snapshot : Snapshot}
  {before : List Record}

/-- A recorder that captures storage, and the same one that does not: since some records before, its
sink has kept the same records without storage. Other observers are in the same state. -/
def capturing (ω : Type) (records : τ → List Record) (snapshot : Snapshot)
    (before : List Record) : Likeness (TraceRecorder × τ × ω) (TraceRecorder × τ × ω) where
  records _ := []
  sound s := s.1.Fresh ∧ s.1.config = ⟨true⟩
  like s s' := s'.1 = s.1.muted ∧ s'.2.2 = s.2.2 ∧ ∃ plain stored,
    records s.2.1 = before ++ stored ∧ records s'.2.1 = before ++ plain ∧
      Captured snapshot plain stored

theorem matches_capturing (hsink : sink.Keeps records) (raises : TracerError → Prop) :
    (observer sink.onFirst).Matches (capturing ω records snapshot before) raises
      (fun n ↦ n.1.snapshot = snapshot) (observer sink.onFirst) := by
  rintro view event ⟨r, t, other⟩ rfl ⟨hfresh, hconfig⟩
  have hemits {r : TraceRecorder} (hfresh : r.Fresh) (t : τ) :
      ∃ t', (observer sink.onFirst).notice view event (r, t, other) =
        .ok () ((r.tell (view, event)).1, t', other) ∧
        records t' = records t ++ (r.tell (view, event)).2 := by
    obtain ⟨⟨⟩, ⟨_, t', other'⟩, hrun, rfl, hrecords⟩ :=
      emits_tell hsink.onFirst hfresh (view, event) (t, other)
    have hkept : other' = other :=
      (observer_keeps (sink.onFirst_preserves other) view event (r, t, other) rfl).of_ok hrun
    exact ⟨t', hkept ▸ hrun, hrecords⟩
  obtain ⟨hnext, hkept, hcaptured⟩ := tell_muted hconfig (view, event)
  obtain ⟨t₁, hrun, hrecords⟩ := hemits hfresh t
  refine ⟨.ok (), _, hrun, ⟨hfresh.tell _, hkept.trans hconfig⟩, List.prefix_rfl, nofun,
    fun _ s' hs' ↦ ?_⟩
  obtain ⟨r', t', other'⟩ := s'
  obtain ⟨hrecorder, hother, plain, stored, hstored, hplain, hbefore⟩ := hs'
  obtain rfl : r' = r.muted := hrecorder
  obtain rfl : other' = other := hother
  obtain ⟨t₁', hrun', hrecords'⟩ := hemits (r := r.muted) hfresh t'
  refine ⟨_, hrun', hnext, rfl, _, _, ?_, ?_, hbefore.append hcaptured⟩
  · rw [hrecords, hstored, List.append_assoc]
  · rw [hrecords', hplain, List.append_assoc]

/-- Observers that see the other states only. -/
theorem matches_capturing_beside (o : Observer ω) :
    (o.onSecond.onSecond : Observer (TraceRecorder × τ × ω)).Matches
      (capturing ω records snapshot before) (fun _ ↦ True) (fun n ↦ n.1.snapshot = snapshot)
      o.onSecond.onSecond := by
  rintro view event ⟨r, t, other⟩ - hs
  obtain ⟨answer, next, hrun⟩ := exists_resultOf (o.notice view event) other
  refine ⟨answer, (r, t, next), onSecond_eq (onSecond_eq hrun t) r, hs, List.prefix_rfl,
    fun _ _ ↦ trivial, fun _ s' hs' ↦ ?_⟩
  obtain ⟨r', t', other'⟩ := s'
  obtain ⟨hrecorder, hother, hrecords⟩ := hs'
  obtain rfl : other' = other := hother
  exact ⟨(r', t', next), onSecond_eq (onSecond_eq hrun t') r', hrecorder, rfl, hrecords⟩

theorem matches_capturing_flush (hsink : sink.Accepts records) (raises : TracerError → Prop)
    {s : TraceRecorder × τ × ω} (hs : (capturing ω records snapshot before).sound s) :
    Matches (capturing ω records snapshot before) raises (onSecond sink.onFirst.flush)
      (onSecond sink.onFirst.flush) s := by
  have hflush (r : TraceRecorder) (t : τ) (other : ω) : ∃ t',
      onSecond sink.onFirst.flush (r, t, other) = .ok () (r, t', other) ∧
        records t' = records t := by
    obtain ⟨t', hrun, hrecords⟩ := hsink.flush t
    have hfirst : sink.flush t = resultOf (.ok ()) t' := hrun
    exact ⟨t', onSecond_eq (onFirst_eq hfirst other) r, hrecords⟩
  obtain ⟨r, t, other⟩ := s
  obtain ⟨t₁, hrun, hrecords⟩ := hflush r t other
  refine ⟨.ok (), _, hrun, hs, List.prefix_rfl, nofun, fun _ s' hs' ↦ ?_⟩
  obtain ⟨r', t', other'⟩ := s'
  obtain ⟨hrecorder, hother, plain, stored, hstored, hplain, hcaptured⟩ := hs'
  obtain ⟨t₁', hrun', hrecords'⟩ := hflush r' t' other'
  exact ⟨_, hrun', hrecorder, hother, plain, stored, hrecords.trans hstored,
    hrecords'.trans hplain, hcaptured⟩

end TraceRecorder

/-! ### Engines -/

/-- A record holds the storage of the contract that is deployed under a hash: the entries stored
under its number, in ascending order of key. -/
def Record.Stores (snapshot : Snapshot) (hash : Hash) (record : Record) : Prop :=
  ∃ contract entries, snapshot.contract? hash = some contract ∧ contract.hash = hash ∧
    record = .storage hash entries ∧ (entries.Pairwise fun e f ↦ e.key < f.key) ∧
    ∀ entry, entry ∈ entries ↔ (⟨contract.id, entry.key⟩, entry.value) ∈ snapshot.storage

/-- There is one such record for each hash of a deployed contract. -/
theorem TraceRecorder.forall₂_storages (snapshot : Snapshot) (hashes : List Hash) :
    List.Forall₂ (Record.Stores snapshot)
      (hashes.eraseDups.filter fun hash ↦ (snapshot.contract? hash).isSome)
      (storages snapshot hashes) := by
  unfold storages
  induction hashes.eraseDups with
  | nil => exact .nil
  | cons hash rest ih =>
    cases hcontract : snapshot.contract? hash with
    | none =>
      rw [List.filter_cons_of_neg (by simp [hcontract]),
        List.filterMap_cons_none (by simp [hcontract])]
      exact ih
    | some c =>
      have hhash : c.hash = hash := snapshot.hash_eq hash c hcontract
      have hrecord : ((snapshot.contract? hash).map fun c ↦
          Record.storage c.hash (snapshot.storageOf c.id)) =
            some (.storage hash (snapshot.storageOf c.id)) := by
        rw [hcontract, Option.map_some, hhash]
      rw [List.filter_cons_of_pos (by simp [hcontract])]
      simp only [List.filterMap_cons, hrecord]
      exact .cons ⟨c, _, hcontract, hhash, rfl, snapshot.storageOf_ordered c.id,
        fun _ ↦ Snapshot.mem_storageOf⟩ ih

namespace TraceEngine

section Capturing

variable {τ ω : Type} {sink : Sink τ} {records : τ → List Record} {checker : Option WitnessChecker}
  {session : Session StackMachine ω} {before : List Record}

/-- An engine that captures storage, and one over the same session that does not. -/
def capturing (sink : Sink τ) (records : τ → List Record) (checker : Option WitnessChecker)
    (session : Session StackMachine ω) (before : List Record) :
    Likeness (TraceEngine StackMachine (τ × ω) × τ × ω)
      (TraceEngine StackMachine (τ × ω) × τ × ω) :=
  (TraceRecorder.capturing ω records session.machine.snapshot before).engine
    (·.snapshot = session.machine.snapshot) (Engine.witnessed checker session.overrides)
    (observers sink.onFirst session) (observers sink.onFirst session)

theorem matches_capturing_observers (hsink : sink.Keeps records) :
    List.Forall₂ (fun o o' ↦ o.2.Matches
        (TraceRecorder.capturing ω records session.machine.snapshot before) (fun _ ↦ True)
        (fun n ↦ n.1.snapshot = session.machine.snapshot) o'.2)
      (observers sink.onFirst session) (observers sink.onFirst session) := by
  refine List.forall₂_same.mpr fun o ho ↦ ?_
  rcases List.mem_append.mp ho with hother | hrecorder
  · obtain ⟨p, -, rfl⟩ := List.mem_map.mp hother
    exact TraceRecorder.matches_capturing_beside p.2
  · rw [List.mem_singleton.mp hrecorder]
    exact TraceRecorder.matches_capturing hsink _

theorem sound_capturing_start (names : NameCache) (t : τ) (host : ω) :
    (capturing sink records checker session before).sound
      (start sink.onFirst ⟨true⟩ names checker session.widen, (t, host)) := by
  refine ⟨?_, fun _ ↦ ?_⟩
  · rw [recorder_start]
    exact ⟨fun _ ↦ rfl, rfl⟩
  · rw [session_start]
    exact ⟨rfl, rfl, rfl⟩

theorem like_capturing_start (names : NameCache) (t : τ) (host : ω) :
    (capturing sink records checker session (records t)).like
      (start sink.onFirst ⟨true⟩ names checker session.widen, (t, host))
      (start sink.onFirst ⟨false⟩ names checker session.widen, (t, host)) := by
  have hnone : records t = records t ++ [] := (List.append_nil _).symm
  refine ⟨?_, ⟨?_, rfl, [], [], hnone, hnone, .nil⟩, fun _ ↦ ?_⟩
  · cases checker <;> rfl
  · rw [recorder_start, recorder_start]
    rfl
  · rw [session_start, session_start]
    rfl

theorem matches_capturing_perform (haccepts : sink.Accepts records) (call : EngineCall)
    {s : TraceEngine StackMachine (τ × ω) × τ × ω}
    (hs : (capturing sink records checker session before).sound s) :
    Matches (capturing sink records checker session before) (fun _ ↦ True)
      (call.perform sink.onFirst) (call.perform sink.onFirst) s :=
  call.matches_perform (matches_capturing_observers haccepts.toKeeps)
    (fun _ hs ↦ TraceRecorder.matches_capturing_flush haccepts _ hs)
    (StackMachine.preserved_snapshot _ _) trivial hs

end Capturing

end TraceEngine

/-- Assumes: a sink that accepts every record. Calls on an engine that captures storage and on one
that does not have the same answers and leave the same behind, but for the records. Those without
capture are those with it, storage removed. With capture, directly behind every trace is the storage
of each deployed contract on its call stack, once, from the top frame down. -/
theorem storage_captured {τ ω : Type} {sink : Sink τ} {records : τ → List Record}
    (haccepts : sink.Accepts records) (names : NameCache) (checker : Option WitnessChecker)
    (session : Session StackMachine ω) (calls : List EngineCall) (t : τ) (host : ω) :
    let snapshot := session.machine.snapshot
    let start (capture : Bool) : TraceEngine StackMachine (τ × ω) :=
      TraceEngine.start sink.onFirst ⟨capture⟩ names checker session.widen
    ∃ answers e e' t₁ t₁' host' stored plain,
      EngineCall.performEach sink.onFirst calls (start true, (t, host)) =
        .ok answers (e, (t₁, host')) ∧
      EngineCall.performEach sink.onFirst calls (start false, (t, host)) =
        .ok answers (e', (t₁', host')) ∧
      records t₁ = records t ++ stored ∧ records t₁' = records t ++ plain ∧
      plain = stored.filter (·.kind ≠ .storage) ∧
      ∀ front state frames rest, stored = front ++ .trace state frames :: rest →
        List.Forall₂ (Record.Stores snapshot)
          ((frames.map (·.scriptHash)).eraseDups.filter fun hash ↦
            (snapshot.contract? hash).isSome)
          (rest.takeWhile (·.kind = .storage)) := by
  intro snapshot start
  obtain ⟨answers, ⟨e, t₁, host'⟩, hrun, -, -, -, hsame⟩ :=
    Matches.attempts (fun call _ hs ↦ TraceEngine.matches_capturing_perform haccepts call hs) calls
      (TraceEngine.sound_capturing_start names t host)
  obtain ⟨⟨e', t₁', other⟩, hrun', -, ⟨-, hother, plain, stored, hstored, hplain, hcaptured⟩, -⟩ :=
    hsame nofun _ (TraceEngine.like_capturing_start names t host)
  obtain rfl : other = host' := hother
  refine ⟨answers, e, e', t₁, t₁', other, stored, plain, hrun, hrun', hstored, hplain,
    hcaptured.plain_eq_filter, fun front state frames rest hsplit ↦ ?_⟩
  rw [hcaptured.takeWhile_eq hsplit]
  exact TraceRecorder.forall₂_storages snapshot _

/-- A deployed contract is on the call stack twice, and its storage stands once behind the trace
that shows the two frames. Its entries were put in descending order. -/
theorem storage_captured_of_memory :
    let contract : Contract := ⟨3, Hash.ofScript [Opcode.ret], "Vault", .make "" "" [Opcode.ret]⟩
    let snapshot := ((Snapshot.empty.deploy contract).put 3 [2] [20]).put 3 [1] [10]
    let session : Session StackMachine Unit := .ofMachine (.create ⟨1⟩ snapshot .default [])
    let calls : List EngineCall := [.load [Opcode.ret], .load [Opcode.ret], .execute 9, .dispose]
    let run (capture : Bool) := EngineCall.performEach MemorySink.sink.onFirst calls
      (TraceEngine.start MemorySink.sink.onFirst ⟨capture⟩ .empty none session.widen, (.empty, ()))
    MemorySink.sink.Accepts MemorySink.records ∧
      snapshot.storageOf 3 = [⟨[1], [10]⟩, ⟨[2], [20]⟩] ∧
      ∃ answers e e' t t', run true = .ok answers (e, (t, ())) ∧
        run false = .ok answers (e', (t', ())) ∧
        t'.records = t.records.filter (·.kind ≠ .storage) ∧
        ∃ front state frames rest record, t.records = front ++ .trace state frames :: rest ∧
          frames.map (·.scriptHash) = [contract.hash, contract.hash] ∧
          rest.takeWhile (·.kind = .storage) = [record] ∧
          Record.Stores snapshot contract.hash record := by
  intro contract snapshot session calls run
  obtain ⟨answers, e, e', t, t', _, stored, plain, hrun, hrun', hstored, hplain, hfilter,
    hcaptured⟩ := storage_captured MemorySink.accepts .empty none session calls .empty ()
  obtain rfl : t.records = stored := hstored
  obtain rfl : t'.records = plain := hplain
  have htwice : (match run true with
      | .ok _ next => next.2.1.records.any fun
        | .trace _ frames => frames.map (·.scriptHash) = [contract.hash, contract.hash]
        | _ => false
      | .error _ _ => false) = true := by decide +kernel
  rw [show run true = .ok answers (e, (t, ())) from hrun] at htwice
  obtain ⟨shown, hshown, hframes⟩ := List.any_eq_true.mp htwice
  cases shown with
  | trace state frames =>
    obtain ⟨front, rest, hsplit⟩ := List.append_of_mem hshown
    have hframes : frames.map (·.scriptHash) = [contract.hash, contract.hash] :=
      of_decide_eq_true hframes
    have hstorage := hcaptured front state frames rest hsplit
    have honce : ([contract.hash, contract.hash].eraseDups.filter fun hash ↦
        (snapshot.contract? hash).isSome) = [contract.hash] := by decide +kernel
    rw [hframes, show session.machine.snapshot = snapshot from rfl, honce] at hstorage
    obtain ⟨record, _, hstores, hnil, hrecords⟩ := List.forall₂_cons_left_iff.mp hstorage
    rw [List.forall₂_nil_left_iff.mp hnil] at hrecords
    exact ⟨MemorySink.accepts, by decide, answers, e, e', t, t', hrun, hrun', hfilter, front, state,
      frames, rest, record, hsplit, hframes, hrecords, hstores⟩
  | _ => cases hframes

end ScriptTrace
