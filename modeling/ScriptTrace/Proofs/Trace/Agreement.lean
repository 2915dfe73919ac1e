import ScriptTrace.Proofs.Trace.Emission
import ScriptTrace.Proofs.Trace.Likeness
import ScriptTrace.Proofs.Trace.Room

/-!
One trace in three forms. However a sink is called, its `write` receives the same records; a sink in
memory keeps them, and what a binary sink hands to a writer without limits reads back as them. This
carries over to a stack machine under trace, because nothing that it shows is too deep for an
encoding: the same run leaves the same records in memory and in bytes
(`BinarySink.reads_back_memory`).
-/

set_option autoImplicit false
set_option relaxedAutoImplicit false

namespace ScriptTrace

/-! ### Calls of a sink -/

/-- A call of a sink. -/
inductive SinkCall where
  | settings (settings : Settings)
  | script (hash : Hash) (code : Bytes)
  | trace (state : VmState) (frames : List FrameRecord)
  | storages (hash : Hash) (entries : List StorageEntry)
  | log (hash : Hash) (name message : String)
  | notify (hash : Hash) (name eventName : String) (state : List Item)
  | results (state : VmState) (gas : Int64) (stack : List Item)
  | fault (exception : String)
  | write (record : Record)
  | flush

namespace SinkCall

/-- The record of a call. -/
def record? : SinkCall → Option Record
  | settings s => some (.settings s.network s.addressVersion)
  | script hash code => some (.script hash code)
  | trace state frames => some (.trace state frames)
  | storages hash entries => some (.storage hash entries)
  | log hash _ message => some (.log hash message)
  | notify hash _ eventName state => some (.notify hash eventName state)
  | results state gas stack => some (.results state gas stack)
  | fault exception => some (.fault exception)
  | write record => some record
  | flush => none

variable {τ : Type} (sink : Sink τ)

/-- Make a call. -/
def perform : SinkCall → EStateM TracerError τ Unit
  | settings s => sink.settings s
  | script hash code => sink.script hash code
  | trace state frames => sink.trace state frames
  | storages hash entries => sink.storages hash entries
  | log hash name message => sink.log hash name message
  | notify hash name eventName state => sink.notify hash name eventName state
  | results state gas stack => sink.results state gas stack
  | fault exception => sink.fault exception
  | write record => sink.write record
  | flush => sink.flush

/-- Make calls one after the other and go on after failures. -/
def performEach (calls : List SinkCall) :
    EStateM TracerError τ (List (Except TracerError Unit)) :=
  calls.mapM fun call ↦ attempt (call.perform sink)

/-- A call is a flush, or it writes its record, perhaps under the name of a contract. -/
theorem perform_cases (call : SinkCall) :
    (call.record? = none ∧ ∀ {τ : Type} (sink : Sink τ), call.perform sink = sink.flush) ∨
      ∃ record, call.record? = some record ∧
        ((∀ {τ : Type} (sink : Sink τ), call.perform sink = sink.write record) ∨
          ∃ name, ∀ {τ : Type} (sink : Sink τ), call.perform sink =
            modify (sink.nameContract name) >>= fun _ ↦ sink.write record) := by
  cases call with
  | flush => exact .inl ⟨rfl, fun _ ↦ rfl⟩
  | log hash name message => exact .inr ⟨_, rfl, .inr ⟨name, fun _ ↦ rfl⟩⟩
  | notify hash name eventName state => exact .inr ⟨_, rfl, .inr ⟨name, fun _ ↦ rfl⟩⟩
  | _ => exact .inr ⟨_, rfl, .inl fun _ ↦ rfl⟩

end SinkCall

/-! ### What a sink receives -/

/-- A sink with a list of the records that its `write` has received. -/
structure Sink.Hears {τ : Type} (sink : Sink τ) (heard : τ → List Record) : Prop where
  write : ∀ record t, ∃ answer t', sink.write record t = resultOf answer t' ∧
    heard t' = heard t ++ [record]
  flush : ∀ t, ∃ answer t', sink.flush t = resultOf answer t' ∧ heard t' = heard t
  nameContract : ∀ name t, heard (sink.nameContract name t) = heard t

theorem MemorySink.hears : sink.Hears records where
  write _ _ := ⟨.ok (), _, rfl, rfl⟩
  flush t := ⟨.ok (), t, rfl, rfl⟩
  nameContract _ _ := rfl

/-- A sink, and a list of what its `write` receives. -/
def Sink.overheard {τ : Type} (sink : Sink τ) : Sink (List Record × τ) where
  write record := do
    modify fun (heard, t) ↦ (heard ++ [record], t)
    onSecond (sink.write record)
  flush := onSecond sink.flush
  nameContract name s := (s.1, sink.nameContract name s.2)

theorem Sink.hears_overheard {τ : Type} (sink : Sink τ) : sink.overheard.Hears Prod.fst where
  write record := by
    rintro ⟨heard, t⟩
    obtain ⟨answer, t', hrun⟩ := exists_resultOf (sink.write record) t
    exact ⟨answer, (heard ++ [record], t'), onSecond_eq hrun _, rfl⟩
  flush := by
    rintro ⟨heard, t⟩
    obtain ⟨answer, t', hrun⟩ := exists_resultOf sink.flush t
    exact ⟨answer, (heard, t'), onSecond_eq hrun _, rfl⟩
  nameContract _ _ := rfl

namespace SinkCall

variable {τ : Type} {sink : Sink τ} {heard : τ → List Record}

theorem exists_perform (hsink : sink.Hears heard) (call : SinkCall) (t : τ) : ∃ answer t',
    call.perform sink t = resultOf answer t' ∧ heard t' = heard t ++ call.record?.toList := by
  rcases call.perform_cases with ⟨hnone, hflush⟩ | ⟨record, hrecord, hwrite | ⟨name, hnamed⟩⟩
  · obtain ⟨answer, t', hrun, hheard⟩ := hsink.flush t
    refine ⟨answer, t', by rw [hflush, hrun], ?_⟩
    rw [hheard, hnone, Option.toList_none, List.append_nil]
  · obtain ⟨answer, t', hrun, hheard⟩ := hsink.write record t
    refine ⟨answer, t', by rw [hwrite, hrun], ?_⟩
    rw [hheard, hrecord, Option.toList_some]
  · obtain ⟨answer, t', hrun, hheard⟩ := hsink.write record (sink.nameContract name t)
    refine ⟨answer, t', ?_, ?_⟩
    · rw [hnamed]
      exact hrun
    · rw [hheard, hsink.nameContract, hrecord, Option.toList_some]

/-- A sink receives the records of the calls, in their order. -/
theorem exists_performEach (hsink : sink.Hears heard) (calls : List SinkCall) (t : τ) :
    ∃ answers t', performEach sink calls t = .ok answers t' ∧
      heard t' = heard t ++ calls.filterMap record? := by
  induction calls generalizing t with
  | nil => exact ⟨[], t, rfl, (List.append_nil _).symm⟩
  | cons call rest ih =>
    obtain ⟨answer, t₁, hfirst, hheard₁⟩ := exists_perform hsink call t
    obtain ⟨answers, t', hrest, hheard⟩ := ih t₁
    refine ⟨answer :: answers, t', mapM_attempt_cons hfirst hrest, ?_⟩
    rw [hheard, hheard₁, List.append_assoc, List.filterMap_cons]
    cases call.record? <;> rfl

/-- Assumes: sinks that match each other at all records. So do calls of them. -/
theorem matches_perform {τ' : Type} {sink' : Sink τ'} {L : Likeness τ τ'}
    {raises : TracerError → Prop} (hsinks : sink.Matches L raises (fun _ ↦ True) sink')
    (call : SinkCall) (t : τ) (ht : L.sound t) :
    Matches L raises (call.perform sink) (call.perform sink') t := by
  rcases call.perform_cases with ⟨-, hflush⟩ | ⟨record, -, hwrite | ⟨name, hnamed⟩⟩
  · rw [hflush, hflush]
    exact hsinks.flush t ht
  · rw [hwrite, hwrite]
    exact hsinks.write record t trivial ht
  · rw [hnamed, hnamed]
    exact hsinks.named name trivial ht

/-- A call of a binary sink whose record has no encoding. -/
theorem perform_of_error {w : Writer τ} {call : SinkCall} {record : Record} {e : CodecError}
    (hrecord : call.record? = some record) (hencode : record.encode = .error e)
    (s : BinarySink τ) : call.perform (BinarySink.sink w) s = .error (.codec e) s := by
  have hrefused := BinarySink.write_of_error (w := w) hencode s
  rcases call.perform_cases with ⟨hnone, -⟩ | ⟨record', hrecord', hwrite | ⟨name, hnamed⟩⟩
  · cases hnone.symm.trans hrecord
  · obtain rfl := Option.some.inj (hrecord.symm.trans hrecord')
    rw [hwrite, hrefused]
  · obtain rfl := Option.some.inj (hrecord.symm.trans hrecord')
    rw [hnamed]
    exact hrefused

end SinkCall

/-! ### Records in memory and in bytes -/

theorem Record.encodes_of_fits {r : Record} (hfits : r.Fits) (hshallow : r.Shallow) :
    r.Encodes := by
  obtain ⟨bs, hbs⟩ := (encodable_fields hfits).ok hshallow
  exact ⟨_, by rw [encode, hbs]⟩

namespace BinarySink

variable {τ : Type} {w : Writer τ} {ready : τ → Prop} {taken : τ → Bytes}

/-- A binary sink has handed on the encodings of allowed records that are kept in memory. -/
def likeness (ready : τ → Prop) (taken : τ → Bytes) (allows : Record → Prop) :
    Likeness MemorySink (BinarySink τ) where
  records := MemorySink.records
  sound s := ∀ r ∈ s.records, allows r
  like s s' := ready s'.inner ∧ taken s'.inner = (Record.encodings s.records).flatten ∧
    s'.written = s.records.length

theorem matches_memory (hw : w.Unlimited ready taken) (raises : TracerError → Prop)
    (allows : Record → Prop) :
    MemorySink.sink.Matches (likeness ready taken allows) raises allows (sink w) where
  write record s hrecord hs := by
    refine ⟨.ok (), { s with records := s.records ++ [record] }, rfl, ?_,
      List.prefix_append _ _, nofun, ?_⟩
    · exact List.forall_mem_append.mpr ⟨hs, List.forall_mem_singleton.mpr hrecord⟩
    · rintro hall s' ⟨hready, htaken, hwritten⟩
      obtain ⟨bs, hencode⟩ := hall record (List.mem_append_right _ (List.mem_singleton_self record))
      obtain ⟨t, hwrite, hready', htaken', -⟩ :=
        write_of_fits hw.bounded hencode hready fun left hleft ↦ nomatch hleft
      have hencodings : Record.encodings (s.records ++ [record]) =
          Record.encodings s.records ++ [bs] := by
        rw [Record.encodings, List.filterMap_append]
        exact congrArg _ (Record.encodings_cons_of_ok hencode [])
      refine ⟨_, hwrite, hready', ?_, ?_⟩
      · change taken t = (Record.encodings (s.records ++ [record])).flatten
        rw [htaken', htaken, hencodings, List.flatten_append, List.flatten_singleton]
      · change s'.written + 1 = (s.records ++ [record]).length
        rw [hwritten, List.length_append, List.length_singleton]
  flush s hs := by
    refine ⟨.ok (), s, rfl, hs, List.prefix_rfl, nofun, ?_⟩
    rintro - s' ⟨hready, htaken, hwritten⟩
    obtain ⟨t, hflush, hready', htaken'⟩ := hw.flush s'.inner hready
    refine ⟨{ s' with inner := t }, ?_, hready', htaken'.trans htaken, hwritten⟩
    simp only [sink, onInner, failingWith, hflush]
    rfl
  nameContract name s hs := .modify hs rfl fun s' hlike ↦ hlike

theorem like_empty {t : τ} (hready : ready t) (hempty : taken t = []) (allows : Record → Prop) :
    (likeness ready taken allows).like .empty ⟨t, 0⟩ :=
  ⟨hready, hempty, rfl⟩

/-- Assumes: records with encodings. What was handed on reads back as the records. -/
theorem readAll_of_like {allows : Record → Prop} {s : MemorySink} {s' : BinarySink τ}
    (hlike : (likeness ready taken allows).like s s') (hall : ∀ r ∈ s.records, r.Encodes) :
    Record.readAll (taken s'.inner) = .ok s.records ∧ s'.written = s.records.length := by
  obtain ⟨-, htaken, hwritten⟩ := hlike
  have hencodable : Record.encodable s.records = s.records := by
    refine List.filter_eq_self.mpr fun r hr ↦ ?_
    obtain ⟨bs, hbs⟩ := hall r hr
    rw [hbs]
    rfl
  have hscan := Record.scan_flatten_append (Record.forall₂_encodings s.records) []
  rw [List.append_nil, Record.scan_nil, List.append_nil, hencodable, ← htaken] at hscan
  exact ⟨Record.readAll_eq_ok_iff.mpr hscan, hwritten⟩

section ReadBack

variable (hw : w.Unlimited ready taken) {t : τ} (hready : ready t) (hempty : taken t = [])
include hw hready hempty

/-- Assumes: a writer without limits that has taken nothing. -/
theorem calls_read_back (calls : List SinkCall) :
    let records := calls.filterMap SinkCall.record?
    ∃ answers mem, SinkCall.performEach MemorySink.sink calls .empty = .ok answers mem ∧
      mem.records = records ∧ (∀ e, .error e ∉ answers) ∧
      ((∀ r ∈ records, r.Encodes) → ∃ bin,
        SinkCall.performEach (sink w) calls ⟨t, 0⟩ = .ok answers bin ∧
        Record.readAll (taken bin.inner) = .ok records ∧ bin.written = records.length) := by
  intro records
  obtain ⟨answers, mem, hrun, hrecords⟩ :=
    SinkCall.exists_performEach MemorySink.hears calls .empty
  change mem.records = records at hrecords
  have hsinks := matches_memory hw (fun _ ↦ False) fun _ ↦ True
  obtain ⟨answers', mem', hrun', -, -, hfails, hlike⟩ :=
    Matches.attempts (SinkCall.matches_perform hsinks) calls (s := .empty) fun _ _ ↦ trivial
  obtain ⟨rfl, rfl⟩ := EStateM.Result.ok.inj (hrun'.symm.trans hrun)
  refine ⟨answers', mem', hrun, hrecords, hfails, fun hall ↦ ?_⟩
  rw [← hrecords] at hall ⊢
  obtain ⟨bin, hbin, hend⟩ := hlike hall ⟨t, 0⟩ (like_empty hready hempty _)
  exact ⟨bin, hbin, readAll_of_like hend hall⟩

/-- Assumes: a writer without limits that has taken nothing, and a machine and a session without
replaced system calls. -/
theorem run_reads_back {ω : Type} {session : Session StackMachine ω}
    (hreached : session.machine.Reached) (hoverrides : session.overrides = .empty)
    (config : TraceConfig) (names : NameCache) (checker : Option WitnessChecker)
    (calls : List EngineCall) (host : ω) :
    ∃ answers e mem host', EngineCall.performEach MemorySink.sink.onFirst calls
        (TraceEngine.start MemorySink.sink.onFirst config names checker session.widen,
          (.empty, host)) = .ok answers (e, (mem, host')) ∧
      (∀ err, .error err ∈ answers → err = .sessionClosed ∨ session.Raises err) ∧
      ((∀ r ∈ mem.records, r.Fits) → ∃ e' bin, EngineCall.performEach (sink w).onFirst calls
          (TraceEngine.start (sink w).onFirst config names checker session.widen,
            (⟨t, 0⟩, host)) = .ok answers (e', (bin, host')) ∧
        Record.readAll (taken bin.inner) = .ok mem.records ∧
        bin.written = mem.records.length) := by
  have hinv : Preserved (Engine.witnessed checker session.overrides) StackMachine.shallow.Holds
      Notice.Shallow := by
    rw [hoverrides]
    exact StackMachine.preserved_shallow
      ((Overrides.answer_empty _).witnessed StackMachine.shallow.boolean checker)
  have hsinks := matches_memory hw (TraceEngine.MayAnswer session) Record.Shallow
  obtain ⟨answers, e, mem, host', hrun, hshallow, hfails, hlike⟩ :=
    TraceEngine.exists_performEach hsinks config names checker hinv hreached.shallow
      (t := .empty) nofun calls host
  refine ⟨answers, e, mem, host', hrun, hfails, fun hfits ↦ ?_⟩
  have hall : ∀ r ∈ mem.records, r.Encodes := fun r hr ↦
    Record.encodes_of_fits (hfits r hr) (hshallow r hr)
  obtain ⟨e', bin, hbin, hend⟩ := hlike hall ⟨t, 0⟩ (like_empty hready hempty _)
  exact ⟨e', bin, hbin, readAll_of_like hend hall⟩

/-- Assumes: a writer without limits that has taken nothing. Whatever calls a sink gets, its `write`
receives their records in their order; a sink in memory keeps these, and if they have encodings the
bytes of a binary sink read back as these, and it has counted them. A call whose record has no
encoding is answered with the reason, and changes nothing. So it is for a stack machine that was
never under replaced system calls and now runs under trace: whatever the host asks of the engine, an
engine over a binary sink answers what one over a sink in memory does, if the lengths in the records
fit, and its bytes read back as the records in memory. An engine fails by itself only where it has
been disposed of; any other error is that of another observer. -/
theorem reads_back_memory :
    (∀ calls : List SinkCall,
      let records := calls.filterMap SinkCall.record?
      (∀ {υ : Type} (other : Sink υ) (u : υ), ∃ answers u',
        SinkCall.performEach other.overheard calls ([], u) = .ok answers (records, u')) ∧
      ∃ answers mem, SinkCall.performEach MemorySink.sink calls .empty = .ok answers mem ∧
        mem.records = records ∧ (∀ e, .error e ∉ answers) ∧
        ((∀ r ∈ records, r.Encodes) → ∃ bin,
          SinkCall.performEach (sink w) calls ⟨t, 0⟩ = .ok answers bin ∧
          Record.readAll (taken bin.inner) = .ok records ∧ bin.written = records.length)) ∧
    (∀ (call : SinkCall) record e, call.record? = some record → record.encode = .error e →
      ∀ s, call.perform (sink w) s = .error (.codec e) s) ∧
    ∀ {ω : Type} (session : Session StackMachine ω), session.machine.Reached →
      session.overrides = .empty → ∀ config names checker calls host,
      ∃ answers e mem host', EngineCall.performEach MemorySink.sink.onFirst calls
          (TraceEngine.start MemorySink.sink.onFirst config names checker session.widen,
            (.empty, host)) = .ok answers (e, (mem, host')) ∧
        (∀ err, .error err ∈ answers → err = .sessionClosed ∨ session.Raises err) ∧
        ((∀ r ∈ mem.records, r.Fits) → ∃ e' bin, EngineCall.performEach (sink w).onFirst calls
            (TraceEngine.start (sink w).onFirst config names checker session.widen,
              (⟨t, 0⟩, host)) = .ok answers (e', (bin, host')) ∧
          Record.readAll (taken bin.inner) = .ok mem.records ∧
          bin.written = mem.records.length) := by
  refine ⟨fun calls ↦ ⟨fun other u ↦ ?_, calls_read_back hw hready hempty calls⟩, ?_, ?_⟩
  · obtain ⟨answers, ⟨heard, u'⟩, hrun, hheard⟩ :=
      SinkCall.exists_performEach other.hears_overheard calls ([], u)
    obtain rfl : heard = _ := hheard
    exact ⟨answers, u', hrun⟩
  · exact fun call record e hrecord hencode s ↦ SinkCall.perform_of_error hrecord hencode s
  · exact fun session hreached hoverrides ↦ run_reads_back hw hready hempty hreached hoverrides

end ReadBack

/-- A script that pushes a truth value and aborts, traced into memory and into a pipe. -/
theorem reads_back_memory_of_pipe :
    let session : Session StackMachine Unit := ⟨.create ⟨1⟩ .empty .default [], [], 1, .empty⟩
    let code := [Opcode.pushTrue, Opcode.abort]
    let calls := [EngineCall.load code, .execute 9, .dispose]
    let answers := [.ok none, .ok (some .fault), .ok none]
    let frame (position : UInt32) (stack : List Item) : FrameRecord :=
      ⟨Hash.ofScript code, position, false, stack, [], [], []⟩
    let records := [Record.settings 860833102 53, .script (Hash.ofScript code) code,
      .trace .none [frame 0 []], .trace .none [frame 1 [.boolean true]],
      .fault "ABORT is executed.", .trace .fault [frame 2 [.boolean true]]]
    Pipe.writer.Unlimited (fun p ↦ p.quota = none ∧ p.flushError = none) Pipe.taken ∧
      ∃ e mem e' bin, EngineCall.performEach MemorySink.sink.onFirst calls
          (TraceEngine.start MemorySink.sink.onFirst .default .empty none session.widen,
            (.empty, ())) = .ok answers (e, (mem, ())) ∧
        EngineCall.performEach (sink Pipe.writer).onFirst calls
          (TraceEngine.start (sink Pipe.writer).onFirst .default .empty none session.widen,
            (⟨.unlimited, 0⟩, ())) = .ok answers (e', (bin, ())) ∧
        mem.records = records ∧ Record.readAll bin.inner.taken = .ok records ∧
        bin.written = 6 := by
  intro session code calls answers frame records
  obtain ⟨-, -, hengines⟩ := reads_back_memory Pipe.takesAll (t := .unlimited) ⟨rfl, rfl⟩ rfl
  obtain ⟨_, e, mem, _, hrun, -, hread⟩ :=
    hengines session (.create _ _ _ _) rfl .default .empty none calls ()
  obtain ⟨e₁, mem₁, hrun₁, hrecords⟩ : ∃ e₁ mem₁,
      EngineCall.performEach MemorySink.sink.onFirst calls
        (TraceEngine.start MemorySink.sink.onFirst .default .empty none session.widen,
          (.empty, ())) = .ok answers (e₁, (mem₁, ())) ∧ mem₁.records = records :=
    ⟨_, _, rfl, rfl⟩
  obtain ⟨rfl, hstate⟩ := EStateM.Result.ok.inj (hrun₁.symm.trans hrun)
  obtain ⟨rfl, hbeside⟩ := Prod.mk.inj hstate
  obtain ⟨rfl, rfl⟩ := Prod.mk.inj hbeside
  have hfits : ∀ r ∈ mem₁.records, r.Fits := by
    have hnil : FitsStack [] := ⟨by decide, trivial⟩
    have htrue : FitsStack [.boolean true] := ⟨by decide, trivial, trivial⟩
    have hframe (position : UInt32) {stack : List Item} (hstack : FitsStack stack) :
        ∀ f ∈ [frame position stack], f.Fits :=
      List.forall_mem_singleton.mpr ⟨hstack, hnil, hnil, hnil⟩
    have hcode : code.length < 2 ^ 32 := by decide
    have hfault : (Bytes.ofString "ABORT is executed.").length < 2 ^ 32 := by decide
    rw [hrecords]
    simp only [records, List.forall_mem_cons]
    exact ⟨trivial, hcode, ⟨by decide, hframe 0 hnil⟩, ⟨by decide, hframe 1 htrue⟩, hfault,
      ⟨by decide, hframe 2 htrue⟩, nofun⟩
  obtain ⟨e', bin, hbin, hback, hwritten⟩ := hread hfits
  rw [hrecords] at hback hwritten
  exact ⟨Pipe.takesAll, e₁, mem₁, e', bin, hrun, hbin, hrecords, hback, hwritten⟩

end BinarySink

end ScriptTrace
