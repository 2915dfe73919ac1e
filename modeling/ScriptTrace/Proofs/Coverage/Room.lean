import ScriptTrace.Proofs.Coverage.Artifacts
import ScriptTrace.Proofs.Coverage.Reader

/-!
A session whose log has room for so many bytes. Every operation but closing writes one line, which
the log takes as far as there is room, and nothing that happens to artifacts changes the log
(`CoverageWriter.perform_adds`). So after any operations the log is the front of the text of the
lines that were asked for before it was closed, and from its complete lines one reads what was
recorded (`CoverageWriter.log_within_room`).
-/

set_option autoImplicit false
set_option relaxedAutoImplicit false

namespace ScriptTrace

namespace CoverageWriter

open Bytes

variable {τ : Type} {fs : Storage τ}

/-! ### What operations record -/

namespace Operation

/-- The line that an operation writes. -/
def line? : Operation → Option CoverageLine
  | context none => some (.current Hash.zero)
  | context (some script) => some (.current script.hash)
  | address position => some (.address position)
  | branch position target outcome => some (.branch position target outcome)
  | close => none

/-- What an operation records. -/
def recorded? : Operation → Option CoverageEntry
  | context none => some .outermost
  | context (some script) => some (.script script.hash)
  | address position => some (.address position)
  | branch position target outcome => some (.branch position target outcome)
  | close => none

def isClose : Operation → Bool
  | close => true
  | _ => false

theorem isClose_eq_false {op : Operation} (h : op ≠ close) : op.isClose = false := by
  cases op with
  | close => exact absurd rfl h
  | _ => rfl

theorem exists_line {op : Operation} (h : op ≠ close) : ∃ line, op.line? = some line := by
  cases op with
  | context script => cases script <;> exact ⟨_, rfl⟩
  | address position => exact ⟨_, rfl⟩
  | branch position target outcome => exact ⟨_, rfl⟩
  | close => exact absurd rfl h

end Operation

open Operation

/-- The operations before the session is closed. -/
def beforeClose (ops : List Operation) : List Operation := ops.takeWhile (!·.isClose)

/-- The lines that operations write before the session is closed. -/
def recordedLines (ops : List Operation) : List CoverageLine := (beforeClose ops).filterMap line?

/-- What operations record before the session is closed. -/
def recordedEntries (ops : List Operation) : List CoverageEntry :=
  (beforeClose ops).filterMap recorded?

/-- The state after operations, whether or not they fail. -/
def performEach (fs : Storage τ) (ops : List Operation) (s : CoverageWriter × τ) :
    CoverageWriter × τ :=
  ops.foldl (fun s op ↦ leaves (op.perform fs) s) s

/-! ### One operation -/

/-- The log took what finds room of some bytes, and stays the log of the session. -/
structure Adds (v : StreamView τ) (bs : Bytes) (w : CoverageWriter) (t : τ)
    (s : CoverageWriter × τ) : Prop where
  log : s.1.log = w.log
  logPath : s.1.logPath = w.logPath
  takes : v.Takes bs t s.2

/-- An operation failed that writes a line. There was not enough room, which is an error of the log,
or else the file of its script could not be written. -/
structure Fails (v : StreamView τ) (op : Operation) (line : CoverageLine) (w : CoverageWriter)
    (t : τ) (e : TracerError) (s : CoverageWriter × τ) : Prop where
  writer_eq : s.1 = w
  takes : v.Takes line.bytes t s.2
  failure : ¬ Fits (v.room t) line.bytes.length ∧ (∃ failure, e = .ioFailure w.logPath failure) ∨
    Fits (v.room t) line.bytes.length ∧ op.script ≠ none

theorem Fails.adds {v : StreamView τ} {op : Operation} {line : CoverageLine} {w : CoverageWriter}
    {t : τ} {e : TracerError} {s : CoverageWriter × τ} (h : Fails v op line w t e s) :
    Adds v line.bytes w t s :=
  ⟨congrArg _ h.writer_eq, congrArg _ h.writer_eq, h.takes⟩

section Confined

variable {log : Handle} {elsewhere : String → Prop} {v : StreamView τ}
  (hfs : fs.Confines log elsewhere v) {t : τ}
include hfs

/-- Writing the file of a script leaves the log alone. -/
theorem writeArtifact_rests (directory : String) (script : ExecutedScript) (hready : v.ready t) :
    Ends (writeArtifact fs directory script) t (fun _ ↦ v.Rests t) fun _ ↦ v.Rests t := by
  refine (hfs.createNew _ t hready).attempt_bind ?_ ?_
  · rintro file t₁ ⟨helsewhere, hne, hrests⟩
    have hwritten : Ends (fs.write file script.artifact >>= fun _ ↦ fs.flush file) t₁
        (fun _ ↦ v.Rests t) fun _ ↦ v.Rests t := by
      refine ((hfs.write file _ t₁ hne hrests.ready).mono_error fun _ _ ↦ hrests.trans).bind ?_
      intro _ t₂ hrests₂
      exact (hfs.flush file t₂ hrests₂.ready).mono
        (fun _ _ hrests₃ ↦ hrests.trans (hrests₂.trans hrests₃))
        fun _ _ hrests₃ ↦ hrests.trans (hrests₂.trans hrests₃)
    have hreleased {t₂ : τ} (hrests₂ : v.Rests t t₂) : v.Rests t (fs.release file t₂) :=
      hrests₂.trans ((hfs.release file t₂ hrests₂.ready).2 hne)
    refine hwritten.attempt_bind (fun _ t₂ hrests₂ ↦ ?_) fun e t₂ hrests₂ ↦ ?_
    · exact .modify_bind (.pure (hreleased hrests₂))
    · have hremoved := hfs.removeFile _ _ helsewhere (hreleased hrests₂).ready
      exact .modify_bind (hremoved.attempt_bind
        (fun _ _ hrests₃ ↦ .throw ((hreleased hrests₂).trans hrests₃))
        fun _ _ hrests₃ ↦ .throw ((hreleased hrests₂).trans hrests₃))
  · intro e t' hrests
    by_cases hkind : e.kind = .alreadyExists
    · simp only [hkind, if_true]
      exact .pure hrests
    · simp only [hkind, if_false]
      exact .throw hrests

variable {w : CoverageWriter} (hlog : w.log = some log)
include hlog

/-- A line is taken as far as there is room, and if there is not enough this is an error of the
log. -/
theorem writeLine_takes (line : CoverageLine) (hready : v.ready t) :
    Ends (writeLine fs line) (w, t)
      (fun _ s ↦ s.1 = w ∧ v.Takes line.bytes t s.2 ∧ Fits (v.room t) line.bytes.length)
      fun e s ↦ s.1 = w ∧ v.Takes line.bytes t s.2 ∧ ¬ Fits (v.room t) line.bytes.length ∧
        ∃ failure, e = .ioFailure w.logPath failure := by
  apply Ends.get_bind
  simp only [hlog]
  refine .onSecond (.failingWith ((hfs.bounded.writePieces_ends ofString line.pieces hready).mono
    ?_ ?_))
  · rintro _ t' ⟨hfits, htakes⟩
    exact ⟨rfl, htakes, hfits⟩
  · rintro failure t' ⟨hexceeds, htakes⟩
    exact ⟨rfl, htakes, hexceeds, failure, rfl⟩

/-- An operation writes its line, whatever else comes of it. If there is not enough room it fails
with an error of the log; otherwise it fails only if it has a script to write. -/
theorem perform_adds {op : Operation} {line : CoverageLine} (hline : op.line? = some line)
    (hready : v.ready t) :
    Ends (op.perform fs) (w, t)
      (fun _ s ↦ Adds v line.bytes w t s ∧ Fits (v.room t) line.bytes.length)
      (Fails v op line w t) := by
  have hwrite : Ends (writeLine fs line) (w, t)
      (fun _ s ↦ s.1 = w ∧ v.Takes line.bytes t s.2 ∧ Fits (v.room t) line.bytes.length)
      (Fails v op line w t) :=
    (writeLine_takes hfs hlog line hready).mono_error
      fun _ _ ⟨hsame, htakes, hfailure⟩ ↦ ⟨hsame, htakes, .inl hfailure⟩
  -- But for a script, writing the line is all there is to do.
  have honly : Ends (writeLine fs line) (w, t)
      (fun _ s ↦ Adds v line.bytes w t s ∧ Fits (v.room t) line.bytes.length)
      (Fails v op line w t) :=
    hwrite.mono
      (fun _ _ ⟨hsame, htakes, hfits⟩ ↦ ⟨⟨congrArg _ hsame, congrArg _ hsame, htakes⟩, hfits⟩)
      fun _ _ hpost ↦ hpost
  cases op with
  | address position => exact Option.some.inj hline ▸ honly
  | branch position target outcome => exact Option.some.inj hline ▸ honly
  | close => cases hline
  | context script =>
    cases script with
    | none => exact Option.some.inj hline ▸ honly
    | some script =>
      obtain rfl := Option.some.inj hline
      refine hwrite.bind ?_
      rintro _ ⟨w₁, t₁⟩ ⟨rfl, htakes, hfits⟩
      apply Ends.get_bind
      by_cases hmem : w₁.written.contains script.hash = true
      · simp only [hmem, if_true]
        exact .pure ⟨⟨rfl, rfl, htakes⟩, hfits⟩
      · simp only [hmem]
        refine (writeArtifact_rests hfs w₁.directory script htakes.ready).onSecond_bind ?_ ?_
        · intro _ t' hrests
          exact .modify ⟨⟨rfl, rfl, htakes.rests hrests⟩, hfits⟩
        · intro e t' hrests
          exact ⟨rfl, htakes.rests hrests, .inr ⟨hfits, Option.some_ne_none _⟩⟩

/-- Closing leaves what the log has taken. -/
theorem close_taken (hready : v.ready t) :
    Ends (close fs) (w, t) (fun _ s ↦ s.1.log = none ∧ v.taken s.2 = v.taken t)
      fun _ s ↦ s.1.log = none ∧ v.taken s.2 = v.taken t := by
  apply Ends.get_bind
  simp only [hlog]
  have hflush : Ends (attempt (fs.flush log) : EStateM TracerError τ (Except IoError Unit)) t
      (fun _ ↦ v.Rests t) fun _ _ ↦ False := .attempt (hfs.flush log t hready)
  refine .modify_bind (hflush.onSecond_bind ?_ fun _ _ hfalse ↦ hfalse.elim)
  rintro outcome t₁ hrests
  have htaken := (hfs.release log t₁ hrests.ready).1.trans hrests.taken_eq
  refine .modify_bind ?_
  cases outcome with
  | ok _ => exact .pure ⟨rfl, htaken⟩
  | error e => exact .throw ⟨rfl, htaken⟩

end Confined

/-- A session that is closed refuses every operation. -/
theorem perform_of_closed {w : CoverageWriter} (hlog : w.log = none) (op : Operation) (t : τ) :
    op.perform fs (w, t) = .error .sessionClosed (w, t) := by
  have hwrite (line : CoverageLine) : writeLine fs line (w, t) = .error .sessionClosed (w, t) := by
    rw [writeLine, get_bind_eq]
    simp only [hlog]
    rfl
  cases op with
  | address position => exact hwrite _
  | branch position target outcome => exact hwrite _
  | close =>
    rw [perform, close, get_bind_eq]
    simp only [hlog]
    rfl
  | context script =>
    cases script with
    | none => exact hwrite _
    | some script => exact bind_error (hwrite _) _

/-! ### All runs -/

theorem performEach_append (before after : List Operation) (s : CoverageWriter × τ) :
    performEach fs (before ++ after) s = performEach fs after (performEach fs before s) :=
  List.foldl_append

theorem performEach_of_closed {w : CoverageWriter} (hlog : w.log = none) (ops : List Operation)
    (t : τ) : performEach fs ops (w, t) = (w, t) := by
  induction ops with
  | nil => rfl
  | cons op rest ih =>
    rw [performEach, List.foldl_cons, leaves, perform_of_closed hlog op t]
    exact ih

theorem beforeClose_append {before : List Operation} (hopen : .close ∉ before)
    (after : List Operation) :
    beforeClose (before ++ after) = before ++ beforeClose after :=
  List.takeWhile_append_of_pos fun op hop ↦ by
    rw [isClose_eq_false fun heq ↦ hopen (heq ▸ hop)]
    rfl

theorem beforeClose_of_notMem {ops : List Operation} (hopen : .close ∉ ops) :
    beforeClose ops = ops := by
  have happend := beforeClose_append hopen []
  rw [List.append_nil] at happend
  exact happend.trans (List.append_nil ops)

/-- Unless a script has the zero hash, its line says that it became current. -/
theorem recordedEntries_eq {ops : List Operation}
    (hscripts : ∀ script, .context (some script) ∈ beforeClose ops → script.hash ≠ Hash.zero) :
    recordedEntries ops = (recordedLines ops).map CoverageLine.entry := by
  rw [recordedEntries, recordedLines, List.map_filterMap]
  refine List.filterMap_congr fun op hop ↦ ?_
  cases op with
  | address position => rfl
  | branch position target outcome => rfl
  | close => rfl
  | context script =>
    cases script with
    | none => rfl
    | some script =>
      rw [recorded?, line?, Option.map_some, CoverageLine.entry, if_neg (hscripts script hop)]

section Runs

variable {log : Handle} {elsewhere : String → Prop} {v : StreamView τ}
  (hfs : fs.Confines log elsewhere v)
include hfs

/-- Until the session is closed the log takes every line as far as there is room. -/
theorem performEach_adds {ops : List Operation} (hopen : .close ∉ ops) {w : CoverageWriter}
    {t : τ} (hlog : w.log = some log) (hready : v.ready t) :
    Adds v (CoverageLine.text (ops.filterMap line?)) w t (performEach fs ops (w, t)) := by
  induction ops generalizing w t with
  | nil => exact ⟨rfl, rfl, .nil hready⟩
  | cons op rest ih =>
    rw [List.mem_cons, not_or] at hopen
    obtain ⟨line, hline⟩ := exists_line (Ne.symm hopen.1)
    have hadds : Adds v line.bytes w t (leaves (op.perform fs) (w, t)) :=
      Ends.leaves ((perform_adds hfs hlog hline hready).mono (fun _ _ hpost ↦ hpost.1)
        fun _ _ hfails ↦ hfails.adds)
    have hrest := ih hopen.2 (hadds.log.trans hlog) hadds.takes.ready
    rw [List.filterMap_cons_some hline, CoverageLine.text, List.flatMap_cons]
    exact ⟨hrest.log.trans hadds.log, hrest.logPath.trans hadds.logPath,
      hadds.takes.append hrest.takes⟩

/-- From the first closing on the session is closed, and the log stays as it is then. -/
theorem performEach_closed {ops : List Operation} (hclosed : .close ∈ ops) {w : CoverageWriter}
    {t : τ} (hlog : w.log = some log) (hready : v.ready t) :
    (performEach fs ops (w, t)).1.log = none ∧ v.taken (performEach fs ops (w, t)).2 =
      v.taken t ++ upTo (v.room t) (CoverageLine.text (recordedLines ops)) := by
  obtain ⟨before, after, rfl, hopen⟩ := List.eq_append_cons_of_mem hclosed
  have hadds := performEach_adds hfs hopen hlog hready
  have hlines : recordedLines (before ++ .close :: after) = before.filterMap line? := by
    rw [recordedLines, beforeClose_append hopen]
    exact congrArg _ (List.append_nil before)
  rw [performEach_append, hlines, ← hadds.takes.taken_eq]
  generalize performEach fs before (w, t) = s at hadds
  obtain ⟨w₁, t₁⟩ := s
  obtain ⟨hnone, htaken⟩ : (leaves (Operation.close.perform fs) (w₁, t₁)).1.log = none ∧
      v.taken (leaves (Operation.close.perform fs) (w₁, t₁)).2 = v.taken t₁ :=
    (close_taken hfs (hadds.log.trans hlog) hadds.takes.ready).leaves
  rw [performEach, List.foldl_cons, ← performEach, performEach_of_closed hnone]
  exact ⟨hnone, htaken⟩

/-- Assumes: an open session whose log is new. After any operations, whatever fails, the log holds
as much of the lines that were asked for before it was closed as it has room for. An operation whose
line does not find room fails with an error of the log, and one that writes nothing else only then;
after the session was closed every operation is refused and changes nothing. Unless one of the
scripts has the zero hash, what was recorded is read from the log as far as its lines are
complete. -/
theorem log_within_room {w : CoverageWriter} {t : τ} (hlog : w.log = some log)
    (hready : v.ready t) (hempty : v.taken t = []) (ops : List Operation) :
    let s := performEach fs ops (w, t)
    v.taken s.2 = upTo (v.room t) (CoverageLine.text (recordedLines ops)) ∧
    (.close ∉ ops → ∀ (op : Operation) line, op.line? = some line →
      let size := (CoverageLine.text (recordedLines ops ++ [line])).length
      (¬ Fits (v.room t) size → ∃ failure t',
        op.perform fs s = .error (.ioFailure w.logPath failure) (s.1, t')) ∧
      (Fits (v.room t) size → op.script = none → ∃ s', op.perform fs s = .ok () s')) ∧
    (.close ∈ ops → ∀ op : Operation, op.perform fs s = .error .sessionClosed s) ∧
    ((∀ script, .context (some script) ∈ beforeClose ops → script.hash ≠ Hash.zero) →
      CoverageLine.readLog (v.taken s.2) =
        (recordedEntries ops).take ((v.taken s.2).count CoverageLine.newline)) := by
  intro s
  have htaken : v.taken s.2 = upTo (v.room t) (CoverageLine.text (recordedLines ops)) := by
    by_cases hclosed : .close ∈ ops
    · rw [(performEach_closed hfs hclosed hlog hready).2, hempty, List.nil_append]
    · have hadds := performEach_adds hfs hclosed hlog hready
      rw [hadds.takes.taken_eq, hempty, List.nil_append, recordedLines,
        beforeClose_of_notMem hclosed]
  refine ⟨htaken, fun hopen op line hline ↦ ?_, fun hclosed op ↦ ?_, fun hscripts ↦ ?_⟩
  · have hadds := performEach_adds hfs hopen hlog hready
    have hends := perform_adds hfs (hadds.log.trans hlog) hline hadds.takes.ready
    have hsize : (CoverageLine.text (recordedLines ops ++ [line])).length =
        (CoverageLine.text (ops.filterMap line?)).length + line.bytes.length := by
      rw [recordedLines, beforeClose_of_notMem hopen, CoverageLine.text, List.flatMap_append,
        List.length_append, List.flatMap_singleton]
      rfl
    have hfits : Fits (v.room s.2) line.bytes.length ↔
        Fits (v.room t) (CoverageLine.text (recordedLines ops ++ [line])).length := by
      have hpos : 0 < line.bytes.length := by simp [CoverageLine.bytes_eq_body]
      rw [hadds.takes.room_eq, fits_map_sub_iff hpos, ← hsize]
    cases hrun : op.perform fs s with
    | ok _ s' =>
      exact ⟨fun hexceeds ↦ absurd (hfits.mp (hends.of_ok hrun).2) hexceeds, fun _ _ ↦ ⟨s', rfl⟩⟩
    | error e s' =>
      obtain ⟨hsame, -, hfailure⟩ := hends.of_error hrun
      rw [hfits, hadds.logPath] at hfailure
      refine ⟨fun hexceeds ↦ ?_, fun hfits hscript ↦ ?_⟩
      · obtain ⟨failure, rfl⟩ := (hfailure.resolve_right fun h ↦ hexceeds h.1).2
        exact ⟨failure, s'.2, by rw [← hsame]⟩
      · exact absurd hscript (hfailure.resolve_left fun h ↦ h.1 hfits).2
  · exact perform_of_closed (performEach_closed hfs hclosed hlog hready).1 op s.2
  · rw [htaken, CoverageLine.readLog_upTo, recordedEntries_eq hscripts]

end Runs

/-- Files in memory where a log has room for 48 bytes and no artifact is made: of three lines the
last is cut, and the first two are read back. -/
theorem log_within_room_of_memory :
    let path := "out/a.neo-coverage"
    let store : MemoryStore := .ofFiles [] [
      ⟨.write, ".neo-coverage", ⟨.storageFull, "full"⟩, 48, none⟩,
      ⟨.createNew, ".neo-script", ⟨.permissionDenied, "denied"⟩, 0, none⟩]
    let v := MemoryStore.streamView 0 path
    let hash : Hash := ⟨List.replicate 20 1, rfl⟩
    let ops := [Operation.context (some (.script hash [64])), .address 3, .branch 5 7 9]
    ∃ w t, start MemoryStore.storage "out" "a" store = .ok w t ∧ w.log = some 0 ∧ v.ready t ∧
      v.taken t = [] ∧
      let s := performEach MemoryStore.storage ops (w, t)
      let s' := performEach MemoryStore.storage (ops ++ [.close]) (w, t)
      v.taken s.2 = (CoverageLine.text [.current hash, .address 3, .branch 5 7 9]).take 48 ∧
      (∃ failure t', perform MemoryStore.storage (.address 4) s =
        .error (.ioFailure w.logPath failure) (s.1, t')) ∧
      perform MemoryStore.storage (.address 4) s' = .error .sessionClosed s' ∧
      CoverageLine.readLog (v.taken s.2) = [.script hash, .address 3] := by
  intro path store v hash ops
  have hbegun : (match start MemoryStore.storage "out" "a" store with
      | .ok w t => some (w.log, t.streams.map fun stream ↦ (stream.path, Quota.room stream.quota),
          t.files.get? path)
      | .error _ _ => none) = some (some 0, [(path, some 48)], some []) := by decide +kernel
  cases hstart : start MemoryStore.storage "out" "a" store with
  | error e t =>
    rw [hstart] at hbegun
    cases hbegun
  | ok w t =>
    simp only [hstart, Option.some.injEq, Prod.mk.injEq, List.map_eq_singleton_iff] at hbegun
    obtain ⟨hlog, ⟨stream, hstreams, hpath, hquota⟩, hfile⟩ := hbegun
    have hready : v.ready t := by
      refine ⟨?_, ?_, fun h other hother _ ↦ ?_⟩
      · rw [hstreams, List.getElem?_cons_zero, Option.map_some, hpath]
      · rw [hfile, Option.isSome_some]
      · rw [hstreams] at hother
        exact Nat.lt_one_iff.mp (List.getElem?_eq_some_iff.mp hother).1
    have hempty : v.taken t = [] := by
      simp only [v, MemoryStore.streamView, hfile, Option.getD_some]
    have hroom : v.room t = some 48 := by
      simp only [v, MemoryStore.streamView, hstreams, List.getElem?_cons_zero, Option.bind_some,
        hquota]
    have hcalls (ops : List Operation) :=
      log_within_room (MemoryStore.confines 0 path) hlog hready hempty ops
    obtain ⟨htaken, hrefused, -, hread⟩ := hcalls ops
    obtain ⟨-, -, hclosed, -⟩ := hcalls (ops ++ [.close])
    rw [hroom] at htaken hrefused
    refine ⟨w, t, rfl, hlog, hready, hempty, htaken, ?_, hclosed (by simp) _, ?_⟩
    · refine (hrefused (by simp [ops]) (.address 4) (.address 4) rfl).1 fun hfits ↦ ?_
      have hsize := hfits 48 rfl
      revert hsize
      decide +kernel
    · have hscripts : ∀ script, .context (some script) ∈ beforeClose ops →
          script.hash ≠ Hash.zero := by
        intro script hscript
        rw [beforeClose_of_notMem (by simp [ops])] at hscript
        obtain rfl : script = .script hash [64] := by simpa [ops] using hscript
        exact (by decide : hash ≠ Hash.zero)
      rw [hread hscripts, htaken]
      decide +kernel

end CoverageWriter

end ScriptTrace
