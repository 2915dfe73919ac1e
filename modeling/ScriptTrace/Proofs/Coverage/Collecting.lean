import ScriptTrace.Coverage.Engine
import ScriptTrace.Proofs.Coverage.Artifacts
import ScriptTrace.Proofs.Coverage.FileNames
import ScriptTrace.Proofs.Coverage.Recording
import ScriptTrace.Proofs.Coverage.Telling
import ScriptTrace.Proofs.StackMachine.Strides

/-!
A recorder that collects scripts. It knows a script and the writer remembers to have written it
together with the file of the script, which is whole, and there is no file of any other script
(`Collects`); each event that does not fail leaves it so (`Collects.notice`). What it knows are the
scripts of the frames that were pushed, under each hash that of the first (`executed_recount`), so
the files in the directory are determined by the frames (`Collects.collected`).
-/

set_option autoImplicit false
set_option relaxedAutoImplicit false

namespace ScriptTrace

namespace CoverageRecorder

open CoverageWriter

variable {τ Λ : Type} {fs : Storage τ} {v : FileView τ Λ} {directory : String}

/-! ### Collecting -/

/-- The files of scripts have places of their own in a directory, which are not that of a log. -/
structure Apart (v : FileView τ Λ) (directory : String) (log : Λ) : Prop where
  artifact : ∀ s s' : ExecutedScript, artifactPlace v directory s = artifactPlace v directory s' →
    s.fileName = s'.fileName
  log : ∀ s : ExecutedScript, artifactPlace v directory s ≠ log

/-- A session keeps its files in a directory. -/
structure Settled (v : FileView τ Λ) (directory : String) (w : CoverageWriter) (t : τ) : Prop where
  sound : v.sound t
  live : Live v w t
  directory_eq : w.directory = directory
  apart : Apart v directory (v.place w.logPath)

namespace Settled

variable {w w' : CoverageWriter} {t t' : τ} {script : Option ExecutedScript}
  (h : Settled v directory w t) (hacts : Acts v script w t w' t')
include h hacts

theorem acts : Settled v directory w' t' where
  sound := hacts.within.sound
  live := hacts.live
  directory_eq := hacts.directory.trans h.directory_eq
  apart := by
    rw [hacts.logPath]
    exact h.apart

/-- The file of a script changes only if the script is recorded. -/
theorem file_eq {s : ExecutedScript}
    (hother : ∀ r ∈ script, artifactPlace v directory s ≠ artifactPlace v directory r) :
    v.file t' (artifactPlace v directory s) = v.file t (artifactPlace v directory s) := by
  refine hacts.within.file _ (not_or.mpr ⟨h.apart.log s, ?_⟩)
  rintro ⟨⟨r, hr, hplace⟩, -⟩
  rw [h.directory_eq] at hplace
  exact hother r hr hplace

/-- The file of a script that is there stays as it is. -/
theorem kept {s : ExecutedScript} {content : Bytes}
    (hfile : v.file t (artifactPlace v directory s) = some content) :
    v.file t' (artifactPlace v directory s) = some content := by
  have hsome : (v.file t (artifactPlace v directory s)).isSome := by
    rw [hfile, Option.isSome_some]
  exact (hacts.kept hsome (h.apart.log s)).trans hfile

end Settled

/-- A recorder and its files hold the same scripts: each script that is known has its file, which is
whole, and there is no file of any other. -/
structure Collects (v : FileView τ Λ) (directory : String) (host : CoverageRecorder × τ) :
    Prop where
  settled : Settled v directory host.1.writer host.2
  hash_eq : ∀ hash script, host.1.executed.get? hash = some script → script.hash = hash
  written_iff : ∀ hash, hash ∈ host.1.writer.written ↔ (host.1.executed.get? hash).isSome
  artifact : ∀ hash script, host.1.executed.get? hash = some script →
    v.file host.2 (artifactPlace v directory script) = some script.artifact
  only : ∀ script, (v.file host.2 (artifactPlace v directory script)).isSome →
    ∃ known, host.1.executed.get? script.hash = some known ∧ known.fileName = script.fileName

namespace Collects

variable {r : CoverageRecorder} {w : CoverageWriter} {t t' : τ} {script : ExecutedScript}

/-- Of what a recorder knows only the scripts matter. -/
theorem congr (h : Collects v directory (r, t)) {r' : CoverageRecorder}
    (hwriter : r'.writer = r.writer)
    (hexecuted : ∀ hash, r'.executed.get? hash = r.executed.get? hash) :
    Collects v directory (r', t) where
  settled := hwriter.symm ▸ h.settled
  hash_eq hash script hscript := h.hash_eq hash script (hexecuted hash ▸ hscript)
  written_iff hash := by
    rw [hwriter, hexecuted]
    exact h.written_iff hash
  artifact hash script hscript := h.artifact hash script (hexecuted hash ▸ hscript)
  only script hsome := by
    rw [hexecuted]
    exact h.only script hsome

/-- Nothing but the log changes. -/
theorem acts (h : Collects v directory (r, t)) (hacts : Acts v none r.writer t w t') :
    Collects v directory ({ r with writer := w }, t') where
  settled := h.settled.acts hacts
  hash_eq := h.hash_eq
  written_iff hash := by
    have hwritten : w.written = r.writer.written :=
      hacts.written.resolve_right fun ⟨_, hs, _⟩ ↦ nomatch hs
    dsimp only
    rw [hwritten]
    exact h.written_iff hash
  artifact hash script hscript := h.settled.kept hacts (h.artifact hash script hscript)
  only script hsome :=
    h.only script (h.settled.file_eq hacts (fun _ hs ↦ nomatch hs) ▸ hsome)

theorem within (h : Collects v directory (r, t)) (hwithin : v.Within ∅ t t') :
    Collects v directory (r, t') := by
  have hlive := h.settled.live
  have hlogged : Logged v r.writer t (r.writer, t') :=
    ⟨rfl, hwithin.mono (Set.empty_subset _), hlive.within hwithin (Set.notMem_empty _)⟩
  exact h.acts (hlogged.acts hlive.file none)

section Recorded

variable (h : Collects v directory (r, t))
  (hknown : ∀ known, r.executed.get? script.hash = some known → known = script)
  (hacts : Acts v (some script) r.writer t w t')
  (hnew : script.hash ∉ r.writer.written → (v.file t' (artifactPlace v directory script)).isSome)
include h hknown hacts hnew

/-- A script that was recorded has a file, which is whole. -/
theorem file_recorded :
    v.file t' (artifactPlace v directory script) = some script.artifact := by
  cases hfound : r.executed.get? script.hash with
  | some known =>
    obtain rfl := hknown known hfound
    exact h.settled.kept hacts (h.artifact _ known hfound)
  | none =>
    -- There was no file of it, for a file would have made it known.
    have hfree : v.file t (artifactPlace v directory script) = none := by
      by_contra hsome
      obtain ⟨known, hfound', -⟩ := h.only script (Option.isSome_iff_ne_none.mpr hsome)
      rw [hfound] at hfound'
      cases hfound'
    have hunknown : script.hash ∉ r.writer.written := by
      rw [h.written_iff, hfound]
      exact nofun
    have hwhole := hacts.artifact script rfl
    rw [h.settled.directory_eq] at hwhole
    exact (hwhole hfree).resolve_left (Option.isSome_iff_ne_none.mp (hnew hunknown))

/-- A script was recorded that is known or was not known before. -/
theorem recorded (hwritten : script.hash ∈ w.written) :
    Collects v directory
      ({ r with executed := r.executed.set script.hash script, writer := w }, t') where
  settled := h.settled.acts hacts
  hash_eq hash other hother := by
    dsimp only at hother
    rw [Table.get?_set] at hother
    split at hother
    · rename_i heq
      rw [← Option.some.inj hother, heq]
    · exact h.hash_eq hash other hother
  written_iff hash := by
    dsimp only
    rw [Table.get?_set]
    split
    · rename_i heq
      exact iff_of_true (heq ▸ hwritten) rfl
    · rename_i hne
      rw [← h.written_iff]
      rcases hacts.written with hsame | ⟨s, hs, hcons, -⟩
      · rw [hsame]
      · obtain rfl := Option.some.inj hs
        rw [hcons, List.mem_cons, or_iff_right (Ne.symm hne)]
  artifact hash other hother := by
    dsimp only at hother
    rw [Table.get?_set] at hother
    split at hother
    · rw [← Option.some.inj hother]
      exact h.file_recorded hknown hacts hnew
    · exact h.settled.kept hacts (h.artifact hash other hother)
  only other hsome := by
    dsimp only
    rw [Table.get?_set]
    by_cases hsame : artifactPlace v directory other = artifactPlace v directory script
    · have hname := h.settled.apart.artifact _ _ hsame
      rw [if_pos (ExecutedScript.hash_eq_of_fileName_eq hname).symm]
      exact ⟨script, rfl, hname.symm⟩
    · have hfile := h.settled.file_eq hacts (s := other) fun _ hs ↦ Option.some.inj hs ▸ hsame
      obtain ⟨known, hfound, hname⟩ := h.only other (hfile ▸ hsome)
      split
      · rename_i heq
        rw [← heq] at hfound
        exact ⟨script, rfl, hknown known hfound ▸ hname⟩
      · exact ⟨known, hfound, hname⟩

end Recorded

/-! ### Events -/

section Events

variable (hfs : fs.Lawful v) (h : Collects v directory (r, t))
include hfs h

theorem line (line : CoverageLine) : Ends (onWriter (writeLine fs line)) (r, t)
    (fun _ ↦ Collects v directory) fun _ _ ↦ True :=
  ends_onWriter ((writeLine_ends hfs h.settled.sound h.settled.live line).mono
    (fun _ _ hlogged ↦ h.acts (hlogged.acts h.settled.live.file none)) fun _ _ _ ↦ trivial)

/-- A script is recorded that is known or was not known before. -/
theorem context (hknown : ∀ known, r.executed.get? script.hash = some known → known = script) :
    Ends (recordContext fs (some script)) (r.writer, t) (fun _ next ↦ Collects v directory
      ({ r with executed := r.executed.set script.hash script, writer := next.1 }, next.2))
      fun _ _ ↦ True := by
  have hrecord := recordContext_ends hfs h.settled.sound h.settled.live script
  rw [h.settled.directory_eq] at hrecord
  refine hrecord.mono ?_ fun _ _ _ ↦ trivial
  rintro _ next ⟨hacts, hwritten, hnew⟩
  exact h.recorded hknown hacts hnew hwritten

theorem loaded (view : View) (context : Context) :
    Ends (CoverageRecorder.loaded fs view context) (r, t) (fun _ ↦ Collects v directory)
      fun _ _ ↦ True := by
  refine .get_bind (.modify_bind (ends_onWriter ?_))
  have hhash := hash_learned h.hash_eq view context
  have hknown (known : ExecutedScript)
      (hfound : r.executed.get? (r.learned view context).hash = some known) :
      known = r.learned view context := by
    rw [hhash] at hfound
    rw [learned, hfound, Option.getD_some]
  have hrecord := h.context hfs hknown
  rw [hhash] at hrecord
  exact hrecord

theorem unloaded (view : View) :
    Ends (CoverageRecorder.unloaded fs view) (r, t) (fun _ ↦ Collects v directory)
      fun _ _ ↦ True := by
  unfold CoverageRecorder.unloaded
  split
  · exact h.line hfs _
  · rename_i hash _
    refine .get_bind ?_
    dsimp only
    split
    · exact .throw trivial
    · rename_i script hfound
      obtain rfl := h.hash_eq hash script hfound
      refine ends_onWriter ((h.context hfs fun known hknown ↦ ?_).mono ?_ fun _ _ h ↦ h)
      · exact Option.some.inj (hknown.symm.trans hfound)
      · intro _ next hnext
        refine hnext.congr rfl fun hash ↦ ?_
        dsimp only
        rw [Table.get?_set]
        split
        · rename_i heq
          rw [← heq, hfound]
        · rfl

theorem before (view : View) (i : Instruction) :
    Ends (CoverageRecorder.before fs view i) (r, t) (fun _ ↦ Collects v directory)
      fun _ _ ↦ True := by
  unfold CoverageRecorder.before
  split
  · rename_i hash position _ _
    have hcounted : Collects v directory (r.counting hash position, t) := h.congr rfl fun _ ↦ rfl
    refine .modify_bind ((hcounted.line hfs (.address position)).bind ?_)
    rintro _ ⟨r', t'⟩ h'
    exact .modify (h'.congr rfl fun _ ↦ rfl)
  · exact .throw trivial

theorem after (view : View) :
    Ends (CoverageRecorder.after fs view) (r, t) (fun _ ↦ Collects v directory)
      fun _ _ ↦ True := by
  have hcleared : Collects v directory ({ r with pending := none }, t) := h.congr rfl fun _ ↦ rfl
  refine .get_bind (.modify_bind ?_)
  dsimp only
  split
  · exact .pure hcleared
  · split
    · exact .pure hcleared
    · split
      · exact .throw trivial
      · exact hcleared.line hfs _

/-- Whatever a recorder is told of, it knows a script once the file of the script is whole. -/
theorem notice (view : View) (event : Event) :
    Ends ((observer fs).notice view event) (r, t) (fun _ ↦ Collects v directory)
      fun _ _ ↦ True := by
  cases event with
  | contextLoaded context => exact h.loaded hfs view context
  | contextUnloaded context => exact h.unloaded hfs view
  | preExecute i => exact h.before hfs view i
  | postExecute i => exact h.after hfs view
  | fault exception => exact .modify (h.congr rfl fun _ ↦ rfl)
  | log event => exact .pure h
  | notify event => exact .pure h

theorem close : Ends (CoverageEngine.close fs) (r, t)
    (fun _ next ↦ Collects v directory next ∧ next.1.executed = r.executed)
    fun _ next ↦ Collects v directory next ∧ next.1.executed = r.executed :=
  ends_onWriter ((close_ends hfs h.settled.sound h.settled.live).mono
    (fun _ _ hacts ↦ ⟨h.acts hacts, rfl⟩) fun _ _ hacts ↦ ⟨h.acts hacts, rfl⟩)

end Events

end Collects

/-! ### Scripts that are known -/

/-- The contract that is deployed under the hash of a frame, or else the code of the frame. -/
def scriptIn (snapshot : Snapshot) (context : Context) : ExecutedScript :=
  match snapshot.contract? context.scriptHash with
  | some contract => .contract contract
  | none => .script context.scriptHash context.code

/-- The script of the first frame that has a hash. -/
def firstScript (snapshot : Snapshot) (pushed : List Context) (hash : Hash) :
    Option ExecutedScript :=
  (pushed.find? fun context ↦ context.scriptHash = hash).map (scriptIn snapshot)

/-- The script of a frame that was pushed first under its hash. -/
theorem firstScript_of_find {snapshot : Snapshot} {pushed : List Context} {hash : Hash}
    {context : Context}
    (hfind : pushed.find? (fun context ↦ context.scriptHash = hash) = some context) :
    firstScript snapshot pushed hash =
      some ((snapshot.contract? hash).elim (.script hash context.code) .contract) := by
  obtain rfl : context.scriptHash = hash := by simpa using List.find?_some hfind
  rw [firstScript, hfind, Option.map_some, scriptIn]
  cases snapshot.contract? context.scriptHash <;> rfl

open StackMachine

/-- Only a frame that is pushed makes a script known. -/
theorem executed_tell {r : CoverageRecorder} {n : Notice} (hn : pushed? n = none) :
    (r.tell n).1.executed = r.executed := by
  obtain ⟨view, event⟩ := n
  cases event with
  | contextLoaded context => cases hn
  | preExecute i =>
    unfold tell
    dsimp only
    split <;> rfl
  | _ => rfl

/-- Assumes: observers are shown one snapshot. A recorder knows what it knew, and otherwise the
script of the first frame that was pushed under a hash. -/
theorem executed_recount {snapshot : Snapshot} {told : List Notice}
    (hshown : ∀ n ∈ told, n.1.snapshot = snapshot) (q : CoverageRecorder × List CoverageLine)
    (hash : Hash) : (recount tell q told).1.executed.get? hash =
      (q.1.executed.get? hash).or (firstScript snapshot (pushes told) hash) := by
  induction told generalizing q with
  | nil => exact (Option.or_none).symm
  | cons n rest ih =>
    obtain ⟨hn, hrest⟩ := List.forall_mem_cons.mp hshown
    rw [recount_cons, ih hrest]
    cases hpushed : pushed? n with
    | none =>
      dsimp only
      rw [executed_tell hpushed, pushes, pushes, List.filterMap_cons_none hpushed]
    | some context =>
      obtain ⟨view, event⟩ := n
      cases event with
      | contextLoaded loaded =>
        obtain rfl := Option.some.inj hpushed
        obtain rfl := hn
        rw [pushes, pushes, List.filterMap_cons_some hpushed]
        simp only [tell, Table.get?_set, firstScript, List.find?_cons]
        by_cases hhash : loaded.scriptHash = hash
        · subst hhash
          simp only [if_true, decide_true, Option.map_some, Option.some_or, learned]
          cases r : q.1.executed.get? loaded.scriptHash <;> rfl
        · simp only [hhash, if_false, decide_false]
      | _ => cases hpushed

/-- What a session has collected of the frames that were pushed. It knows their scripts and no
others, and the directory has one file for each: the package of the contract that is deployed under
its hash, or else the code of the first frame that was pushed under it. -/
structure Collected (v : FileView τ Λ) (directory : String) (snapshot : Snapshot)
    (pushed : List Context) (host : CoverageRecorder × τ) : Prop where
  mem_keys : ∀ hash, hash ∈ host.1.executed.keys ↔ hash ∈ pushed.map (·.scriptHash)
  package : ∀ hash,
    v.file host.2 (v.place (joinPath directory (ExecutedScript.packageName hash))) =
      if hash ∈ pushed.map (·.scriptHash) then
        (snapshot.contract? hash).map (·.package.toBytes)
      else none
  code : ∀ hash,
    v.file host.2 (v.place (joinPath directory (ExecutedScript.codeName hash))) =
      if (snapshot.contract? hash).isSome then none
      else (pushed.find? fun context ↦ context.scriptHash = hash).map (·.code)

namespace Collects

variable {host : CoverageRecorder × τ} (h : Collects v directory host)
include h

/-- The file of a name is that of the script which is known under the hash, if that has the name. -/
theorem file_eq (s : ExecutedScript) : v.file host.2 (artifactPlace v directory s) =
    ((host.1.executed.get? s.hash).filter (·.fileName = s.fileName)).map (·.artifact) := by
  have hplace {known : ExecutedScript} (hname : known.fileName = s.fileName) :
      artifactPlace v directory s = artifactPlace v directory known := by
    rw [artifactPlace, artifactPlace, hname]
  cases hfile : v.file host.2 (artifactPlace v directory s) with
  | none =>
    cases hfound : host.1.executed.get? s.hash with
    | none => rfl
    | some known =>
      have hname : known.fileName ≠ s.fileName := by
        intro hname
        have hwhole := h.artifact _ known hfound
        rw [← hplace hname, hfile] at hwhole
        cases hwhole
      simp [Option.filter, hname]
  | some content =>
    obtain ⟨known, hfound, hname⟩ := h.only s (by rw [hfile, Option.isSome_some])
    have hwhole := h.artifact _ known hfound
    rw [← hplace hname, hfile] at hwhole
    simp [hfound, Option.filter, hname, hwhole]

/-- Assumes: the scripts that are known are those of the frames that were pushed. -/
theorem collected {snapshot : Snapshot} {pushed : List Context}
    (hexecuted : ∀ hash, host.1.executed.get? hash = firstScript snapshot pushed hash) :
    Collected v directory snapshot pushed host where
  mem_keys hash := by
    rw [Table.mem_keys_iff, hexecuted, firstScript, Option.isSome_map, List.find?_isSome]
    simp [eq_comm]
  package hash := by
    -- Any contract with the hash stands for the name.
    have hfile := h.file_eq (.contract ⟨0, hash, "", ⟨"", "", [], 0⟩⟩)
    rw [artifactPlace, ExecutedScript.fileName_contract, ExecutedScript.hash, hexecuted] at hfile
    rw [hfile]
    cases hfind : pushed.find? fun context ↦ context.scriptHash = hash with
    | none =>
      rw [firstScript, hfind, if_neg (by simpa [List.find?_eq_none] using hfind)]
      rfl
    | some context =>
      have hhash : context.scriptHash = hash := by simpa using List.find?_some hfind
      rw [firstScript_of_find hfind,
        if_pos (hhash ▸ List.mem_map_of_mem (List.mem_of_find?_eq_some hfind))]
      cases hdeployed : snapshot.contract? hash with
      | none =>
        have hname := (ExecutedScript.packageName_ne_codeName hash hash).symm
        simp [Option.filter, ExecutedScript.fileName_script, hname]
      | some contract =>
        have hname : ExecutedScript.packageName contract.hash = ExecutedScript.packageName hash :=
          congrArg _ (snapshot.hash_eq hash contract hdeployed)
        simp [Option.filter, ExecutedScript.fileName_contract, hname, ExecutedScript.artifact]
  code hash := by
    have hfile := h.file_eq (.script hash [])
    rw [artifactPlace, ExecutedScript.fileName_script, ExecutedScript.hash, hexecuted] at hfile
    rw [hfile]
    cases hfind : pushed.find? fun context ↦ context.scriptHash = hash with
    | none =>
      rw [firstScript, hfind]
      simp
    | some context =>
      rw [firstScript_of_find hfind]
      cases hdeployed : snapshot.contract? hash with
      | none => simp [Option.filter, ExecutedScript.fileName_script, ExecutedScript.artifact]
      | some contract =>
        have hname := ExecutedScript.packageName_ne_codeName contract.hash hash
        simp [Option.filter, ExecutedScript.fileName_contract, hname]

end Collects

end CoverageRecorder

end ScriptTrace
