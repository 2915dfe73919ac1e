import ScriptTrace.Proofs.Coverage.Collecting
import ScriptTrace.Proofs.Coverage.Dispatches
import ScriptTrace.Proofs.Session.Attendance

/-!
What a coverage session has collected. The session may have other observers, which neither fail nor
touch files. However its engine is driven, the directory holds one whole file for the script of each
frame that was pushed and none of any other script, and a script has its file before any of its
instructions is about to run (`drive_collected`).
-/

set_option autoImplicit false
set_option relaxedAutoImplicit false

namespace ScriptTrace

/-- An observer does not fail, and leaves files and streams alone. -/
structure Observer.Spares {τ Λ : Type} (o : Observer τ) (sound : τ → Prop)
    (content : τ → Handle → Option Bytes) (v : FileView τ Λ) : Prop where
  streams : ∀ view event t, sound t →
    Succeeds (o.notice view event) t fun _ t' ↦ sound t' ∧ content t' = content t
  files : ∀ view event t, v.sound t →
    Ends (o.notice view event) t (fun _ t' ↦ v.Within ∅ t t') fun _ _ ↦ True

namespace CoverageRecorder

open CoverageWriter StackMachine

variable {τ Λ : Type} {fs : Storage τ} {v : FileView τ Λ} {directory : String}

/-- Assumes: different names lead to different places in a directory. -/
theorem apart_of_injOn {sessionName : String}
    (hplaces : Set.InjOn (fun name ↦ v.place (joinPath directory name)) (fileNames sessionName)) :
    Apart v directory (v.place (joinPath directory (sessionName ++ ".neo-coverage"))) where
  artifact s s' hsame := hplaces (.inr ⟨s, rfl⟩) (.inr ⟨s', rfl⟩) hsame
  log s hsame := by
    have hname := hplaces (.inr ⟨s, rfl⟩) (.inl rfl) hsame
    exact s.append_fileName_ne "" "" sessionName (congrArg ("" ++ ·) hname)

/-- A session starts without scripts. -/
theorem collects_start (hfs : fs.Lawful v) {sessionName : String}
    (hplaces : Set.InjOn (fun name ↦ v.place (joinPath directory name)) (fileNames sessionName))
    {t₀ t : τ} (hs : v.sound t₀)
    (hnone : ∀ s, v.file t₀ (artifactPlace v directory s) = none) {w : CoverageWriter}
    (hstart : start fs directory sessionName t₀ = .ok w t) :
    Collects v directory (.ofWriter w, t) := by
  obtain ⟨-, hwithin, hlive, hwritten⟩ := (start_ends hfs hs directory sessionName).of_ok hstart
  obtain ⟨hdirectory, hlogPath⟩ : w.directory = directory ∧
      w.logPath = joinPath directory (sessionName ++ ".neo-coverage") := by
    obtain ⟨_, _, -, hopen⟩ := bind_eq_ok hstart
    obtain ⟨log, _, -, hlast⟩ := bind_eq_ok hopen
    obtain ⟨rfl, -⟩ := EStateM.Result.ok.inj hlast
    exact ⟨rfl, rfl⟩
  have hapart := apart_of_injOn hplaces
  rw [← hlogPath] at hapart
  exact {
    settled := ⟨hwithin.sound, hlive, hdirectory, hapart⟩
    hash_eq := nofun
    written_iff := fun hash ↦ by
      change hash ∈ w.written ↔ _
      rw [hwritten]
      exact iff_of_false List.not_mem_nil nofun
    artifact := nofun
    only := fun script hsome ↦ by
      rw [hwithin.file _ (hapart.log script), hnone] at hsome
      cases hsome }

section Audience

variable {sound : τ → Prop} {content : τ → Handle → Option Bytes} {M : Type}
  {others : List (Nat × Observer τ)} (hothers : ∀ p ∈ others, p.2.Spares sound content v)
  {s : Session M (CoverageRecorder × τ)} {k : Nat}
  (hobservers : s.observers = lifted others ++ [(k, observer fs)])
include hothers hobservers

/-- A recorder retells events in the company of observers that leave its log alone. -/
theorem retells_audience (hfs : fs.Reliable sound content) :
    s.audience.Retells tell Allows (Told sound content) where
  notice q n host hallows htold := by
    have hspared : ∀ p ∈ lifted others, ∀ host, Told sound content q host →
        Succeeds (p.2.notice n.1 n.2) host fun _ ↦ Told sound content q := by
      rintro p hp ⟨r, t⟩ ⟨hrecorder, hlog, hholds⟩
      obtain ⟨o, ho, rfl⟩ := List.mem_map.mp hp
      refine .onSecond (((hothers o ho).streams n.1 n.2 t hholds.sound).mono ?_)
      rintro _ t' ⟨hsound, hsame⟩
      refine ⟨hrecorder, hlog, hsound, ?_⟩
      rw [hsame]
      exact hholds.content_eq
    change Succeeds (s.observers.forM fun p ↦ p.2.notice n.1 n.2) host _
    rw [hobservers]
    exact .forM_append (.forM_of_mem hspared htold) fun host' htold' ↦
      .single ((retells hfs).notice q n host' hallows htold')

/-- A recorder collects scripts in the company of observers that leave its files alone. -/
theorem collects_hear (hfs : fs.Lawful v) {host : CoverageRecorder × τ}
    (h : Collects v directory host) (told : List Notice) :
    Ends (s.audience.hear told) host (fun _ ↦ Collects v directory) fun _ _ ↦ True := by
  refine .forM (fun n host h ↦ ?_) told h
  have hspared : ∀ p ∈ lifted others, ∀ host, Collects v directory host →
      Ends (p.2.notice n.1 n.2) host (fun _ ↦ Collects v directory) fun _ _ ↦ True := by
    rintro p hp ⟨r, t⟩ h
    obtain ⟨o, ho, rfl⟩ := List.mem_map.mp hp
    exact .onSecond (((hothers o ho).files n.1 n.2 t h.settled.sound).mono
      (fun _ _ hwithin ↦ h.within hwithin) fun _ _ _ ↦ trivial)
  change Ends (s.observers.forM fun p ↦ p.2.notice n.1 n.2) host _ _
  rw [hobservers, forM_append]
  exact (Ends.forM_of_mem hspared h).bind fun _ host' h' ↦ .single (h'.notice hfs n.1 n.2)

/-- Assumes: a recorder that is told what agrees with its log. The observers come to where its log
is recounted of that and its files are those of the scripts that it knows. -/
theorem exists_hear (hfs : fs.Reliable sound content) (hlaw : fs.Lawful v) {w : CoverageWriter}
    {told : List Notice} (hthroughout : Reports.Throughout (.ofWriter w, []) told) {t : τ}
    (htold : Told sound content (.ofWriter w, []) (.ofWriter w, t))
    (hcollects : Collects v directory (.ofWriter w, t)) :
    ∃ host, s.audience.hear told (.ofWriter w, t) = .ok () host ∧
      Told sound content (recount tell (.ofWriter w, []) told) host ∧
      Collects v directory host := by
  have hallowed : Allowed tell Allows (.ofWriter w) told := by
    refine allowed_of_cut fun front n back hcut ↦ ?_
    obtain ⟨_, _, hreports, hshifts⟩ := hthroughout front n back hcut
    exact hreports.allows hshifts
  obtain ⟨_, host, hhost, htold'⟩ :=
    (retells_audience hothers hobservers hfs).hear hallowed htold
  exact ⟨host, hhost, htold', (collects_hear hothers hobservers hlaw hcollects told).of_ok hhost⟩

end Audience

/-! ### All calls -/

section Calls

variable {sound : τ → Prop} {content : τ → Handle → Option Bytes}

/-- Scripts are collected of the frames that a recorder was told of. -/
theorem collected_of_told {w : CoverageWriter} {snapshot : Snapshot} {told : List Notice}
    (hshown : ∀ n ∈ told, n.1.snapshot = snapshot) {host : CoverageRecorder × τ}
    (htold : Told sound content (recount tell (.ofWriter w, []) told) host)
    {r : CoverageRecorder} (hsame : r.executed = host.1.executed) {t : τ}
    (hcollects : Collects v directory (r, t)) :
    Collected v directory snapshot (pushes told) (r, t) := by
  refine hcollects.collected fun hash ↦ ?_
  dsimp only
  rw [hsame, htold.recorder_eq, executed_recount hshown]
  exact Option.none_or

/-- What there is before an event. The log has the addresses of the instructions that were about to
run, and the session has collected the scripts of the frames that were pushed. If an instruction is
about to run now, its script is one of them. -/
structure Prepared (v : FileView τ Λ) (content : τ → Handle → Option Bytes) (directory : String)
    (snapshot : Snapshot) (front : List Notice) (n : Notice) (host : CoverageRecorder × τ) :
    Prop where
  addresses : ∃ log lines, host.1.writer.log = some log ∧
    content host.2 log = some (CoverageLine.text lines) ∧
    CoverageLine.addresses lines = (dispatches front).map fun d ↦ (some d.1, d.2)
  collected : Collected v directory snapshot (pushes front) host
  mem_keys : ∀ hash position, dispatch? n = some (hash, position) → hash ∈ host.1.executed.keys

theorem prepared {w : CoverageWriter} {snapshot : Snapshot} {front : List Notice} {n : Notice}
    {hashes hashes' : List Hash} (hshown : ∀ n ∈ front, n.1.snapshot = snapshot)
    (hreports : Reports (recount tell (.ofWriter w, []) front) front hashes)
    (hshifts : Shifts hashes n hashes') {host : CoverageRecorder × τ}
    (htold : Told sound content (recount tell (.ofWriter w, []) front) host)
    (hcollects : Collects v directory host) :
    Prepared v content directory snapshot front n host where
  addresses := by
    obtain ⟨log, hlog, hcontent⟩ := htold.holds.content_eq
    exact ⟨log, _, hlog, hcontent, hreports.addresses_eq⟩
  collected := collected_of_told hshown htold rfl hcollects
  mem_keys hash position hn := by
    have hknown := hreports.tracks.executed hash (hshifts.mem_of_dispatch? hn)
    rw [Table.mem_keys_iff, htold.recorder_eq]
    exact hknown

/-- Assumes: a storage that does not fail and keeps its word, where different names lead to
different places in the directory of the session; a session without frames, whose observers do not
fail and leave files alone; and no file of a script in the directory. However an engine is driven,
no call fails, and the scripts of all frames that were pushed are known and have their files, which
stay when the engine is disposed of. So it is before each event on the way, and no instruction is
about to run whose script does not have its file. -/
theorem drive_collected (hfs : fs.Reliable sound content) (hlaw : fs.Lawful v)
    (config : CoverageConfig) (sessionName : String) (checker : Option WitnessChecker)
    {session : Session StackMachine τ}
    (hothers : ∀ p ∈ session.observers, p.2.Spares sound content v)
    (hframes : session.machine.frames = [])
    (hplaces : Set.InjOn (fun name ↦ v.place (joinPath config.outputDir name))
      (fileNames sessionName))
    {t₀ t₁ : τ} (hsound : sound t₀) (hsound' : v.sound t₀)
    (hnone : ∀ s, v.file t₀ (artifactPlace v config.outputDir s) = none)
    {engine : CoverageEngine StackMachine τ}
    (hstart : CoverageEngine.start fs config sessionName checker session t₀ = .ok engine t₁)
    (calls : List Call) :
    let snapshot := session.machine.snapshot
    ∃ ended engine' t₂ told ss,
      Engine.drive calls (engine, t₁) = .ok ended (engine', t₂) ∧
      Course (Engine.witnessed checker session.overrides) calls ended session.machine ss
        engine'.session.machine ∧
      pushes told = (ss.flatMap fun s ↦ pushed s.before s.after) ∧
      Collected v config.outputDir snapshot (pushes told) (engine'.recorder, t₂) ∧
      Ends (CoverageEngine.dispose fs) (engine', t₂)
        (fun _ next ↦
          Collected v config.outputDir snapshot (pushes told) (next.1.recorder, next.2))
        (fun _ next ↦
          Collected v config.outputDir snapshot (pushes told) (next.1.recorder, next.2)) ∧
      engine.session.audience.hear told (engine.recorder, t₁) = .ok () (engine'.recorder, t₂) ∧
      ∀ front n back, told = front ++ n :: back → ∃ host,
        engine.session.audience.hear front (engine.recorder, t₁) = .ok () host ∧
        Prepared v content config.outputDir snapshot front n host := by
  intro snapshot
  obtain ⟨w, t, hwriter, hrest⟩ := bind_eq_ok hstart
  obtain ⟨rfl, rfl⟩ := EStateM.Result.ok.inj hrest
  have hmachine := Engine.machine_start (observer fs) (.ofWriter w) checker session
  have hwatches := Engine.watches_audience (observer fs) (.ofWriter w) checker session
  have hbegin : Reports (.ofWriter w, []) [] (hashesOf (Engine.start (observer fs) (.ofWriter w)
      checker session).session.machine.reset) := by
    rw [hmachine, hashesOf_reset_of_frames_eq_nil hframes]
    exact .begin w
  have hopen : Told sound content (.ofWriter w, []) (.ofWriter w, t) :=
    ⟨rfl, rfl, holds_start hfs hsound hwriter⟩
  have hobservers := Engine.observers_start (observer fs) (.ofWriter w) checker session
  have hcollects := collects_start hlaw hplaces hsound' hnone hwriter
  obtain ⟨ended, ⟨engine', t₂⟩, hrun, hwatches', told, hroute, hhear, -, -⟩ :=
    drive_reports (retells_audience hothers hobservers hfs) hwatches hbegin hopen calls
  have hthroughout := Reports.throughout_of_route hroute hbegin
  rw [hmachine] at hroute
  have hshown : ∀ n ∈ told, n.1.snapshot = snapshot :=
    (preserved_snapshot _ _).of_route hroute rfl
  obtain ⟨host, hhost, htold, hkept⟩ :=
    exists_hear hothers hobservers hfs hlaw hthroughout hopen hcollects
  obtain ⟨-, rfl⟩ := EStateM.Result.ok.inj (hhear.symm.trans hhost)
  obtain ⟨ss, hcourse, hnarrated⟩ := exists_course_of_route hroute
  refine ⟨ended, engine', t₂, told, ss, hrun, hcourse, hnarrated.pushes_eq,
    collected_of_told hshown htold rfl hkept, ?_, hhear, ?_⟩
  · refine (Engine.dispose_ends hwatches'.not_disposed (hkept.close hlaw)).mono ?_ ?_ <;>
    · rintro _ next ⟨hkept', hsame⟩
      exact collected_of_told hshown htold hsame hkept'
  · rintro front n back rfl
    obtain ⟨hashes, hashes', hreports, hshifts⟩ := hthroughout front n back rfl
    obtain ⟨host, hhost, htold, hkept⟩ :=
      exists_hear hothers hobservers hfs hlaw hthroughout.front hopen hcollects
    have hshown' := fun n hn ↦ hshown n (List.mem_append_left _ hn)
    exact ⟨host, hhost, prepared hshown' hreports hshifts htold hkept⟩

/-- A script, in the company of an observer that does nothing, over files in memory. The contract
that is deployed under its hash is what is kept of it. -/
theorem collected_of_memory :
    let code : Bytes := [Opcode.pushTrue]
    let contract : Contract := ⟨1, Hash.ofScript code, "kept", .make "compiler" "" code⟩
    let session : Session StackMachine MemoryStore :=
      ((Session.ofMachine (.create ⟨1⟩ (Snapshot.empty.deploy contract) .default [])).subscribe
        ⟨fun _ _ ↦ pure ()⟩).2
    let store : MemoryStore := .ofFiles [] []
    let calls := [Call.load code, .execute 9, .load [Opcode.abort], .execute 9]
    MemoryStore.storage.Reliable MemoryStore.Sound MemoryStore.content ∧
      MemoryStore.storage.Lawful MemoryStore.view ∧
      (∀ p ∈ session.observers,
        p.2.Spares MemoryStore.Sound MemoryStore.content MemoryStore.view) ∧
      session.machine.frames = [] ∧ store.Sound ∧ store.Fair ∧
      (∀ s, MemoryStore.view.file store (artifactPlace MemoryStore.view "out" s) = none) ∧
      ∃ engine store₁,
        CoverageEngine.start MemoryStore.storage ⟨"out"⟩ "run" none session store =
          .ok engine store₁ ∧
        ∃ ended engine' store₂ told ss,
          Engine.drive calls (engine, store₁) = .ok ended (engine', store₂) ∧
          Course (Engine.witnessed none session.overrides) calls ended session.machine ss
            engine'.session.machine ∧
          pushes told = (ss.flatMap fun s ↦ pushed s.before s.after) ∧
          Collected MemoryStore.view "out" session.machine.snapshot (pushes told)
            (engine'.recorder, store₂) := by
  intro code contract session store calls
  have hsound : store.Sound := MemoryStore.sound_ofFiles []
  have hfair : store.Fair := fun _ hr ↦ absurd hr List.not_mem_nil
  have hothers : ∀ p ∈ session.observers,
      p.2.Spares MemoryStore.Sound MemoryStore.content MemoryStore.view := by
    intro p hp
    obtain rfl := List.mem_singleton.mp hp
    exact ⟨fun _ _ _ ht ↦ .pure ⟨ht, rfl⟩, fun _ _ _ ht ↦ .pure (.refl ht)⟩
  obtain ⟨engine, store₁, hstart⟩ : ∃ engine store₁,
      CoverageEngine.start MemoryStore.storage ⟨"out"⟩ "run" none session store =
        .ok engine store₁ := ⟨_, _, rfl⟩
  obtain ⟨ended, engine', store₂, told, ss, hrun, hcourse, hpushes, hcollected, -⟩ :=
    drive_collected MemoryStore.reliable MemoryStore.lawful ⟨"out"⟩ "run" none hothers rfl
      (MemoryStore.injOn_fileNames "out" "run") hsound hfair (fun _ ↦ rfl) hstart calls
  exact ⟨MemoryStore.reliable, MemoryStore.lawful, hothers, rfl, hsound, hfair, fun _ ↦ rfl, engine,
    store₁, hstart, ended, engine', store₂, told, ss, hrun, hcourse, hpushes, hcollected⟩

end Calls

end CoverageRecorder

end ScriptTrace
