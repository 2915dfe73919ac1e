import ScriptTrace.Coverage.Engine
import ScriptTrace.Proofs.Session.Disposal
import ScriptTrace.StackMachine
import ScriptTrace.Storage.Memory
import ScriptTrace.Trace.Engine

/-!
The replaced system calls of a session that is instrumented for a while. Building an engine replaces
the witness check if a predicate is given, and nothing else; calls replace nothing; the first
disposal drops the replacement of the witness check if there was a predicate
(`Engine.overrides_performAll`). So a session gets back what its owner had replaced, except for a
witness check of the owner's own where the engine was given a predicate: that one is lost
(`overrides_restored`, `witness_override_lost`).
-/

set_option autoImplicit false
set_option relaxedAutoImplicit false

namespace ScriptTrace

/-- A system call depends on its own replacement only. -/
theorem StackMachine.syscall_congr {overrides overrides' : Overrides} {hash : UInt32}
    (h : overrides.get? hash = overrides'.get? hash) :
    syscall overrides hash = syscall overrides' hash := by
  unfold syscall
  rw [h]

namespace Engine

variable {M ρ τ : Type} {e : Engine M ρ τ} {t : τ}

/-- What an engine has put in place: the replaced system calls, whether witness checks are among
them, and the subscription of the recorder. -/
def arrangement (e : Engine M ρ τ) : Overrides × Bool × Option Nat :=
  (e.session.overrides, e.witnessOverride, e.subscription)

/-- The system calls that are replaced behind the disposal of an engine. -/
def restored (checker : Option WitnessChecker) (overrides : Overrides) : Overrides :=
  match checker with
  | none => overrides
  | some _ => overrides.erase Syscall.checkWitness.hash

theorem arrangement_start (o : Observer (ρ × τ)) (recorder : ρ) (checker : Option WitnessChecker)
    (session : Session M τ) : (start o recorder checker session).arrangement =
      (witnessed checker session.overrides, checker.isSome, some session.nextSubscription) := by
  cases checker <;> rfl

theorem isDisposed_of_arrangement_eq {e' : Engine M ρ τ} (h : e'.arrangement = e.arrangement) :
    e'.isDisposed = e.isDisposed :=
  congrArg (fun arrangement ↦ arrangement.2.2.isNone) h

/-- The first disposal. -/
theorem arrangement_dispose (close : EStateM TracerError (ρ × τ) Unit)
    (hopen : e.isDisposed = false) :
    (leaves (dispose close) (e, t)).1.arrangement =
      (if e.witnessOverride then e.session.overrides.erase Syscall.checkWitness.hash
        else e.session.overrides, false, none) := by
  obtain ⟨subscription, hsubscription⟩ : ∃ subscription, e.subscription = some subscription :=
    Option.isSome_iff_exists.mp (by rwa [isDisposed, Option.isNone_eq_false_iff] at hopen)
  let kept := if e.witnessOverride then e.session.overrides.erase Syscall.checkWitness.hash
    else e.session.overrides
  have hends : Ends (dispose close) (e, t)
      (fun _ next ↦ next.1.arrangement = (kept, false, none))
      fun _ next ↦ next.1.arrangement = (kept, false, none) := by
    refine .get_bind ?_
    simp only [hsubscription]
    refine .modify_bind ?_
    have hkept : (if e.witnessOverride then
        ((e.session.unsubscribe subscription).2.restoreWitness).2
        else (e.session.unsubscribe subscription).2).overrides = kept := by
      simp only [kept]
      split <;> rfl
    unfold Ends onSession onSecond
    dsimp only
    cases close (e.recorder, t) <;> exact congrArg (·, false, none) hkept
  exact hends.leaves

theorem Stands.arrangement_eq {inv : M → ρ × τ → Prop} {next : Engine M ρ τ × τ}
    (h : e.Stands inv next) : next.1.arrangement = e.arrangement := by
  obtain ⟨m, r, hnext, -⟩ := h
  rw [hnext]
  rfl

section Perform

variable [Machine M] (close : EStateM TracerError (ρ × τ) Unit)

/-- Whatever else a host does, and whatever it does with an engine that was disposed of. -/
theorem arrangement_perform {u : Use τ} (hu : u.disposes = false ∨ e.isDisposed = true) :
    (leaves (perform close u) (e, t)).1.arrangement = e.arrangement := by
  have hbeneath (c : Call) :
      (leaves (onSession (Session.make c)) (e, t)).1.arrangement = e.arrangement := by
    have hstands := (stands_make e t c).leaves
    exact hstands.arrangement_eq
  cases hdisposes : u.disposes with
  | true =>
    have hdisposed : e.isDisposed = true := hu.resolve_left (by simp [hdisposes])
    rw [leaves_perform_of_disposes close hdisposes, leaves, dispose_of_disposed hdisposed]
  | false =>
    cases u with
    | call c =>
      cases hdisposed : e.isDisposed with
      | false =>
        rw [perform, leaves, make_of_open hdisposed]
        exact hbeneath c
      | true =>
        rw [perform, leaves, make_of_disposed hdisposed]
    | beneath c => exact hbeneath c
    | subscribe o => rfl
    | dispose => cases hdisposes
    | drop => cases hdisposes

theorem arrangement_performAll {s : Engine M ρ τ × τ} {uses : List (Use τ)}
    (huses : (∀ u ∈ uses, u.disposes = false) ∨ s.1.isDisposed = true) :
    (performAll close uses s).1.arrangement = s.1.arrangement := by
  induction uses generalizing s with
  | nil => rfl
  | cons u rest ih =>
    have hfirst : (leaves (perform close u) s).1.arrangement = s.1.arrangement :=
      arrangement_perform close (huses.imp_left fun h ↦ h u List.mem_cons_self)
    refine (ih ?_).trans hfirst
    rw [isDisposed_of_arrangement_eq hfirst]
    exact huses.imp_left fun h v hv ↦ h v (List.mem_cons_of_mem u hv)

/-- What a host does up to the first disposal of an engine, that disposal, and what it does later.
The replaced system calls are those of the engine before it, and what is left of them behind it. -/
theorem overrides_performAll (o : Observer (ρ × τ)) (recorder : ρ)
    (checker : Option WitnessChecker) (session : Session M τ) (t : τ) {early later : List (Use τ)}
    {disposal : Use τ} (hearly : ∀ u ∈ early, u.disposes = false)
    (hdisposal : disposal.disposes = true) :
    let before := performAll close early (start o recorder checker session, t)
    let after := performAll close later (leaves (perform close disposal) before)
    before.1.session.overrides = witnessed checker session.overrides ∧
      after.1.session.overrides = restored checker session.overrides := by
  intro before after
  have hbefore : before.1.arrangement =
      (witnessed checker session.overrides, checker.isSome, some session.nextSubscription) :=
    (arrangement_performAll close (.inl hearly)).trans
      (arrangement_start o recorder checker session)
  obtain ⟨hoverrides, hwitness, hsubscription⟩ :
      before.1.session.overrides = witnessed checker session.overrides ∧
        before.1.witnessOverride = checker.isSome ∧
        before.1.subscription = some session.nextSubscription := by
    simpa only [arrangement, Prod.mk.injEq] using hbefore
  have hdisposed : (leaves (perform close disposal) before).1.arrangement =
      (restored checker session.overrides, false, none) := by
    have hopen : before.1.isDisposed = false := by
      rw [isDisposed, hsubscription, Option.isNone_some]
    rw [leaves_perform_of_disposes close hdisposal, arrangement_dispose close hopen, hwitness,
      hoverrides]
    cases checker with
    | none => rfl
    | some c => rw [Option.isSome_some, if_pos rfl, witnessed, Table.erase_set, restored]
  have hafter : after.1.arrangement = (restored checker session.overrides, false, none) := by
    refine (arrangement_performAll close (.inr ?_)).trans hdisposed
    exact congrArg (fun arrangement ↦ arrangement.2.2.isNone) hdisposed
  exact ⟨hoverrides, congrArg Prod.fst hafter⟩

end Perform

/-- Whatever a host does with an engine, behind its disposal the system calls are those of the owner
of the session, if the engine was given no predicate for witness checks or the owner had not
replaced them. In any case all others are, and with a predicate the machine itself answers witness
checks. -/
def GivesBack (close : EStateM TracerError (ρ × τ) Unit) (checker : Option WitnessChecker)
    (overrides : Overrides) (s : Engine StackMachine ρ τ × τ) : Prop :=
  ∀ (early : List (Use τ)) (disposal : Use τ) (later : List (Use τ)),
    (∀ u ∈ early, u.disposes = false) → disposal.disposes = true →
    let before := performAll close early s
    let after :=
      (performAll close later (leaves (perform close disposal) before)).1.session.overrides
    (after = overrides ↔ checker = none ∨ overrides.get? Syscall.checkWitness.hash = none) ∧
      (∀ hash, hash ≠ Syscall.checkWitness.hash →
        StackMachine.syscall after hash = StackMachine.syscall overrides hash) ∧
      (checker ≠ none → StackMachine.syscall after Syscall.checkWitness.hash =
        StackMachine.syscall .empty Syscall.checkWitness.hash)

theorem givesBack_start (o : Observer (ρ × τ)) (recorder : ρ)
    (close : EStateM TracerError (ρ × τ) Unit) (checker : Option WitnessChecker)
    (session : Session StackMachine τ) (t : τ) :
    GivesBack close checker session.overrides (start o recorder checker session, t) := by
  intro early disposal later hearly hdisposal before after
  have hafter : after = restored checker session.overrides :=
    (overrides_performAll close o recorder checker session t hearly hdisposal).2
  rw [hafter]
  cases checker with
  | none =>
    exact ⟨iff_of_true rfl (.inl rfl), fun _ _ ↦ rfl, fun hnone ↦ absurd rfl hnone⟩
  | some c =>
    refine ⟨?_, fun hash hne ↦ StackMachine.syscall_congr ?_,
      fun _ ↦ StackMachine.syscall_congr ?_⟩
    · rw [restored, Table.erase_eq_self_iff]
      exact ⟨.inr, fun h ↦ h.resolve_left nofun⟩
    · rw [restored, Table.get?_erase, if_neg (Ne.symm hne)]
    · rw [restored, Table.get?_erase, if_pos rfl]
      rfl

end Engine

/-- Coverage engines and trace engines, with any storage and any sink, over a session with any
observers and any replaced system calls. -/
theorem overrides_restored {σ : Type} (session : Session StackMachine σ)
    (checker : Option WitnessChecker) :
    (∀ (fs : Storage σ) (config : CoverageConfig) (sessionName : String) (s t : σ)
      (engine : CoverageEngine StackMachine σ),
      CoverageEngine.start fs config sessionName checker session s = .ok engine t →
      Engine.GivesBack (CoverageEngine.close fs) checker session.overrides (engine, t)) ∧
    ∀ (sink : Sink σ) (config : TraceConfig) (names : NameCache) (t : σ),
      Engine.GivesBack (TraceEngine.close sink) checker session.overrides
        (TraceEngine.start sink config names checker session, t) := by
  constructor
  · intro fs config sessionName s t engine hstart
    obtain ⟨writer, _, -, hrest⟩ := bind_eq_ok hstart
    obtain ⟨rfl, rfl⟩ := EStateM.Result.ok.inj hrest
    exact Engine.givesBack_start _ _ _ checker session _
  · intro sink config names t
    exact Engine.givesBack_start _ _ _ checker session t

/-- The owner has replaced signature checks and has an observer, and the engines answer witness
checks by a predicate. A script runs before the disposal and another one after it. -/
theorem overrides_restored_of_signatures :
    let quiet : Observer MemoryStore := ⟨fun _ _ ↦ pure ()⟩
    let session : Session StackMachine MemoryStore :=
      ((Session.ofMachine (.create ⟨1⟩ .empty .default [])).subscribe quiet).2.override
        Syscall.checkSignature.hash fun _ _ ↦ .ok (some (.boolean true))
    let store : MemoryStore := .ofFiles [] []
    let forgetting : Sink MemoryStore := ⟨fun _ ↦ pure (), pure (), fun _ s ↦ s⟩
    let checker : Option WitnessChecker := some fun _ ↦ false
    let early : List (Use MemoryStore) := [.call (.load [Opcode.abort]), .call (.execute 9)]
    let later : List (Use MemoryStore) := [.beneath (.load [Opcode.ret]), .beneath (.execute 9)]
    (∀ u ∈ early, u.disposes = false) ∧ (Use.drop : Use MemoryStore).disposes = true ∧
      session.overrides.get? Syscall.checkWitness.hash = none ∧
      (∃ engine t, CoverageEngine.start MemoryStore.storage .default "run" checker session store =
          .ok engine t ∧
        let close := CoverageEngine.close MemoryStore.storage
        let before := Engine.performAll close early (engine, t)
        let after := Engine.performAll close later (leaves (Engine.perform close .drop) before)
        after.1.session.overrides = session.overrides) ∧
      let close := TraceEngine.close forgetting
      let before := Engine.performAll close early
        (TraceEngine.start forgetting .default .empty checker session, store)
      let after := Engine.performAll close later (leaves (Engine.perform close .drop) before)
      after.1.session.overrides = session.overrides := by
  intro quiet session store forgetting checker early later
  have hearly : ∀ u ∈ early, u.disposes = false := by simp [early, Use.disposes]
  have hfree : session.overrides.get? Syscall.checkWitness.hash = none := by decide +kernel
  obtain ⟨hcoverage, htrace⟩ := overrides_restored session checker
  obtain ⟨engine, t, hstart⟩ : ∃ engine t,
      CoverageEngine.start MemoryStore.storage .default "run" checker session store =
        .ok engine t := ⟨_, _, rfl⟩
  refine ⟨hearly, rfl, hfree, ⟨engine, t, hstart, ?_⟩, ?_⟩
  · exact ((hcoverage MemoryStore.storage .default "run" store t engine hstart) early .drop later
      hearly rfl).1.mpr (.inr hfree)
  · exact (htrace forgetting .default .empty store early .drop later hearly rfl).1.mpr (.inr hfree)

/-- The owner answers witness checks with true, and an engine is built with a predicate and disposed
of. A script that checks a witness is told false afterwards, and true if there was no engine. -/
theorem witness_override_lost :
    let session : Session StackMachine Unit :=
      (Session.ofMachine (.create ⟨1⟩ .empty .default [])).override Syscall.checkWitness.hash
        fun _ _ ↦ .ok (some (.boolean true))
    let forgetting : Sink Unit := ⟨fun _ ↦ pure (), pure (), fun _ s ↦ s⟩
    let close := TraceEngine.close forgetting
    let engine : TraceEngine StackMachine Unit :=
      TraceEngine.start forgetting .default .empty (some fun _ ↦ false) session
    let script : Bytes := Opcode.pushData :: 20 :: List.replicate 20 5 ++
      Opcode.syscall :: Bytes.ofUInt32 Syscall.checkWitness.hash
    let after := Engine.performAll close
      [.dispose, .beneath (.load script), .beneath (.execute 9)] (engine, ())
    let never := leaves (Session.make (.execute 9))
      (leaves (Session.make (.load script)) (session, ()))
    after.1.session.machine.results = [.boolean false] ∧
      never.1.machine.results = [.boolean true] ∧
      after.1.session.overrides ≠ session.overrides := by
  intro session forgetting close engine script after never
  have hafter : after.1.session.machine.results = [.boolean false] := by decide +kernel
  have hnever : never.1.machine.results = [.boolean true] := by decide +kernel
  refine ⟨hafter, hnever, fun hsame ↦ ?_⟩
  have hlost : (after.1.session.overrides.get? Syscall.checkWitness.hash).isSome = false := by
    decide +kernel
  have hheld : (session.overrides.get? Syscall.checkWitness.hash).isSome = true := by
    decide +kernel
  rw [hsame, hheld] at hlost
  cases hlost

end ScriptTrace
