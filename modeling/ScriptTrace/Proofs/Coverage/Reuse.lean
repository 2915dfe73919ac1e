import ScriptTrace.Proofs.Coverage.Dispatches
import ScriptTrace.Proofs.StackMachine.Guise

/-!
A coverage engine that is used again. What a recorder writes depends on the story and on the branch
whose outcome is not known yet, and on nothing else that it has seen. No branch is left open by a
turn, so the lines of a script do not show the scripts that ran before it (`drive_alone`).
-/

set_option autoImplicit false
set_option relaxedAutoImplicit false

namespace ScriptTrace

namespace CoverageRecorder

open CoverageLine CoverageWriter StackMachine

/-! ### Lines under a guise -/

section Lines

variable {r r' : CoverageRecorder}

/-- What a recorder writes is determined by the event and by the branch that is open. -/
theorem tell_under (g : Guise) (h : r'.pending = r.pending) (n : Notice) :
    (r'.tell (n.under g)).1.pending = (r.tell n).1.pending ∧
      (r'.tell (n.under g)).2 = (r.tell n).2 := by
  obtain ⟨view, event⟩ := n
  cases event with
  | contextLoaded context => exact ⟨h, rfl⟩
  | contextUnloaded context => exact ⟨h, rfl⟩
  | preExecute i =>
    have hhash : (view.under g).currentHash = view.currentHash := rfl
    have hposition : (view.under g).currentPointer = view.currentPointer := rfl
    simp only [tell, Notice.under, Event.under, hhash, hposition]
    split
    · exact ⟨rfl, rfl⟩
    · exact ⟨h, rfl⟩
  | postExecute i =>
    refine ⟨rfl, ?_⟩
    simp only [tell, Notice.under, Event.under, h]
    rfl
  | fault exception => exact ⟨rfl, rfl⟩
  | log event => exact ⟨h, rfl⟩
  | notify event => exact ⟨h, rfl⟩

theorem recount_under (g : Guise) (h : r'.pending = r.pending) (told : List Notice) :
    (recount tell (r', []) (told.map (Notice.under g))).2 = (recount tell (r, []) told).2 := by
  induction told generalizing r r' with
  | nil => rfl
  | cons n rest ih =>
    obtain ⟨hpending, hlines⟩ := tell_under g h n
    rw [List.map_cons, snd_recount_cons, snd_recount_cons, hlines, ih hpending]

/-! ### No branch is left open -/

/-- A turn ends with an event that closes the branch, if it begins with one that opens it. -/
theorem pending_of_turn {overrides : Overrides} {m : StackMachine} {t : Turn StackMachine}
    (hturn : turn overrides m = some t) {q : CoverageRecorder × List CoverageLine}
    (h : q.1.pending = none) : (recount tell q (t.notices m)).1.pending = none := by
  cases outcome_of_turn hturn with
  | empty => exact h
  | undecodable => rfl
  | @completed i events m' hcompletes =>
    rw [Turn.notices, List.map_append, ← List.append_assoc, recount_append]
    rfl
  | faulted => rfl

/-- No branch is left open on the way of a machine. -/
theorem pending_of_route {overrides : Overrides} {calls : List Call} {ended : Bool}
    {m m' : StackMachine} {told : List Notice} (hroute : Route overrides calls ended m told m')
    {q : CoverageRecorder × List CoverageLine} (h : q.1.pending = none) :
    (recount tell q told).1.pending = none := by
  let inv (told : List Notice) (_ : StackMachine) : Prop :=
    (recount tell q told).1.pending = none
  have hload (told : List Notice) (m : StackMachine) (code : Bytes) (hinv : inv told m) :
      inv (told ++ (m.load code).notices m) (m.load code).next := by
    show (recount tell q (told ++ _)).1.pending = none
    rw [recount_append]
    exact hinv
  have hturn (told : List Notice) (m : StackMachine) (t : Turn StackMachine) (hinv : inv told m)
      (hnext : turn overrides m = some t) : inv (told ++ t.notices m) t.next := by
    show (recount tell q (told ++ _)).1.pending = none
    rw [recount_append]
    exact pending_of_turn hnext hinv
  have hend : inv ([] ++ told) m' := hroute.preserves hload hturn [] h
  exact hend

end Lines

/-! ### Sessions -/

/-- Assumes: a storage that does not fail, and two engines, the machine of one being new and that of
the other beginning anew. Calls that begin with a load bring the same lines. -/
theorem drive_alone {τ : Type} {fs : Storage τ} {sound : τ → Prop}
    {content : τ → Handle → Option Bytes} (hfs : fs.Reliable sound content)
    {overrides : Overrides} {e f : CoverageEngine StackMachine τ}
    (he : e.Watches (observer fs) overrides) (hf : f.Watches (observer fs) overrides)
    {q : CoverageRecorder × List CoverageLine} {before : List Notice} {w : CoverageWriter} {t u : τ}
    (hreports : Reports q before (hashesOf e.session.machine.reset))
    (htold : Told sound content q (e.recorder, t)) (hpending : q.1.pending = none)
    (hrenewed : e.session.machine.Renewed) {session : SessionId}
    (hmachine : f.session.machine = e.session.machine.another session)
    (hbegin : Told sound content (.ofWriter w, []) (f.recorder, u))
    (hignores : overrides.Ignores session ⟨e.session.machine.session, e.session.machine.gas⟩)
    (code : Bytes) (calls : List Call) :
    ∃ ended e' t' f' u' lines, Engine.drive (.load code :: calls) (e, t) = .ok ended (e', t') ∧
      Engine.drive (.load code :: calls) (f, u) = .ok ended (f', u') ∧
      Holds sound content f'.recorder.writer u' lines ∧
      e'.recorder.writer.log = e.recorder.writer.log ∧
      Holds sound content e'.recorder.writer t' (q.2 ++ lines) := by
  have hempty : Reports (.ofWriter w, []) [] (hashesOf f.session.machine.reset) := by
    rw [hmachine]
    exact .begin w
  obtain ⟨ended, ⟨e', t'⟩, hrun, -, told, hroute, -, -, htold'⟩ :=
    drive_reports (retells hfs) he hreports htold (.load code :: calls)
  obtain ⟨ended', ⟨f', u'⟩, halone, -, others, hother, -, -, hothers⟩ :=
    drive_reports (retells hfs) hf hempty hbegin (.load code :: calls)
  rw [hmachine] at hother
  obtain ⟨rfl, rfl, -⟩ := (hother.of_another hrenewed hignores).unique hroute
  have hlines := recount_under ⟨e.session.machine.session, e.session.machine.gas⟩
    (show q.1.pending = (ofWriter w).pending from hpending) others
  have hholds := htold'.holds
  rw [recount_eq, hlines] at hholds
  have hlog := htold'.log_eq
  rw [writer_recount, ← htold.log_eq] at hlog
  exact ⟨ended', e', t', f', u', _, hrun, halone, hothers.holds, hlog, hholds⟩

/-- Assumes: a storage that does not fail, and a session without observers and replaced system
calls, on which some scripts ran to their ends. The next script adds the lines to the log that
it adds to that of a new session. -/
theorem drive_runs {τ : Type} {fs : Storage τ} {sound : τ → Prop}
    {content : τ → Handle → Option Bytes} (hfs : fs.Reliable sound content)
    (checker : Option WitnessChecker) {session : Session StackMachine τ}
    (hobservers : session.observers = []) (hoverrides : session.overrides = .empty)
    (hrenewed : session.machine.Renewed) (config config' : CoverageConfig)
    (sessionName sessionName' : String) (identity : SessionId) {t₀ t₁ t u₀ u : τ} (ht₀ : sound t₀)
    (hu₀ : sound u₀) {built e f : CoverageEngine StackMachine τ}
    (hbuilt : CoverageEngine.start fs config sessionName checker session t₀ = .ok built t₁)
    {scripts : List (Bytes × Nat)}
    (hscripts : Engine.drive (Call.runs scripts) (built, t₁) = .ok true (e, t))
    (hnew : CoverageEngine.start fs config' sessionName' checker
      (.ofMachine (session.machine.another identity)) u₀ = .ok f u)
    (code : Bytes) (budget : Nat) :
    ∃ ended e' t' f' u' before lines,
      Engine.drive (Call.runs [(code, budget)]) (e, t) = .ok ended (e', t') ∧
      Engine.drive (Call.runs [(code, budget)]) (f, u) = .ok ended (f', u') ∧
      Holds sound content f'.recorder.writer u' lines ∧
      Holds sound content e.recorder.writer t before ∧
      e'.recorder.writer.log = e.recorder.writer.log ∧
      Holds sound content e'.recorder.writer t' (before ++ lines) := by
  obtain ⟨other, u₁, hother, hrest⟩ := bind_eq_ok hnew
  obtain ⟨rfl, rfl⟩ := EStateM.Result.ok.inj hrest
  have hwatched : (Engine.start (observer fs) (.ofWriter other) checker
      (.ofMachine (session.machine.another identity))).Watches (observer fs)
        (Engine.witnessed checker .empty) := Engine.watches_witnessed _ _ checker rfl
  have hempty : hashesOf session.machine.reset = [] := by
    rw [hrenewed]
    rfl
  obtain ⟨writer, _, _, hrun, he, told, hroute, hreports, htold⟩ :=
    drive_start hfs hobservers hempty ht₀ hbuilt (Call.runs scripts)
  obtain ⟨rfl, rfl⟩ := EStateM.Result.ok.inj (hrun.symm.trans hscripts)
  rw [hoverrides] at he hroute
  obtain ⟨hrenewed', hsetting⟩ := hroute.renewed hrenewed
  have hpending := pending_of_route hroute
    (show (CoverageRecorder.ofWriter writer, ([] : List CoverageLine)).1.pending = none from rfl)
  have hanother : (Engine.start (observer fs) (.ofWriter other) checker
      (.ofMachine (session.machine.another identity))).session.machine =
        e.session.machine.another identity := by
    rw [another_eq_of_setting_eq hsetting]
    exact Engine.machine_start _ _ checker _
  have hfresh : Told sound content (.ofWriter other, []) (.ofWriter other, u₁) :=
    ⟨rfl, rfl, holds_start hfs hu₀ hother⟩
  obtain ⟨ended, e', t', f', u', lines, hnext, halone, hlines, hlog, hmore⟩ :=
    drive_alone hfs he hwatched hreports htold hpending hrenewed' hanother hfresh
      ((Overrides.ignores_empty identity _).witnessed checker) code [.execute budget]
  exact ⟨ended, e', t', f', u', _, lines, hnext, halone, hlines, htold.holds, hlog, hmore⟩

end CoverageRecorder

end ScriptTrace
