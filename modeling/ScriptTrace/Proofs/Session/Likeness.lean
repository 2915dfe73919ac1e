import ScriptTrace.Proofs.Likeness
import ScriptTrace.Proofs.Session.Drive

/-!
Two sessions of one machine that differ in their observers. If the observers match each other at all
that a machine may tell them, so do the moves, loads and executions of the sessions, and those of
the engines that instrument them: the machine is the same all the time, and what one observer
answers the other answers too.
-/

set_option autoImplicit false
set_option relaxedAutoImplicit false

namespace ScriptTrace

variable {M σ σ' : Type} [Machine M]

/-- The same session with other observers. -/
def Session.observedBy (s : Session M σ) (others : List (Nat × Observer σ')) : Session M σ' :=
  { s with observers := others }

/-- A session of a machine that satisfies a condition. -/
structure Session.Runs (inv : M → Prop) (overrides : Overrides)
    (observers : List (Nat × Observer σ)) (s : Session M σ) : Prop where
  machine : inv s.machine
  overrides_eq : s.overrides = overrides
  observers_eq : s.observers = observers

/-- Sessions of one machine with different observers. -/
def Likeness.session (L : Likeness σ σ') (inv : M → Prop) (overrides : Overrides)
    (observers : List (Nat × Observer σ)) (others : List (Nat × Observer σ')) :
    Likeness (Session M σ × σ) (Session M σ' × σ') where
  records s := L.records s.2
  sound s := s.1.Runs inv overrides observers ∧ L.sound s.2
  like s s' := s'.1 = s.1.observedBy others ∧ L.like s.2 s'.2

/-- A condition on machines that loads and turns preserve, and under which they tell observers
allowed things only. -/
structure Preserved (overrides : Overrides) (inv : M → Prop) (allows : Notice → Prop) : Prop where
  load : ∀ m code, inv m → inv (Machine.load code m).next ∧
    ∀ n ∈ (Machine.load code m).notices m, allows n
  turn : ∀ m t, inv m → Machine.turn overrides m = some t → inv t.next ∧
    ∀ n ∈ t.notices m, allows n

/-- Observers are told allowed things only on the way of a machine. -/
theorem Preserved.of_route {overrides : Overrides} {inv : M → Prop} {allows : Notice → Prop}
    (h : Preserved overrides inv allows) {calls : List Call} {ended : Bool} {m m' : M}
    {told : List Notice} (hroute : Route overrides calls ended m told m') (hm : inv m) :
    ∀ n ∈ told, allows n := by
  let allowed (told : List Notice) (m : M) : Prop := inv m ∧ ∀ n ∈ told, allows n
  have hmove {told others : List Notice} {m' : M} (htold : ∀ n ∈ told, allows n)
      (hnext : inv m' ∧ ∀ n ∈ others, allows n) : allowed (told ++ others) m' :=
    ⟨hnext.1, List.forall_mem_append.mpr ⟨htold, hnext.2⟩⟩
  have hload (told : List Notice) (m : M) (code : Bytes) (hm : allowed told m) :
      allowed (told ++ (Machine.load code m).notices m) (Machine.load code m).next :=
    hmove hm.2 (h.load m code hm.1)
  have hturn (told : List Notice) (m : M) (t : Turn M) (hm : allowed told m)
      (hnext : Machine.turn overrides m = some t) : allowed (told ++ t.notices m) t.next :=
    hmove hm.2 (h.turn m t hm.1 hnext)
  have hbegin : allowed [] m := ⟨hm, List.forall_mem_nil allows⟩
  exact (hroute.preserves hload hturn [] hbegin).2

/-- Two observers match each other at allowed notices. -/
def Observer.Matches (L : Likeness σ σ') (raises : TracerError → Prop) (allows : Notice → Prop)
    (o : Observer σ) (o' : Observer σ') : Prop :=
  ∀ view event host, allows (view, event) → L.sound host →
    ScriptTrace.Matches L raises (o.notice view event) (o'.notice view event) host

namespace Session

variable {L : Likeness σ σ'} {raises : TracerError → Prop} {allows : Notice → Prop}
  {inv : M → Prop} {overrides : Overrides} {observers : List (Nat × Observer σ)}
  {others : List (Nat × Observer σ')} {s : Session M σ} {host : σ}

omit [Machine M] in
/-- An operation of the observers. -/
theorem matches_onSecond {α : Type} {x : EStateM TracerError σ α} {y : EStateM TracerError σ' α}
    (hs : (L.session inv overrides observers others).sound (s, host))
    (hx : Matches L raises x y host) :
    Matches (L.session inv overrides observers others) raises (onSecond x) (onSecond y)
      (s, host) := by
  obtain ⟨answer, next, hrun, hsound, hkept, hraises, hlike⟩ := hx
  refine ⟨answer, (s, next), onSecond_eq hrun s, ⟨hs.1, hsound⟩, hkept, hraises,
    fun hall s' hs' ↦ ?_⟩
  obtain ⟨s', host'⟩ := s'
  obtain ⟨hsame, hhost⟩ := hs'
  obtain ⟨next', hrun', hnext⟩ := hlike hall host' hhost
  exact ⟨(s', next'), onSecond_eq hrun' s', hsame, hnext⟩

variable (hobservers : List.Forall₂ (fun o o' ↦ o.2.Matches L raises allows o'.2) observers others)
include hobservers

omit [Machine M] in
theorem matches_report (hs : s.observers = observers) {view : View} {events : List Event}
    (hallowed : ∀ event ∈ events, allows (view, event)) (hhost : L.sound host) :
    Matches L raises (s.report view events) ((s.observedBy others).report view events) host := by
  unfold report
  rw [hs]
  refine .forM (fun event hevent host hhost ↦ ?_) hhost
  refine .forM₂ (hobservers.imp fun o o' ho host hhost ↦ ?_) hhost
  exact ho view event host (hallowed event hevent) hhost

omit [Machine M] in
theorem matches_announce (hs : (L.session inv overrides observers others).sound (s, host))
    {view : View} {events : List Event} (hallowed : ∀ event ∈ events, allows (view, event)) :
    Matches (L.session inv overrides observers others) raises (announce view events)
      (announce view events) (s, host) := by
  have hreport := matches_report hobservers hs.1.observers_eq hallowed hs.2
  refine .get_bind (matches_onSecond hs hreport) ?_
  rintro ⟨_, host'⟩ ⟨rfl, -⟩
  rfl

/-- Both machines make the same move. -/
theorem matches_move (hs : (L.session inv overrides observers others).sound (s, host)) {t : Turn M}
    (hnext : inv t.next) (hallowed : ∀ n ∈ t.notices s.machine, allows n) :
    Matches (L.session inv overrides observers others) raises (move t) (move t) (s, host) := by
  have hbefore : ∀ event ∈ t.before.toList, allows (Machine.view s.machine, event) :=
    fun event hevent ↦ hallowed _ (List.mem_append_left _ (List.mem_map_of_mem hevent))
  have hafter : ∀ event ∈ t.after, allows (Machine.view t.next, event) :=
    fun event hevent ↦ hallowed _ (List.mem_append_right _ (List.mem_map_of_mem hevent))
  refine .get_bind (y := do
    announce (Machine.view s.machine) t.before.toList
    modify fun p ↦ ({ p.1 with machine := t.next }, p.2)
    announce (Machine.view t.next) t.after) ?_ ?_
  · refine (matches_announce hobservers hs hbefore).bind fun _ next hnext₁ ↦ ?_
    obtain ⟨s₁, host₁⟩ := next
    obtain ⟨⟨-, hoverrides, hsame⟩, hhost⟩ := hnext₁
    refine Matches.bind (.modify ⟨⟨hnext, hoverrides, hsame⟩, hhost⟩ rfl ?_) fun _ _ hnext₂ ↦ ?_
    · rintro ⟨_, host'⟩ ⟨rfl, hlike⟩
      exact ⟨rfl, hlike⟩
    · exact matches_announce hobservers hnext₂ hafter
  · rintro ⟨_, host'⟩ ⟨rfl, -⟩
    rfl

variable (hinv : Preserved overrides inv allows)
include hinv

theorem matches_load (hs : (L.session inv overrides observers others).sound (s, host))
    (code : Bytes) :
    Matches (L.session inv overrides observers others) raises (load code) (load code)
      (s, host) := by
  obtain ⟨hnext, hallowed⟩ := hinv.load s.machine code hs.1.machine
  refine .get_bind (matches_move hobservers hs hnext hallowed) ?_
  rintro ⟨_, host'⟩ ⟨rfl, -⟩
  rfl

theorem matches_step (hs : (L.session inv overrides observers others).sound (s, host)) :
    Matches (L.session inv overrides observers others) raises step step (s, host) := by
  cases hturn : Machine.turn s.overrides s.machine with
  | none =>
    refine .get_bind (y := pure false) ?_ ?_
    · simp only [hturn]
      exact .pure hs false
    · rintro ⟨_, host'⟩ ⟨rfl, -⟩
      simp only [observedBy, hturn]
  | some t =>
    obtain ⟨hnext, hallowed⟩ := hinv.turn s.machine t hs.1.machine (hs.1.overrides_eq ▸ hturn)
    refine .get_bind (y := do
      move t
      return true) ?_ ?_
    · simp only [hturn]
      exact (matches_move hobservers hs hnext hallowed).bind fun _ next hend ↦ .pure hend true
    · rintro ⟨_, host'⟩ ⟨rfl, -⟩
      simp only [observedBy, hturn]

theorem matches_execute (hs : (L.session inv overrides observers others).sound (s, host))
    (budget : Nat) :
    Matches (L.session inv overrides observers others) raises (execute budget) (execute budget)
      (s, host) := by
  induction budget generalizing s host with
  | zero => exact .pure hs none
  | succ budget ih =>
    refine (matches_step hobservers hinv hs).bind fun more next hnext ↦ ?_
    obtain ⟨s₁, host₁⟩ := next
    cases more with
    | true => exact ih hnext
    | false =>
      refine .get_bind (.pure hnext _) ?_
      rintro ⟨_, host'⟩ ⟨rfl, -⟩
      rfl

end Session

/-! ### Engines -/

/-- Engines over sessions of one machine, as long as they are not disposed of. -/
def Likeness.engine {ρ τ τ' : Type} (L : Likeness (ρ × τ) (ρ × τ')) (inv : M → Prop)
    (overrides : Overrides) (observers : List (Nat × Observer (ρ × τ)))
    (others : List (Nat × Observer (ρ × τ'))) :
    Likeness (Engine M ρ τ × τ) (Engine M ρ τ' × τ') where
  records s := L.records (s.1.recorder, s.2)
  sound s := L.sound (s.1.recorder, s.2) ∧
    (s.1.isDisposed = false → s.1.session.Runs inv overrides observers)
  like s s' := s'.1.isDisposed = s.1.isDisposed ∧
    L.like (s.1.recorder, s.2) (s'.1.recorder, s'.2) ∧
    (s.1.isDisposed = false → s'.1.session = s.1.session.observedBy others)

namespace Engine

variable {ρ τ τ' α : Type}

omit [Machine M] in
/-- An engine that is disposed of for the first time. -/
theorem exists_dispose_eq {e : Engine M ρ τ} (hopen : e.isDisposed = false)
    (close : EStateM TracerError (ρ × τ) Unit) (t : τ) : ∃ e' : Engine M ρ τ,
      e'.recorder = e.recorder ∧ e'.isDisposed = true ∧
        dispose close (e, t) = onSession (onSecond close) (e', t) := by
  obtain ⟨k, hk⟩ : ∃ k, e.subscription = some k := by
    cases hsubscription : e.subscription with
    | none => simp [isDisposed, hsubscription] at hopen
    | some k => exact ⟨k, rfl⟩
  unfold dispose
  rw [get_bind_eq]
  simp only [hk]
  refine ⟨_, ?_, ?_, rfl⟩ <;> rfl

omit [Machine M] in
/-- What closing makes true holds after an engine was disposed of, whether or not that fails. -/
theorem dispose_ends {e : Engine M ρ τ} (hopen : e.isDisposed = false)
    {close : EStateM TracerError (ρ × τ) Unit} {t : τ} {closed : ρ × τ → Prop}
    (hclose : Ends close (e.recorder, t) (fun _ ↦ closed) fun _ ↦ closed) :
    Ends (dispose close) (e, t) (fun _ next ↦ closed (next.1.recorder, next.2))
      fun _ next ↦ closed (next.1.recorder, next.2) := by
  obtain ⟨e', hrecorder, -, hdispose⟩ := exists_dispose_eq hopen close t
  obtain ⟨answer, host, hrun⟩ := exists_resultOf close (e.recorder, t)
  have hclosed := hclose.of_resultOf hrun
  rw [← hrecorder] at hrun
  rw [Ends, hdispose, onSession_eq (onSecond_eq hrun e'.session)]
  cases answer with
  | ok _ => exact hclosed
  | error _ => exact hclosed

variable {L : Likeness (ρ × τ) (ρ × τ')} {raises : TracerError → Prop} {inv : M → Prop}
  {overrides : Overrides} {observers : List (Nat × Observer (ρ × τ))}
  {others : List (Nat × Observer (ρ × τ'))} {e : Engine M ρ τ} {t : τ}
  (hs : (L.engine inv overrides observers others).sound (e, t))
include hs

omit [Machine M] in
/-- Both engines refuse a call of the session, or both make it. -/
theorem matches_onSession {x : EStateM TracerError (Session M (ρ × τ) × ρ × τ) α}
    {y : EStateM TracerError (Session M (ρ × τ') × ρ × τ') α}
    (hclosed : raises .sessionClosed)
    (hx : (L.session inv overrides observers others).sound (e.session, e.recorder, t) →
      Matches (L.session inv overrides observers others) raises x y (e.session, e.recorder, t)) :
    Matches (L.engine inv overrides observers others) raises
      (ensureOpen >>= fun _ ↦ onSession x) (ensureOpen >>= fun _ ↦ onSession y) (e, t) := by
  cases hopen : e.isDisposed with
  | true =>
    have hfails : ensureOpen (e, t) = .error .sessionClosed (e, t) := ensureOpen_of_disposed hopen
    refine ⟨.error .sessionClosed, (e, t), bind_error hfails _, hs, List.prefix_rfl,
      fun err h ↦ Except.error.inj h ▸ hclosed, fun _ s' hs' ↦ ⟨s', bind_error ?_ _, hs'⟩⟩
    exact ensureOpen_of_disposed (hs'.1.trans hopen)
  | false =>
    have hpasses : ensureOpen (e, t) = .ok () (e, t) := ensureOpen_of_open hopen
    obtain ⟨answer, ⟨s, r, t₁⟩, hrun, hsound, hkept, hraises, hlike⟩ := hx ⟨hs.2 hopen, hs.1⟩
    refine ⟨answer, ({ e with session := s, recorder := r }, t₁),
      (bind_ok hpasses _).trans (onSession_eq hrun), ⟨hsound.2, fun _ ↦ hsound.1⟩, hkept, hraises,
      fun hall s' hs' ↦ ?_⟩
    obtain ⟨e', t'⟩ := s'
    obtain ⟨hdisposed, hhost, hsession⟩ := hs'
    have hpasses' : ensureOpen (e', t') = .ok () (e', t') :=
      ensureOpen_of_open (hdisposed.trans hopen)
    obtain ⟨⟨s', r', t₁'⟩, hrun', hsame, hnext⟩ :=
      hlike hall (e'.session, e'.recorder, t') ⟨hsession hopen, hhost⟩
    exact ⟨({ e' with session := s', recorder := r' }, t₁'),
      (bind_ok hpasses' _).trans (onSession_eq hrun'), hdisposed, hnext, fun _ ↦ hsame⟩

omit [Machine M] in
/-- Both engines are disposed of, unless both were. -/
theorem matches_dispose {close : EStateM TracerError (ρ × τ) Unit}
    {close' : EStateM TracerError (ρ × τ') Unit}
    (hclose : Matches L raises close close' (e.recorder, t)) :
    Matches (L.engine inv overrides observers others) raises (dispose close) (dispose close')
      (e, t) := by
  cases hopen : e.isDisposed with
  | true =>
    refine ⟨.ok (), (e, t), dispose_of_disposed hopen close t, hs, List.prefix_rfl, nofun,
      fun _ s' hs' ↦ ?_⟩
    obtain ⟨e', t'⟩ := s'
    exact ⟨(e', t'), dispose_of_disposed (hs'.1.trans hopen) close' t', hs'⟩
  | false =>
    obtain ⟨answer, ⟨r, t₁⟩, hrun, hsound, hkept, hraises, hlike⟩ := hclose
    obtain ⟨e₁, hrecorder, hdisposed, hdispose⟩ := exists_dispose_eq hopen close t
    rw [← hrecorder] at hrun
    refine ⟨answer, ({ e₁ with recorder := r }, t₁),
      hdispose.trans (onSession_eq (onSecond_eq hrun e₁.session)),
      ⟨hsound, fun hstill ↦ absurd (hdisposed.symm.trans hstill) nofun⟩, hkept, hraises,
      fun hall s' hs' ↦ ?_⟩
    obtain ⟨e', t'⟩ := s'
    obtain ⟨hsame, hhost, -⟩ := hs'
    obtain ⟨e₁', hrecorder', hdisposed', hdispose'⟩ :=
      exists_dispose_eq (hsame.trans hopen) close' t'
    obtain ⟨⟨r', t₁'⟩, hrun', hnext⟩ := hlike hall (e'.recorder, t') hhost
    rw [← hrecorder'] at hrun'
    refine ⟨({ e₁' with recorder := r' }, t₁'),
      hdispose'.trans (onSession_eq (onSecond_eq hrun' e₁'.session)), ?_, hnext, ?_⟩
    · exact hdisposed'.trans hdisposed.symm
    · exact fun hstill ↦ absurd (hdisposed.symm.trans hstill) nofun

end Engine

end ScriptTrace
