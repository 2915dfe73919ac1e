import ScriptTrace.Proofs.Session.Deeds
import ScriptTrace.Proofs.StackMachine.Ranges
import ScriptTrace.Proofs.Trace.Agreement
import ScriptTrace.Proofs.Trace.Preservation

/-!
The instruction pointers of a trace. A recorder that is told of something hands its sink records of
the machine as it is then, and of no other (`TraceRecorder.observer_narrates`); so whatever a host
does with a session under trace, and whatever fails, each record of a call stack is that of a
machine on the way (`Engine.act_tells`). No frame of such a machine is beyond its script, so a
pointer of 32 bits is the position of the frame if the script has less than 2 ^ 32 bytes
(`StackMachine.inRange_throughout`).
-/

set_option autoImplicit false
set_option relaxedAutoImplicit false

namespace ScriptTrace

/-! ### What is heard -/

/-- A list that is kept in a state has grown, by elements that satisfy a condition. -/
def Grown {σ κ : Type} (list : σ → List κ) (good : κ → Prop) (s s' : σ) : Prop :=
  ∃ more, list s' = list s ++ more ∧ ∀ x ∈ more, good x

namespace Grown

variable {σ κ : Type} {list : σ → List κ} {good : κ → Prop} {s s₁ s' : σ}

theorem of_eq (h : list s' = list s) : Grown list good s s' :=
  ⟨[], by rw [h, List.append_nil], nofun⟩

theorem concat {x : κ} (h : list s' = list s ++ [x]) (hx : good x) : Grown list good s s' :=
  ⟨[x], h, List.forall_mem_singleton.mpr hx⟩

theorem trans (hfirst : Grown list good s s₁) (hsecond : Grown list good s₁ s') :
    Grown list good s s' := by
  obtain ⟨xs, hxs, hfirst⟩ := hfirst
  obtain ⟨ys, hys, hsecond⟩ := hsecond
  refine ⟨xs ++ ys, ?_, List.forall_mem_append.mpr ⟨hfirst, hsecond⟩⟩
  rw [hys, hxs, List.append_assoc]

theorem mono {better : κ → Prop} (h : Grown list good s s') (hgood : ∀ x, good x → better x) :
    Grown list better s s' := by
  obtain ⟨xs, hxs, hall⟩ := h
  exact ⟨xs, hxs, fun x hx ↦ hgood x (hall x hx)⟩

end Grown

/-- A record of a call stack is that of a machine and its state. -/
def Record.Shows (m : StackMachine) (r : Record) : Prop :=
  ∀ state frames, r = .trace state frames →
    state = m.state ∧ frames = m.view.frames.map Context.toRecord

/-- Told of something at the view of a machine, an observer has records heard that show this
machine, and no others. -/
def Observer.Narrates {σ : Type} (o : Observer σ) (heard : σ → List Record) : Prop :=
  ∀ (m : StackMachine) event host, Ends (o.notice m.view event) host
    (fun _ ↦ Grown heard (Record.Shows m) host) fun _ ↦ Grown heard (Record.Shows m) host

/-- An observer that does not see what is heard. -/
theorem Observer.onSecond_narrates {σ τ : Type} {o : Observer τ} {heard : τ → List Record}
    (h : o.Narrates heard) : (o.onSecond : Observer (σ × τ)).Narrates fun host ↦ heard host.2 :=
  fun m event host ↦ .onSecond (h m event host.2)

theorem Observer.onSecond_narrates_first {σ τ : Type} (o : Observer τ) (heard : σ → List Record) :
    (o.onSecond : Observer (σ × τ)).Narrates fun host ↦ heard host.1 := by
  intro m event host
  refine (o.onSecond_keeps (· = host.1) m.view event host rfl).mono ?_ ?_
  · exact fun _ _ hsame ↦ .of_eq (congrArg heard hsame)
  · exact fun _ _ hsame ↦ .of_eq (congrArg heard hsame)

section Sink

variable {τ : Type} {sink : Sink τ} {heard : τ → List Record}

theorem Sink.Hears.onFirst {ω : Type} (h : sink.Hears heard) :
    (sink.onFirst : Sink (τ × ω)).Hears fun s ↦ heard s.1 where
  write record s := by
    obtain ⟨answer, t', hrun, hheard⟩ := h.write record s.1
    exact ⟨answer, (t', s.2), onFirst_eq hrun s.2, hheard⟩
  flush s := by
    obtain ⟨answer, t', hrun, hheard⟩ := h.flush s.1
    exact ⟨answer, (t', s.2), onFirst_eq hrun s.2, hheard⟩
  nameContract name s := h.nameContract name s.1

/-- What a sink hears is a record longer, whatever comes of the record. -/
theorem Sink.Hears.write_grown (h : sink.Hears heard) {record : Record} {good : Record → Prop}
    (hgood : good record) {s₀ s : τ} (hs : Grown heard good s₀ s) :
    Ends (sink.write record) s (fun _ ↦ Grown heard good s₀) fun _ ↦ Grown heard good s₀ := by
  obtain ⟨answer, s', hrun, hheard⟩ := h.write record s
  have hgrown := hs.trans (.concat hheard hgood)
  rw [Ends, hrun]
  cases answer with
  | ok _ => exact hgrown
  | error _ => exact hgrown

/-- The records that a recorder hands over at the view of a machine show the machine. -/
theorem Sink.Hears.admits (h : sink.Hears heard) (m : StackMachine) (s₀ : τ) :
    sink.Admits (· = m.view) fun _ ↦ Grown heard (Record.Shows m) s₀ where
  write _ record _ _ hstackless hs :=
    h.write_grown (fun state frames hrecord ↦ absurd hrecord (hstackless state frames)) hs
  trace _ view _ hview hs := by
    refine h.write_grown (fun state frames hrecord ↦ ?_) hs
    obtain ⟨rfl, rfl⟩ := Record.trace.inj hrecord
    exact ⟨hview ▸ rfl, hview ▸ rfl⟩
  named r view hash record s _ hcaller hs := by
    refine .modify_bind (h.write_grown (fun state frames hrecord ↦ ?_) ?_)
    · rw [hrecord] at hcaller
      cases hcaller
    · exact hs.trans (.of_eq (h.nameContract _ s))

theorem TraceRecorder.observer_narrates (h : sink.Hears heard) :
    (observer sink).Narrates fun host ↦ heard host.2 := by
  rintro m event ⟨r, s⟩
  exact observer_admitted (h.admits m s) (.of_eq rfl) rfl event

end Sink

/-! ### Machines on the way -/

namespace StackMachine

/-- A machine on the way from one to another: one of both, or one that turns of the first lead to
and whose turns lead to the second. -/
def Between (overrides : Overrides) (m m' x : StackMachine) : Prop :=
  x = m ∨ x = m' ∨ ∃ ts us, Moves overrides m ts x ∧ Moves overrides x us m'

/-- A record shows a machine on the way from one to another. -/
def Passes (overrides : Overrides) (m m' : StackMachine) (r : Record) : Prop :=
  ∃ x, Between overrides m m' x ∧ x.Settled ∧ r.Shows x

theorem lasts_settled : Session.Lasts Settled where
  load _ code h := h.load code
  turn _ _ _ h hturn := h.turn hturn

section HeardAlong

variable {σ : Type} {heard : σ → List Record} {passed : StackMachine → StackMachine → Prop}

/-- A machine was on its way at machines, itself included, which are all that was heard of. -/
def HeardAlong (passed : StackMachine → StackMachine → Prop) (heard : σ → List Record) (s₀ : σ)
    (m : StackMachine) (s : σ) : Prop :=
  m.Settled ∧ passed m m ∧
    Grown heard (fun r ↦ ∃ x, passed m x ∧ x.Settled ∧ r.Shows x) s₀ s

theorem carries_heardAlong {o : Observer σ} (ho : o.Narrates heard) (s₀ : σ) :
    o.Carries (HeardAlong passed heard s₀) := by
  intro m event host hinv
  obtain ⟨hm, hpassed, hgrown⟩ := hinv
  have hnext (host' : σ) (hmore : Grown heard (Record.Shows m) host host') :
      HeardAlong passed heard s₀ m host' :=
    ⟨hm, hpassed, hgrown.trans (hmore.mono fun r hr ↦ ⟨m, hpassed, hm, hr⟩)⟩
  exact (ho m event host).mono (fun _ host' ↦ hnext host') fun _ host' ↦ hnext host'

/-- A move: what was passed stays so. -/
theorem HeardAlong.move {s₀ s : σ} {m m' : StackMachine} (h : HeardAlong passed heard s₀ m s)
    (hm' : m'.Settled) (hself : passed m' m') (hkept : ∀ x, passed m x → passed m' x) :
    HeardAlong passed heard s₀ m' s := by
  obtain ⟨-, -, hgrown⟩ := h
  refine ⟨hm', hself, hgrown.mono fun r hr ↦ ?_⟩
  obtain ⟨x, hx, hsettled, hshows⟩ := hr
  exact ⟨x, hkept x hx, hsettled, hshows⟩

end HeardAlong

end StackMachine

namespace Session

open StackMachine

variable {σ : Type} {s : Session StackMachine σ} {host : σ} {heard : σ → List Record}

/-- Assumes: observers that have machines heard which they are told of. A call has machines heard
that are on the way from where it began to where it ended or failed. -/
theorem make_passes (hm : s.machine.Settled)
    (hobservers : ∀ p ∈ s.observers, p.2.Narrates heard) (c : Call) :
    Ends (make c) (s, host)
      (fun _ ↦ s.Stands fun m host' ↦ m.Settled ∧
        Grown heard (Passes s.overrides s.machine m) host host')
      fun _ ↦ s.Stands fun m host' ↦ m.Settled ∧
        Grown heard (Passes s.overrides s.machine m) host host' := by
  have hends {passed : StackMachine → StackMachine → Prop} {next : Session StackMachine σ × σ}
      (hpassed : ∀ m x, passed m x → Between s.overrides s.machine m x)
      (hnext : s.Stands (HeardAlong passed heard host) next) :
      s.Stands (fun m host' ↦ m.Settled ∧
        Grown heard (Passes s.overrides s.machine m) host host') next := by
    obtain ⟨m, hmachine, hsettled, -, hgrown⟩ := hnext
    refine ⟨m, hmachine, hsettled, hgrown.mono fun r hr ↦ ?_⟩
    obtain ⟨x, hx, hshown⟩ := hr
    exact ⟨x, hpassed m x hx, hshown⟩
  cases c with
  | load code =>
    let passed (m x : StackMachine) : Prop := x = s.machine ∨ x = m
    have hbegin : HeardAlong passed heard host s.machine host := ⟨hm, .inl rfl, .of_eq rfl⟩
    have hload (host' : σ) (h : HeardAlong passed heard host s.machine host') :
        HeardAlong passed heard host (Machine.load code s.machine).next host' :=
      h.move (hm.load code) (.inr rfl) fun x hx ↦ .inl (hx.elim id id)
    have hbetween : ∀ m x, passed m x → Between s.overrides s.machine m x :=
      fun m x hx ↦ hx.elim .inl fun hend ↦ .inr (.inl hend)
    exact (load_carries (fun p hp ↦ carries_heardAlong (hobservers p hp) host) hbegin hload).mono
      (fun _ _ hnext ↦ hends hbetween hnext) fun _ _ hnext ↦ hends hbetween hnext
  | execute budget =>
    let passed (m x : StackMachine) : Prop :=
      ∃ ts us, Moves s.overrides s.machine ts x ∧ Moves s.overrides x us m
    have hbegin : HeardAlong passed heard host s.machine host :=
      ⟨hm, ⟨[], [], .refl _, .refl _⟩, .of_eq rfl⟩
    have hturn (m : StackMachine) (t : Turn StackMachine) (host' : σ)
        (h : HeardAlong passed heard host m host') (hnext : Machine.turn s.overrides m = some t) :
        HeardAlong passed heard host t.next host' := by
      obtain ⟨ts, us, hfirst, hsecond⟩ := h.2.1
      refine h.move (h.1.turn hnext) ⟨_, [], (hfirst.trans hsecond).concat hnext, .refl _⟩ ?_
      rintro x ⟨ts, us, hfirst, hsecond⟩
      exact ⟨ts, _, hfirst, hsecond.concat hnext⟩
    have hbetween : ∀ m x, passed m x → Between s.overrides s.machine m x :=
      fun m x hx ↦ .inr (.inr hx)
    refine ((execute_carries (fun p hp ↦ carries_heardAlong (hobservers p hp) host) hbegin hturn
      budget).mono_error fun _ _ hnext ↦ hends hbetween hnext).bind ?_
    exact fun _ _ hnext ↦ .pure (hends hbetween hnext)

end Session

/-! ### Engines -/

namespace Engine

variable {ρ τ : Type} {heard : ρ × τ → List Record}

/-- Nothing is out of range in the machine under an engine, and its observers have machines heard
which they are told of. -/
structure Told (heard : ρ × τ → List Record) (s : Engine StackMachine ρ τ × τ) : Prop where
  settled : s.1.session.machine.Settled
  observers : ∀ p ∈ s.1.session.observers, p.2.Narrates heard

/-- An engine went on, and what was heard are machines on its way. -/
def Tells (heard : ρ × τ → List Record) (s s' : Engine StackMachine ρ τ × τ) : Prop :=
  Told heard s' ∧ Grown (fun s ↦ heard (s.1.recorder, s.2))
    (StackMachine.Passes s.1.session.overrides s.1.session.machine s'.1.session.machine) s s'

theorem make_tells {e : Engine StackMachine ρ τ} {t : τ} (hs : Told heard (e, t)) (c : Call) :
    Ends (onSession (Session.make c)) (e, t) (fun _ ↦ Tells heard (e, t))
      fun _ ↦ Tells heard (e, t) := by
  have hends {next : Engine StackMachine ρ τ × τ}
      (hnext : e.Stands (fun m host' ↦ m.Settled ∧
        Grown heard (StackMachine.Passes e.session.overrides e.session.machine m)
          (e.recorder, t) host') next) : Tells heard (e, t) next := by
    obtain ⟨e', t'⟩ := next
    obtain ⟨m, r, rfl, hm, hgrown⟩ := hnext
    exact ⟨⟨hm, hs.observers⟩, hgrown⟩
  exact (onSession_stands (Session.make_passes hs.settled hs.observers c)).mono
    (fun _ _ hnext ↦ hends hnext) fun _ _ hnext ↦ hends hnext

variable {close : EStateM TracerError (ρ × τ) Unit}
  (hclose : ∀ host, Ends close host (fun _ next ↦ heard next = heard host)
    fun _ next ↦ heard next = heard host)
include hclose

theorem dispose_tells {s : Engine StackMachine ρ τ × τ} (hs : Told heard s) :
    Tells heard s (leaves (dispose close) s) := by
  obtain ⟨e, t⟩ := s
  obtain ⟨hmachine, hobservers, hheard⟩ :=
    (dispose_keeps close (fun host ↦ heard host = heard (e.recorder, t)) rfl
      (hclose (e.recorder, t))).leaves
  exact ⟨⟨hmachine ▸ hs.settled, fun p hp ↦ hs.observers p (hobservers p hp)⟩, .of_eq hheard⟩

/-- Assumes: closing has nothing heard, and an observer that is subscribed has machines heard which
it is told of. Whatever a host does, and whatever comes of it. -/
theorem act_tells {s : Engine StackMachine ρ τ × τ} (hs : Told heard s) {d : Deed τ}
    (hd : ∀ o, d = .beneath (.subscribe o) →
      (o.onSecond : Observer (ρ × τ)).Narrates heard) :
    Tells heard s (leaves (act close d) s) := by
  obtain ⟨e, t⟩ := s
  cases d with
  | call c =>
    cases hopen : e.isDisposed with
    | true =>
      rw [act, leaves, make_of_disposed hopen]
      exact ⟨hs, .of_eq rfl⟩
    | false =>
      rw [act, leaves, make_of_open hopen]
      exact (make_tells hs c).leaves
  | beneath d =>
    cases d with
    | call c => exact (make_tells hs c).leaves
    | subscribe o =>
      refine ⟨⟨hs.settled, fun p hp ↦ ?_⟩, .of_eq rfl⟩
      rcases List.mem_append.mp hp with hold | hnew
      · exact hs.observers p hold
      · rw [List.mem_singleton.mp hnew]
        exact hd o rfl
    | unsubscribe subscription =>
      exact ⟨⟨hs.settled, fun p hp ↦ hs.observers p (List.mem_filter.mp hp).1⟩, .of_eq rfl⟩
    | override hash handler => exact ⟨⟨hs.settled, hs.observers⟩, .of_eq rfl⟩
    | removeOverride hash => exact ⟨⟨hs.settled, hs.observers⟩, .of_eq rfl⟩
  | dispose => exact dispose_tells hclose hs
  | drop =>
    have hdropped := dispose_tells hclose hs
    rwa [← drop_eq close (e, t)] at hdropped

theorem actAll_told {s : Engine StackMachine ρ τ × τ} (hs : Told heard s) {deeds : List (Deed τ)}
    (hdeeds : ∀ d ∈ deeds, ∀ o, d = .beneath (.subscribe o) →
      (o.onSecond : Observer (ρ × τ)).Narrates heard) :
    Told heard (actAll close deeds s) := by
  induction deeds generalizing s with
  | nil => exact hs
  | cons d rest ih =>
    obtain ⟨hd, hrest⟩ := List.forall_mem_cons.mp hdeeds
    exact ih (act_tells hclose hs hd).1 hrest

end Engine

namespace TraceEngine

variable {τ ω : Type} (sink : Sink τ)

/-- The records that a sink was handed. -/
def heard (host : TraceRecorder × (List Record × τ) × ω) : List Record := host.2.1.1

/-- An engine that was just built over a session. -/
theorem told_start (config : TraceConfig) (names : NameCache) (checker : Option WitnessChecker)
    {session : Session StackMachine ω} (hsession : session.machine.Settled)
    (t : (List Record × τ) × ω) :
    Engine.Told heard
      (start sink.overheard.onFirst config names checker session.widen, t) := by
  refine ⟨?_, fun p hp ↦ ?_⟩
  · cases checker <;> exact hsession
  · rw [start, Engine.observers_start] at hp
    rcases List.mem_append.mp hp with hother | hrecorder
    · obtain ⟨q, hq, rfl⟩ := List.mem_map.mp hother
      obtain ⟨o, -, rfl⟩ := List.mem_map.mp hq
      exact Observer.onSecond_narrates (o.2.onSecond_narrates_first Prod.fst)
    · rw [List.mem_singleton.mp hrecorder]
      exact TraceRecorder.observer_narrates sink.hears_overheard.onFirst

/-- Observers of the host do not see what a sink is handed. -/
theorem narrates_of_widen {d : Engine.Deed ω} {o : Observer ((List Record × τ) × ω)}
    (hd : d.widen = .beneath (.subscribe o)) :
    (o.onSecond : Observer (TraceRecorder × (List Record × τ) × ω)).Narrates heard := by
  cases d with
  | beneath d =>
    cases d with
    | subscribe o' =>
      obtain rfl := Session.Deed.subscribe.inj (Engine.Deed.beneath.inj hd)
      exact Observer.onSecond_narrates (o'.onSecond_narrates_first Prod.fst)
    | _ => cases hd
  | _ => cases hd

/-- Flushing a sink hands it no record. -/
theorem heard_close (host : TraceRecorder × (List Record × τ) × ω) :
    Ends (close sink.overheard.onFirst) host (fun _ next ↦ heard next = heard host)
      fun _ next ↦ heard next = heard host := by
  obtain ⟨r, t⟩ := host
  obtain ⟨answer, t', hrun, hheard⟩ := sink.hears_overheard.onFirst.flush t
  rw [close, Ends, onSecond_eq hrun]
  cases answer with
  | ok _ => exact hheard
  | error _ => exact hheard

end TraceEngine

/-! ### Pointers -/

/-- A frame of a trace record. Its pointer of 32 bits is the position of the frame if the script has
less than 2 ^ 32 bytes. -/
structure Frame.Recorded (f : Frame) (r : FrameRecord) : Prop where
  eq : r = f.context.toRecord
  pointer : f.code.length < 2 ^ 32 → r.instructionPointer.toNat = f.position

namespace StackMachine

theorem InRange.recorded {m : StackMachine} (h : m.InRange) :
    List.Forall₂ Frame.Recorded m.frames (m.view.frames.map Context.toRecord) := by
  have hframes : m.view.frames.map Context.toRecord =
      m.frames.map fun f ↦ f.context.toRecord := List.map_map
  rw [hframes, List.forall₂_map_right_iff, List.forall₂_same]
  refine fun f hf ↦ ⟨rfl, fun hcode ↦ ?_⟩
  have hle := h.position_le f hf
  exact UInt32.toNat_ofNat_of_lt' (show f.position < 2 ^ 32 by omega)

/-- Whatever a host does with a session of a new machine, with any scripts loaded and deployed, with
any observers and replaced system calls, and going on after failures: nothing is out of range in the
machine, and it has no frames when it has completed. If the session is under trace then, what the
host does next has the sink handed records of the call stack of those machines only that it leads
through; nothing is out of range in them either, so the pointers of the records are the positions of
their frames, as far as 32 bits suffice for their scripts. -/
theorem inRange_throughout (id : SessionId) (snapshot : Snapshot) (settings : Settings)
    (signers : List Hash) :
    (∀ {σ : Type} (deeds : List (Session.Deed σ)) (host : σ),
      (Session.performAll deeds
        (.ofMachine (create id snapshot settings signers), host)).1.machine.InRange) ∧
    ∀ {τ ω : Type} (sink : Sink τ) (config : TraceConfig) (names : NameCache)
      (checker : Option WitnessChecker) (earlier : List (Session.Deed ω))
      (deeds : List (Engine.Deed ω)) (last : Engine.Deed ω) (t : τ) (host : ω),
      let close := TraceEngine.close sink.overheard.onFirst
      let start := Session.performAll earlier
        (.ofMachine (create id snapshot settings signers), host)
      let s := Engine.actAll close (deeds.map .widen)
        (TraceEngine.start sink.overheard.onFirst config names checker start.1.widen,
          (([], t), start.2))
      let s' := leaves (Engine.act close last.widen) s
      s.1.session.machine.InRange ∧ s'.1.session.machine.InRange ∧
        ∃ more, s'.2.1.1 = s.2.1.1 ++ more ∧
          ∀ state frames, .trace state frames ∈ more → ∃ m : StackMachine,
            Between s.1.session.overrides s.1.session.machine s'.1.session.machine m ∧
            m.InRange ∧ state = m.state ∧ List.Forall₂ Frame.Recorded m.frames frames := by
  have hcreated := Settled.create id snapshot settings signers
  refine ⟨fun deeds host ↦ (Session.performAll_machine lasts_settled deeds hcreated).inRange, ?_⟩
  intro τ ω sink config names checker earlier deeds last t host close start s s'
  have hearlier : start.1.machine.Settled :=
    Session.performAll_machine lasts_settled earlier hcreated
  have hstart := TraceEngine.told_start sink config names checker hearlier (([], t), start.2)
  have hclose := TraceEngine.heard_close (ω := ω) sink
  have hs : Engine.Told TraceEngine.heard s := by
    refine Engine.actAll_told hclose hstart fun d hd o hwiden ↦ ?_
    obtain ⟨d', -, rfl⟩ := List.mem_map.mp hd
    exact TraceEngine.narrates_of_widen hwiden
  obtain ⟨hs', more, hmore, hpasses⟩ :=
    Engine.act_tells hclose hs fun o hwiden ↦ TraceEngine.narrates_of_widen hwiden
  refine ⟨hs.settled.inRange, hs'.settled.inRange, more, hmore, fun state frames hrecord ↦ ?_⟩
  obtain ⟨m, hbetween, hm, hshows⟩ := hpasses _ hrecord
  obtain ⟨hstate, rfl⟩ := hshows state frames rfl
  exact ⟨m, hbetween, hm.inRange, hstate, hm.inRange.recorded⟩

end StackMachine

end ScriptTrace
