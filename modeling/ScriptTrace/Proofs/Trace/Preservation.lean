import ScriptTrace.Proofs.Session.Company
import ScriptTrace.Proofs.Trace.Emission

/-!
Conditions on the names that a recorder knows and on its sink. What the records preserve that a
recorder may hand over at an allowed view, whatever comes of them, the recorder preserves at every
such view (`observer_admitted`), so it upholds what all records uphold (`observer_upholds`). A
condition on the sink alone that writing a record and naming a contract preserve is preserved by the
recorder (`observer_keeps`).
-/

set_option autoImplicit false
set_option relaxedAutoImplicit false

namespace ScriptTrace

variable {σ : Type} {sink : Sink σ}

/-- The hash of the script that a line or an event comes from. -/
def Record.caller? : Record → Option Hash
  | .log hash _ => some hash
  | .notify hash _ _ => some hash
  | _ => none

/-- A condition on the names that are known and on a sink: records that come from no script preserve
it, and so does the record of a line or an event with the name that is looked up for it at an
allowed view, whatever comes of them. -/
structure Sink.Upholds (sink : Sink σ) (allows : View → Prop) (inv : NameCache → σ → Prop) :
    Prop where
  write : ∀ names record s, record.caller? = none → inv names s →
    Ends (sink.write record) s (fun _ ↦ inv names) fun _ ↦ inv names
  named : ∀ (r : TraceRecorder) view hash record s, allows view → record.caller? = some hash →
    inv r.names s →
    Ends (modify (sink.nameContract (r.named view hash).1) >>= fun _ ↦ sink.write record) s
      (fun _ ↦ inv (r.named view hash).2) fun _ ↦ inv (r.named view hash).2

/-- A record shows no call stack. -/
def Record.Stackless (r : Record) : Prop := ∀ state frames, r ≠ .trace state frames

/-- A condition on the names that are known and on a sink, which the records that a recorder hands
over at an allowed view preserve: those that come from no script and show no call stack, the record
of the call stack of the view, and the record of a line or an event with the name that is looked up
for it. -/
structure Sink.Admits (sink : Sink σ) (allows : View → Prop) (inv : NameCache → σ → Prop) :
    Prop where
  write : ∀ names record s, record.caller? = none → record.Stackless → inv names s →
    Ends (sink.write record) s (fun _ ↦ inv names) fun _ ↦ inv names
  trace : ∀ names view s, allows view → inv names s →
    Ends (sink.trace view.state (view.frames.map Context.toRecord)) s (fun _ ↦ inv names)
      fun _ ↦ inv names
  named : ∀ (r : TraceRecorder) view hash record s, allows view → record.caller? = some hash →
    inv r.names s →
    Ends (modify (sink.nameContract (r.named view hash).1) >>= fun _ ↦ sink.write record) s
      (fun _ ↦ inv (r.named view hash).2) fun _ ↦ inv (r.named view hash).2

theorem Sink.Upholds.admits {allows : View → Prop} {inv : NameCache → σ → Prop}
    (h : sink.Upholds allows inv) : sink.Admits allows inv where
  write names record s hrecord _ hs := h.write names record s hrecord hs
  trace names _ s _ hs := h.write names _ s rfl hs
  named := h.named

namespace TraceRecorder

/-- A condition on the names that a recorder knows and on its sink. -/
def Upheld (inv : NameCache → σ → Prop) (host : TraceRecorder × σ) : Prop := inv host.1.names host.2

section Admits

variable {allows : View → Prop} {inv : NameCache → σ → Prop} (hsink : sink.Admits allows inv)
  {r : TraceRecorder} {s : σ} (h : inv r.names s)
include hsink h

theorem write_admitted {record : Record} (hrecord : record.caller? = none)
    (hstackless : record.Stackless) :
    Ends (onSecond (sink.write record)) (r, s) (fun _ ↦ Upheld inv) fun _ ↦ Upheld inv :=
  .onSecond (hsink.write r.names record s hrecord hstackless h)

/-- A record with the name of its contract. -/
theorem write_named_admitted {view : View} (hview : allows view) {hash : Hash} {record : Record}
    (hrecord : record.caller? = some hash) :
    Ends (resolveName view hash >>= fun name ↦
        onSecond (modify (sink.nameContract name) >>= fun _ ↦ sink.write record)) (r, s)
      (fun _ ↦ Upheld inv) fun _ ↦ Upheld inv := by
  have hwrite : Ends (onSecond (modify (sink.nameContract (r.named view hash).1) >>= fun _ ↦
      sink.write record)) ({ r with names := (r.named view hash).2 }, s) (fun _ ↦ Upheld inv)
      fun _ ↦ Upheld inv := .onSecond (hsink.named r view hash record s hview hrecord h)
  exact hwrite

theorem announce_admitted (context : Context) :
    Ends (announce sink context) (r, s) (fun _ ↦ Upheld inv) fun _ ↦ Upheld inv := by
  let known := { r with announced := context.scriptHash :: r.announced }
  have hwrite : Ends (onSecond (sink.script context.scriptHash context.code)) (known, s)
      (fun _ ↦ Upheld inv) fun _ ↦ Upheld inv := write_admitted (r := known) hsink h rfl nofun
  refine .get_bind ?_
  dsimp only
  split
  · exact .pure h
  · exact .modify_bind hwrite

theorem emitTrace_admitted {view : View} (hview : allows view) :
    Ends (emitTrace sink view) (r, s) (fun _ ↦ Upheld inv) fun _ ↦ Upheld inv := by
  have htrace : Ends (onSecond (sink.trace view.state (view.frames.map Context.toRecord))) (r, s)
      (fun _ ↦ Upheld inv) fun _ ↦ Upheld inv := .onSecond (hsink.trace r.names view s hview h)
  refine .get_bind (htrace.bind ?_)
  intro _ host hhost
  split
  · refine Ends.forM (fun hash host hhost ↦ ?_) _ hhost
    obtain ⟨r', s'⟩ := host
    split
    · exact .pure hhost
    · exact write_admitted hsink hhost rfl nofun
  · exact .pure hhost

theorem ensureStarted_admitted {view : View} (hview : allows view) :
    Ends (ensureStarted sink view) (r, s) (fun _ ↦ Upheld inv) fun _ ↦ Upheld inv := by
  refine .get_bind ?_
  dsimp only
  split
  · exact .pure h
  · let begun := { r with started := true }
    have hsettings : Ends (onSecond (sink.settings view.settings)) (begun, s)
        (fun _ ↦ Upheld inv) fun _ ↦ Upheld inv := write_admitted (r := begun) hsink h rfl nofun
    refine .modify_bind (hsettings.bind fun _ host hhost ↦ ?_)
    refine (Ends.forM (fun context host hhost ↦ ?_) _ hhost).bind fun _ host hhost ↦ ?_
    · exact announce_admitted hsink hhost context
    · exact emitTrace_admitted hsink hhost hview

/-- Assumes: an allowed view. Whatever a recorder is told of, it preserves what the records that it
hands over preserve. -/
theorem observer_admitted {view : View} (hview : allows view) (event : Event) :
    Ends ((observer sink).notice view event) (r, s) (fun _ ↦ Upheld inv) fun _ ↦ Upheld inv := by
  cases event with
  | contextLoaded context =>
    refine .get_bind ?_
    dsimp only
    split
    · exact announce_admitted hsink h context
    · exact .pure h
  | contextUnloaded context => exact .pure h
  | preExecute i => exact ensureStarted_admitted hsink h hview
  | postExecute i =>
    refine (emitTrace_admitted hsink h hview).bind fun _ host hhost ↦ ?_
    split
    · exact (write_admitted hsink hhost rfl (by nofun)).bind fun _ _ hhost' ↦ hhost'
    · exact .pure hhost
  | fault exception =>
    refine (ensureStarted_admitted hsink h hview).bind fun _ host hhost ↦ ?_
    refine (write_admitted hsink hhost rfl (by nofun)).bind fun _ host hhost ↦ ?_
    exact (emitTrace_admitted hsink hhost hview).bind fun _ _ hhost' ↦ hhost'
  | log event =>
    refine .get_bind ?_
    dsimp only
    split
    · exact write_named_admitted hsink h hview rfl
    · exact .pure h
  | notify event =>
    refine .get_bind ?_
    dsimp only
    split
    · exact write_named_admitted hsink h hview rfl
    · exact .pure h

end Admits

/-- Assumes: an allowed view. Whatever a recorder is told of, it upholds what its sink upholds. -/
theorem observer_upholds {allows : View → Prop} {inv : NameCache → σ → Prop}
    (hsink : sink.Upholds allows inv) {r : TraceRecorder} {s : σ} (h : inv r.names s) {view : View}
    (hview : allows view) (event : Event) :
    Ends ((observer sink).notice view event) (r, s) (fun _ ↦ Upheld inv) fun _ ↦ Upheld inv :=
  observer_admitted hsink.admits h hview event

end TraceRecorder

/-! ### Conditions on the sink alone -/

variable {inv : σ → Prop}

/-- Handing over a record or the name of a contract preserves a condition, whatever comes of it. -/
structure Sink.Preserves (sink : Sink σ) (inv : σ → Prop) : Prop where
  write : ∀ record s, inv s → Ends (sink.write record) s (fun _ ↦ inv) fun _ ↦ inv
  nameContract : ∀ name s, inv s → inv (sink.nameContract name s)

theorem Sink.Preserves.upholds (h : sink.Preserves inv) :
    sink.Upholds (fun _ ↦ True) fun _ ↦ inv where
  write _ record s _ hs := h.write record s hs
  named _ _ _ record s _ _ hs := .modify_bind (h.write record _ (h.nameContract _ s hs))

namespace TraceRecorder

/-- A condition on the sink of a recorder. -/
def OnSink (inv : σ → Prop) (host : TraceRecorder × σ) : Prop := inv host.2

/-- Whatever a recorder is told of, it preserves what its sink preserves. -/
theorem observer_keeps (hsink : sink.Preserves inv) : (observer sink).Keeps (OnSink inv) :=
  fun _ event _ h ↦ observer_upholds hsink.upholds h trivial event

end TraceRecorder

end ScriptTrace
