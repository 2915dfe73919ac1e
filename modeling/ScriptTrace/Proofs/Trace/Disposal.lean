import ScriptTrace.Proofs.Session.Disposal
import ScriptTrace.Proofs.Trace.Preservation

/-!
The life of a trace session, by the ledger of its sink. A recorder writes records and names
contracts, and never flushes (`observer_unflushed`); closing flushes once, also if the flush fails
(`close_flushes`).
-/

set_option autoImplicit false
set_option relaxedAutoImplicit false

namespace ScriptTrace

/-- An entry in the ledger of a sink: a call that was made. -/
inductive SinkEntry where
  | write (record : Record)
  | flush
  | nameContract (name : String)

/-- A call is a flush. -/
def SinkEntry.isFlush : SinkEntry → Bool
  | flush => true
  | _ => false

namespace Sink

variable {σ : Type} (sink : Sink σ)

/-- Note a call and make it. -/
def noted (call : SinkEntry) (x : EStateM TracerError σ Unit) :
    EStateM TracerError (List SinkEntry × σ) Unit := do
  modify fun (calls, s) => (calls ++ [call], s)
  onSecond x

/-- A sink that does what another one does, and notes each call before it is made. -/
def noting : Sink (List SinkEntry × σ) where
  write record := noted (.write record) (sink.write record)
  flush := noted .flush sink.flush
  nameContract name s := (s.1 ++ [.nameContract name], sink.nameContract name s.2)

/-- How often a sink was flushed. -/
def flushes (calls : List SinkEntry) : Nat := calls.countP SinkEntry.isFlush

theorem flushes_append (calls : List SinkEntry) (call : SinkEntry) :
    flushes (calls ++ [call]) = flushes calls + if call.isFlush then 1 else 0 := by
  rw [flushes, List.countP_append, List.countP_singleton, flushes]

variable {sink}

/-- A call that is noted, whatever comes of it. -/
theorem noted_ends {call : SinkEntry} {x : EStateM TracerError σ Unit} {s : List SinkEntry × σ}
    {n : Nat} (h : flushes (s.1 ++ [call]) = n) :
    Ends (noted call x) s (fun _ s' ↦ flushes s'.1 = n) fun _ s' ↦ flushes s'.1 = n :=
  .modify_bind (.onSecond (.of_cases (fun _ _ _ ↦ h) fun _ _ _ ↦ h))

theorem noting_preserves (sink : Sink σ) : sink.noting.Preserves fun s ↦ flushes s.1 = 0 where
  write record s h := noted_ends ((flushes_append s.1 (.write record)).trans h)
  nameContract name s h := (flushes_append s.1 (.nameContract name)).trans h

end Sink

namespace TraceRecorder

variable {σ : Type} {sink : Sink σ}

/-- The sink of a recorder was not flushed. -/
def Unflushed (host : TraceRecorder × List SinkEntry × σ) : Prop := Sink.flushes host.2.1 = 0

/-- Closing flushes once, also if the flush fails. -/
theorem close_flushes {r : TraceRecorder} {s : List SinkEntry × σ} (h : Sink.flushes s.1 = 0) :
    Ends (TraceEngine.close sink.noting) (r, s) (fun _ host ↦ Sink.flushes host.2.1 = 1)
      fun _ host ↦ Sink.flushes host.2.1 = 1 := by
  have hone : Sink.flushes (s.1 ++ [.flush]) = 1 := by
    rw [Sink.flushes_append, h]
    rfl
  exact .onSecond (Sink.noted_ends hone)

/-- Whatever a recorder is told of, it does not flush its sink. -/
theorem observer_unflushed (sink : Sink σ) : (observer sink.noting).Keeps Unflushed :=
  observer_keeps sink.noting_preserves

end TraceRecorder

end ScriptTrace
