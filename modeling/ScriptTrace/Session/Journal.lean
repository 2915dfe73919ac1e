import ScriptTrace.Session

/-!
Observers that keep what they are told. All observers of a journal write into it in the order in
which they are told; an observer may be made to fail once, at a call of one kind of event, after it
has kept what it was told.
-/

set_option autoImplicit false

namespace ScriptTrace

/-- The name of the kind of an event. -/
def Event.kindName : Event → String
  | contextLoaded _ => "context_loaded"
  | contextUnloaded _ => "context_unloaded"
  | preExecute _ => "pre"
  | postExecute _ => "post"
  | fault _ => "fault"
  | log _ => "log"
  | notify _ => "notify"

/-- What an observer was told, and what it saw of the machine at that moment. -/
structure Sighting where
  /-- Which observer. -/
  observer : Nat
  view : View
  event : Event

/-- What the observers of a journal were told, the last first. -/
structure Journal where
  sightings : List Sighting

namespace Journal

/-- A journal in which nothing was noted. -/
def empty : Journal := ⟨[]⟩

/-- How often an observer was told of events of a kind. -/
def calls (j : Journal) (observer : Nat) (kindName : String) : Nat :=
  j.sightings.countP fun s => s.observer == observer && s.event.kindName == kindName

/-- The observer of a number, failing at the given call of the given kind of event. -/
def observer (number : Nat) (failure : Option (String × Nat)) : Observer Journal where
  notice view event := do
    let earlier := (← get).calls number event.kindName
    modify fun j => ⟨⟨number, view, event⟩ :: j.sightings⟩
    if failure = some (event.kindName, earlier) then throw .unknownScriptState

end Journal

end ScriptTrace
