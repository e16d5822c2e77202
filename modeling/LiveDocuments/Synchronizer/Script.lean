import LiveDocuments.ChangeEvent

/-!
# Scripted feeds

Feeds whose changes are written down beforehand, to drive a synchronizer without
a store. A feed that has been stopped yields nothing but keeps what it has, and
every stop is counted.
-/

namespace LiveDocuments

/-- A feed that plays a list of changes. -/
structure ScriptedFeed where
  events : List ChangeEvent
  stops : Nat

namespace ScriptedFeed

/-- Whether the feed has been stopped. -/
def isStopped (f : ScriptedFeed) : Bool := f.stops ≠ 0

/-- The feed stopped once more. -/
def stop (f : ScriptedFeed) : ScriptedFeed := { f with stops := f.stops + 1 }

/-- The feed with one more change at its end. -/
def push (f : ScriptedFeed) (event : ChangeEvent) : ScriptedFeed :=
  { f with events := f.events ++ [event] }

/-- The next change, taken off the feed. -/
def poll (f : ScriptedFeed) : Option ChangeEvent × ScriptedFeed :=
  if f.isStopped then (none, f) else (f.events.head?, { f with events := f.events.drop 1 })

/-- All changes that can be polled, taken off the feed. -/
def drain (f : ScriptedFeed) : List ChangeEvent × ScriptedFeed :=
  if f.isStopped then ([], f) else (f.events, { f with events := [] })

end ScriptedFeed

end LiveDocuments
