/-!
# Dispatching events to listeners

A hub calls its listeners in the order of their registration. Whoever is called
may in turn register and remove listeners and raise further events on the same
hub; an event already being dispatched goes on to the listeners that were
registered when it was raised.

A listener is a function from events to what it does, and what it does is a
`Reaction`: a tree of hub operations whose branches depend on their answers, and
on all that happened before for a listener that keeps a memory. A nested event is
dispatched to the very end before the reaction goes on, so dispatching and
reacting are each other's recursion. Listeners that answer each other for ever
would never come to an end, so `emit?` takes the depth of nesting that it may use
and answers nothing if that does not suffice.

The hub keeps a trace of what happened on it, with the answers that were given.
Each dispatch has a number, under which its calls are recorded.
-/

namespace LiveDocuments

/-- The name of a registration; a name is never used again. -/
abbrev ListenerId := Nat

/-- What happened on a hub. -/
inductive Occurrence (E K : Type) where
  | joined (id : ListenerId)
  | left (id : ListenerId) (known : Bool)
  | counted (count : Nat)
  | began (dispatch : Nat) (event : E) (registered : List ListenerId)
  | called (dispatch : Nat) (id : ListenerId) (event : E)
  | heard (key : K) (event : E)

/-- What a listener does when it is called: nothing more, or one step and then the
rest. `hear` notes an event under a key, for whoever wants to know, and `lookBack`
looks back at all that happened. -/
inductive Reaction (E K : Type) where
  | done
  | hear (key : K) (event : E) (next : Reaction E K)
  | lookBack (next : List (Occurrence E K) → Reaction E K)
  | on (listener : ListenerId → E → Reaction E K) (next : ListenerId → Reaction E K)
  | off (id : ListenerId) (next : Bool → Reaction E K)
  | count (next : Nat → Reaction E K)
  | emit (event : E) (next : Reaction E K)

/-- A listener, as what it does on each event. -/
abbrev Listener (E K : Type) := E → Reaction E K

/-- Listeners in the order of their registration. -/
structure EventHub (E K : Type) where
  listeners : List (ListenerId × Listener E K)
  nextId : ListenerId
  dispatches : Nat
  trace : List (Occurrence E K)

namespace EventHub

variable {E K : Type}

/-- The hub without listeners. The first registration is number one. -/
def empty : EventHub E K := ⟨[], 1, 0, []⟩

/-- The hub with one more occurrence in its trace. -/
def note (hub : EventHub E K) (o : Occurrence E K) : EventHub E K :=
  { hub with trace := hub.trace ++ [o] }

/-- The ids that are registered. -/
def registered (hub : EventHub E K) : List ListenerId := hub.listeners.map Prod.fst

/-- A listener registered, told its own id. -/
def on (hub : EventHub E K) (listener : ListenerId → Listener E K) :
    ListenerId × EventHub E K :=
  (hub.nextId,
    { hub.note (.joined hub.nextId) with
      listeners := hub.listeners ++ [(hub.nextId, listener hub.nextId)]
      nextId := hub.nextId + 1 })

/-- A listener removed, and whether it was registered. -/
def off (hub : EventHub E K) (id : ListenerId) : Bool × EventHub E K :=
  (hub.registered.contains id,
    { hub.note (.left id (hub.registered.contains id)) with
      listeners := hub.listeners.filter fun entry => entry.1 ≠ id })

/-- How many listeners are registered. -/
def listenerCount (hub : EventHub E K) : Nat := hub.listeners.length

/-- What was heard, in order. -/
def heard (hub : EventHub E K) : List (K × E) :=
  hub.trace.filterMap fun
    | .heard key event => some (key, event)
    | _ => none

/-- The hub with its trace forgotten. -/
def forget (hub : EventHub E K) : EventHub E K := { hub with trace := [] }

/-- The hub with the dispatch of an event begun. -/
def begin (hub : EventHub E K) (event : E) : EventHub E K :=
  { hub.note (.began hub.dispatches event hub.registered) with
    dispatches := hub.dispatches + 1 }

end EventHub

namespace Reaction

variable {E K : Type}

/-- The hub after a reaction, given how events are dispatched. -/
def perform (dispatch : E → EventHub E K → Option (EventHub E K)) :
    Reaction E K → EventHub E K → Option (EventHub E K)
  | done, hub => some hub
  | hear key event next, hub => perform dispatch next (hub.note (.heard key event))
  | lookBack next, hub => perform dispatch (next hub.trace) hub
  | on listener next, hub => perform dispatch (next (hub.on listener).1) (hub.on listener).2
  | off id next, hub => perform dispatch (next (hub.off id).1) (hub.off id).2
  | count next, hub =>
      perform dispatch (next hub.listenerCount) (hub.note (.counted hub.listenerCount))
  | emit event next, hub =>
      match dispatch event hub with
      | some hub => perform dispatch next hub
      | none => none

end Reaction

namespace EventHub

variable {E K : Type}

/-- The listeners called one after the other in the dispatch of that number. -/
def callEach (dispatch : E → EventHub E K → Option (EventHub E K)) (number : Nat) (event : E) :
    List (ListenerId × Listener E K) → EventHub E K → Option (EventHub E K)
  | [], hub => some hub
  | (id, listener) :: rest, hub =>
      match (listener event).perform dispatch (hub.note (.called number id event)) with
      | some hub => callEach dispatch number event rest hub
      | none => none

/-- The hub after an event, if the nesting of events is not deeper than
`depth`. -/
def emit? : Nat → E → EventHub E K → Option (EventHub E K)
  | 0, _, _ => none
  | depth + 1, event, hub =>
      callEach (emit? depth) hub.dispatches event hub.listeners (hub.begin event)

end EventHub

end LiveDocuments
