import LiveDocuments.Events.Hub

/-!
# Ready-made listeners

Listeners for common needs. Each notes what it hears; some then remove
themselves or others, bring in a further listener, or answer with an event of
their own.
-/

namespace LiveDocuments

namespace Listener

variable {E K : Type}

/-- Notes every event. -/
def plain (key : K) (_ : ListenerId) : Listener E K := fun event => .hear key event .done

/-- Notes an event and removes itself. -/
def once (key : K) (self : ListenerId) : Listener E K := fun event =>
  .hear key event (.off self fun _ => .done)

/-- Removes another listener, then notes the event under a key that tells whether
that one was registered. -/
def removing (target : ListenerId) (key : Bool → K) (_ : ListenerId) : Listener E K := fun event =>
  .off target fun known => .hear (key known) event .done

/-- Notes an event and registers a plain listener, every time. -/
def spawning (key spawned : K) (_ : ListenerId) : Listener E K := fun event =>
  .hear key event (.on (plain spawned) fun _ => .done)

/-- Notes an event and answers those of a kind with an event of its own. -/
def echoing (key : K) (answers : E → Bool) (echo : E) (_ : ListenerId) :
    Listener E K := fun event =>
  .hear key event (if answers event then .emit echo .done else .done)

end Listener

end LiveDocuments
