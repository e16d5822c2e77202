import LiveDocuments.Events.Basic
import LiveDocuments.Json.Text

/-!
# Passing events on by name

A bridge passes binding events on to subscribers that know events by name and
take their text. Each subscriber gets the compact text of every event published
under its name.
-/

namespace LiveDocuments

/-- Subscribers with the names of the events they want. -/
structure Bridge (K : Type) where
  subscribers : List (String × K)

namespace Bridge

variable {K : Type}

/-- The deliveries of one event, in the order of subscription. -/
def publish (bridge : Bridge K) (event : BindingEvent) : List (K × String) :=
  (bridge.subscribers.filter fun s => s.1 = event.name).map fun s => (s.2, event.toJson.text)

end Bridge

end LiveDocuments
