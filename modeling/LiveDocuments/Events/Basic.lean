import LiveDocuments.Json.Basic

/-!
# Events

What bindings and models tell their listeners. An event is published under a
name, and as a value it has that name in the field `event` and what it carries, if
anything, in the field `payload`.
-/

namespace LiveDocuments

/-- Why the data of a binding changed. -/
inductive ChangeReason where
  | add
  | remove
  | change
  | refresh
deriving DecidableEq

namespace ChangeReason

/-- The name of a reason. -/
def name : ChangeReason → String
  | add => "add"
  | remove => "remove"
  | change => "change"
  | refresh => "refresh"

end ChangeReason

/-- What a binding tells its listeners. -/
inductive BindingEvent where
  | dataReceived
  | change (reason : ChangeReason)
  | parseError (message : String)
  | requestFailed (message : String)
deriving DecidableEq

namespace BindingEvent

/-- The name under which an event is published. -/
def name : BindingEvent → String
  | dataReceived => "dataReceived"
  | change _ => "change"
  | parseError _ => "parseError"
  | requestFailed _ => "requestFailed"

/-- What an event carries. -/
def payload? : BindingEvent → Option String
  | dataReceived => none
  | change reason => some reason.name
  | parseError message => some message
  | requestFailed message => some message

/-- The event as a value. -/
def toJson (e : BindingEvent) : Json :=
  .object (("event", .string e.name) :: (e.payload?.map fun p => ("payload", .string p)).toList)

end BindingEvent

/-- What a model tells its listeners. -/
inductive ModelEvent where
  | parseError (message : String)
  | refresh
  | destroyed
deriving DecidableEq

namespace ModelEvent

/-- The event as a value. -/
def toJson : ModelEvent → Json
  | parseError message =>
      .object [("event", .string "parseError"), ("payload", .string message)]
  | refresh => Json.single "event" (.string "refresh")
  | destroyed => Json.single "event" (.string "destroyed")

end ModelEvent

end LiveDocuments
