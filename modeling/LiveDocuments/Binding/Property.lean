import LiveDocuments.Json.Canonical
import LiveDocuments.Model.Reading

/-!
# Bindings to one value

A property binding reads one value on demand and follows no query. It remembers
the value seen last, so that it can tell when a new one differs.
-/

namespace LiveDocuments

/-- A view of the value at a path. -/
structure PropertyBinding where
  id : BindingId
  path : String
  context : Option Context
  value : Option Json
  destroyed : Bool

/-- Whether two values, or their absence, are the same. -/
def Json.sameOptional : Option Json → Option Json → Bool
  | some a, some b => a.same b
  | none, none => true
  | _, _ => false

namespace PropertyBinding

/-- The value at a path under a context; one that cannot be read counts as
missing. -/
def readAt (m : Model) (path : String) (context : Option Context) : Option Json × Model :=
  match m.getProperty path context with
  | (.ok value, m) => (value, m)
  | (.error _, m) => (none, m)

/-- A path that resolves has to parse; lookups and paths without a place are taken
as they are. -/
def checkPath (m : Model) (path : String) (context : Option Context) :
    Except BindingError Unit × Model :=
  if path.toList.head? = some '?' ∨ (m.resolve path context).isNone then (.ok (), m)
  else
    match m.components path context with
    | (.ok _, m) => (.ok (), m)
    | (.error e, m) => (.error e, m)

/-- A binding to the value at a path, which is read at once. -/
def create (m : Model) (path : String) (context : Option Context) :
    Except BindingError PropertyBinding × Model :=
  match checkPath m path context with
  | (.error e, m) => (.error e, m)
  | (.ok (), m) =>
      let (id, m) := m.register
      let (value, m) := readAt m path context
      (.ok ⟨id, path, context, value, false⟩, m)

/-- The value as it is now. -/
def currentValue (b : PropertyBinding) (m : Model) : Option Json × Model :=
  readAt m b.path b.context

/-- The value read again. A change is raised if it differs from the one seen
last, or always if forced; the answer tells whether one was. -/
def checkUpdate (b : PropertyBinding) (m : Model) (force : Bool) :
    Bool × PropertyBinding × Model :=
  if b.destroyed then (false, b, m)
  else
    let (value, m) := b.currentValue m
    if !force && Json.sameOptional value b.value then (false, b, m)
    else (true, { b with value := value }, m.emitOn b.id (.change .change))

/-- The binding under another context, unless that is the same instance. -/
def setContext (b : PropertyBinding) (m : Model) (context : Option Context) :
    PropertyBinding × Model :=
  if Context.areSame b.context context then (b, m)
  else
    let (_, b, m) := { b with context := context }.checkUpdate m false
    (b, m)

/-- The value read again as part of processing; one notification if it changed. -/
def process (b : PropertyBinding) (m : Model) : Nat × PropertyBinding × Model :=
  let (changed, b, m) := b.checkUpdate m false
  (changed.toNat, b, m)

/-- The value read again. -/
def refresh (b : PropertyBinding) (m : Model) (force : Bool) : PropertyBinding × Model :=
  let (_, b, m) := b.checkUpdate m force
  (b, m)

/-- The binding made to raise no further changes. -/
def destroy (b : PropertyBinding) : PropertyBinding := { b with destroyed := true }

end PropertyBinding

end LiveDocuments
