import LiveDocuments.Binding.Basic

/-!
# Sessions

A session is a model together with the bindings that live on it. A binding is
reached by its number; an operation on one of them changes the model and that
binding and leaves the other bindings as they are, which learn of it only through
the changes that wait on their feeds.
-/

namespace LiveDocuments

/-- A model and its bindings. -/
structure Session where
  model : Model
  bindings : List (BindingId × Binding)

namespace Session

/-- A session on a store, without bindings. -/
def start (store : Store) (config : Config) : Session :=
  ⟨.new (.ofStore store) config, []⟩

/-- The store of a session. -/
def store (s : Session) : Store := s.model.store

/-- The session with its store replaced. -/
def withStore (s : Session) (store : Store) : Session :=
  { s with model := s.model.withStore store }

/-- The session whose store refuses queries and feeds for the given reasons, or no
longer refuses them. -/
def refuse (s : Session) (find observe : Option String) : Session :=
  { s with model := { s.model with
      backend := { s.model.backend with findRefusal := find, observeRefusal := observe } } }

/-- The binding of a number. -/
def binding? (s : Session) (id : BindingId) : Option Binding :=
  (s.bindings.find? fun entry => entry.1 = id).map Prod.snd

/-- The session with one more binding. -/
def add (s : Session) (b : Binding) : Session :=
  { s with bindings := s.bindings ++ [(b.id, b)] }

/-- The session with a binding made on its model, or only with what the failed
attempt left on the model. -/
def bind (s : Session) (made : Except BindingError Binding × Model) :
    Except BindingError BindingId × Session :=
  match made with
  | (.error e, m) => (.error e, { s with model := m })
  | (.ok b, m) => (.ok b.id, { s with model := m }.add b)

/-- A binding to the value at a path. -/
def bindProperty (s : Session) (path : String) (context : Option Context) :
    Except BindingError BindingId × Session :=
  let (b, m) := PropertyBinding.create s.model path context
  s.bind (b.map .property, m)

/-- A binding to the document at a path. -/
def bindContext (s : Session) (path : String) (context : Option Context) :
    Except BindingError BindingId × Session :=
  let (b, m) := ContextBinding.create s.model path context
  s.bind (b.map .context, m)

/-- A binding to a list at a path: of documents, or under a context of array
elements. -/
def bindList (s : Session) (path : String) (parent : Option Context) (sorters : List Sorter)
    (filters : List Filter) : Except BindingError BindingId × Session :=
  let (b, m) := ListBinding.create s.model path parent sorters filters
  s.bind (b.map .list, m)

/-- The session with a binding and the model replaced. -/
def put (s : Session) (id : BindingId) (b : Binding) (m : Model) : Session :=
  ⟨m, s.bindings.map fun entry => if entry.1 = id then (id, b) else entry⟩

/-- The session without a binding, which is let go first. -/
def drop (s : Session) (id : BindingId) : Session :=
  match s.binding? id with
  | none => s
  | some b => ⟨b.drop s.model, s.bindings.filter fun entry => entry.1 ≠ id⟩

/-- The events raised since the last time, taken off the model. -/
def takeEmitted (s : Session) : List Emission × Session :=
  (s.model.emitted, { s with model := { s.model with emitted := [] } })

end Session

end LiveDocuments
