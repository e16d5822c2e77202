import LiveDocuments.Binding.Core

/-!
# Bindings to one document

A context binding follows one document, say the one that a header of a form
shows, and offers the context of that document for nested bindings.
-/

namespace LiveDocuments

/-- A view of one document. -/
structure ContextBinding where
  path : String
  context : Option Context
  element : Context
  core : QueryCore

namespace ContextBinding

/-- A binding to the document at a path, followed at once. -/
def create (m : Model) (path : String) (context : Option Context) :
    Except BindingError ContextBinding × Model :=
  match m.components path context with
  | (.error e, m) => (.error e, m)
  | (.ok c, m) =>
      let (element, m) := m.createContext path context
      let (core, m) := QueryCore.create m .single
      let (core, m) := core.run m c [] []
      (.ok ⟨path, context, element, core⟩, m)

/-- A change of the element raised. -/
def raiseChange (b : ContextBinding) (m : Model) : Model :=
  m.emitOn b.core.id (.change .change)

/-- The element made again from the path and context, and announced if that is
demanded or if it is another instance than before. -/
def renewElement (b : ContextBinding) (m : Model) (force : Bool) : ContextBinding × Model :=
  let (element, m) := m.createContext b.path b.context
  if force || !element.isSame b.element then
    let b := { b with element := element }
    (b, b.raiseChange m)
  else (b, m)

/-- The query for the current path and context in place of the old one; none if
the path has no components. -/
def requery (b : ContextBinding) (m : Model) : ContextBinding × Model :=
  match m.components b.path b.context with
  | (.ok c, m) =>
      let (core, m) := b.core.run m c [] []
      ({ b with core := core }, m)
  | (.error _, m) =>
      let (core, m) := b.core.clear m
      ({ b with core := core }, m)

/-- The binding under another context, unless that is the same instance. -/
def setContext (b : ContextBinding) (m : Model) (context : Option Context) :
    ContextBinding × Model :=
  if Context.areSame b.context context then (b, m)
  else
    let (b, m) := { b with context := context }.requery m
    b.renewElement m false

/-- The element made again and announced. -/
def announce (b : ContextBinding) (m : Model) : ContextBinding × Model := b.renewElement m true

/-- The changes of the document passed on. -/
def process (b : ContextBinding) (m : Model) : Nat × ContextBinding × Model :=
  let (count, core, m) := b.core.process m
  (count, { b with core := core }, m)

/-- The element made again; a change is raised if it differs or if forced. -/
def refresh (b : ContextBinding) (m : Model) (force : Bool) : ContextBinding × Model :=
  b.renewElement m force

/-- The query let go for good. -/
def destroy (b : ContextBinding) (m : Model) : ContextBinding × Model :=
  let (core, m) := b.core.destroy m
  ({ b with core := core }, m)

end ContextBinding

end LiveDocuments
