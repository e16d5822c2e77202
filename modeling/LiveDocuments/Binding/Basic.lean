import LiveDocuments.Binding.Documents
import LiveDocuments.Binding.Element
import LiveDocuments.Binding.Elements
import LiveDocuments.Binding.Property

/-!
# Bindings

A binding shows one value, one document, or a list, and a list shows either the
documents of a collection or the elements of an array. What all of them can do
is gathered here; each function hands on to the binding at hand.
-/

namespace LiveDocuments

/-- A list of documents or of array elements. -/
inductive ListBinding where
  | documents (b : DocumentList)
  | elements (b : ElementList)

namespace ListBinding

/-- A list at a path: of documents, or under a context of array elements. -/
def create (m : Model) (path : String) (parent : Option Context) (sorters : List Sorter)
    (filters : List Filter) : Except BindingError ListBinding × Model :=
  match parent with
  | none =>
      let (b, m) := DocumentList.create m path sorters filters
      (b.map documents, m)
  | some parent =>
      let (b, m) := ElementList.create m path parent sorters filters
      (b.map elements, m)

/-- The contexts as last computed. -/
def contexts : ListBinding → List Context
  | documents b => b.contexts
  | elements b => b.contexts

/-- The count of contexts as last computed. -/
def size (b : ListBinding) : Nat := b.contexts.length

/-- A page of the contexts. -/
def getContexts (m : Model) (start length : Option Nat) :
    ListBinding → List Context × ListBinding × Model
  | documents b => (b.getContexts m start length, documents b, m)
  | elements b =>
      let (contexts, b, m) := b.getContexts m start length
      (contexts, elements b, m)

/-- The list with other filters; a list of elements refuses them. -/
def filter (m : Model) (filters : List Filter) : ListBinding → ListBinding × Model
  | documents b =>
      let (b, m) := b.filter m filters
      (documents b, m)
  | elements b => (elements b, b.reject m)

/-- The list with other sorters; a list of elements refuses them. -/
def sort (m : Model) (sorters : List Sorter) : ListBinding → ListBinding × Model
  | documents b =>
      let (b, m) := b.sort m sorters
      (documents b, m)
  | elements b => (elements b, b.reject m)

end ListBinding

/-- A view of data at a path. -/
inductive Binding where
  | property (b : PropertyBinding)
  | context (b : ContextBinding)
  | list (b : ListBinding)

namespace Binding

/-- The number of the binding in its model. -/
def id : Binding → BindingId
  | property b => b.id
  | context b => b.core.id
  | list (.documents b) => b.core.id
  | list (.elements b) => b.core.id

/-- The path as given. -/
def path : Binding → String
  | property b => b.path
  | context b => b.path
  | list (.documents b) => b.path
  | list (.elements b) => b.path

/-- The context in which the path is understood. -/
def context? : Binding → Option Context
  | property b => b.context
  | context b => b.context
  | list (.documents _) => none
  | list (.elements b) => some b.parent

/-- Whether the binding has been destroyed. -/
def isDestroyed : Binding → Bool
  | property b => b.destroyed
  | context b => b.core.isDestroyed
  | list (.documents b) => b.core.isDestroyed
  | list (.elements b) => b.core.isDestroyed

/-- The query part of a binding that has one. -/
def core? : Binding → Option QueryCore
  | property _ => none
  | context b => some b.core
  | list (.documents b) => some b.core
  | list (.elements b) => some b.core

/-- Pending changes applied; the count of notifications comes first. -/
def process (m : Model) : Binding → Nat × Binding × Model
  | property b =>
      let (count, b, m) := b.process m
      (count, property b, m)
  | context b =>
      let (count, b, m) := b.process m
      (count, context b, m)
  | list (.documents b) =>
      let (count, b, m) := b.process m
      (count, list (.documents b), m)
  | list (.elements b) =>
      let (count, b, m) := b.process m
      (count, list (.elements b), m)

/-- The data derived anew, with queries and a change in any case if forced. -/
def refresh (m : Model) (force : Bool) : Binding → Binding × Model
  | property b =>
      let (b, m) := b.refresh m force
      (property b, m)
  | context b =>
      let (b, m) := b.refresh m force
      (context b, m)
  | list (.documents b) =>
      let (b, m) := b.refresh m force
      (list (.documents b), m)
  | list (.elements b) =>
      let (b, m) := b.refresh m force
      (list (.elements b), m)

/-- What the binding follows let go for good. -/
def destroy (m : Model) : Binding → Binding × Model
  | property b => (property b.destroy, m)
  | context b =>
      let (b, m) := b.destroy m
      (context b, m)
  | list (.documents b) =>
      let (b, m) := b.destroy m
      (list (.documents b), m)
  | list (.elements b) =>
      let (b, m) := b.destroy m
      (list (.elements b), m)

/-- The model after the binding is gone: what it followed is let go, and refreshes
no longer reach it. -/
def drop (m : Model) (b : Binding) : Model := (b.destroy m).2.leave b.id

end Binding

end LiveDocuments
