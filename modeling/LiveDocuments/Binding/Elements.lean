import LiveDocuments.Binding.Core

/-!
# Lists of the elements of an array

An element list shows the items of an array property of one document. It follows
that document, and makes the contexts of the items (`/Orders(1)/items[0]` and so
on) anew every time it is asked for them. Sorting and filtering are refused; a
list that was asked for either from the beginning never queries at all.
-/

namespace LiveDocuments

/-- A live list of array elements. -/
structure ElementList where
  path : String
  parent : Context
  resolved : String
  components : Components
  contexts : List Context
  inert : Bool
  core : QueryCore

namespace ElementList

/-- The refusal to sort or filter. -/
def reject (b : ElementList) (m : Model) : Model :=
  m.emitOn b.core.id (.requestFailed BindingError.arrayQuery.message)

/-- The document followed anew. -/
def requery (b : ElementList) (m : Model) : ElementList × Model :=
  let (core, m) := b.core.run m b.components [] []
  ({ b with core := core }, m)

/-- A list of the elements at a path under a context, its document followed at
once. -/
def create (m : Model) (path : String) (parent : Context) (sorters : List Sorter)
    (filters : List Filter) : Except BindingError ElementList × Model :=
  match m.components path (some parent) with
  | (.error e, m) => (.error e, m)
  | (.ok c, m) =>
      let resolved := (m.resolve path (some parent)).getD c.toPath
      let (core, m) := QueryCore.create m .elements
      let b : ElementList := ⟨path, parent, resolved, c, [], false, core⟩
      if sorters.isEmpty && filters.isEmpty then
        let (b, m) := b.requery m
        (.ok b, m)
      else
        let b := { b with inert := true }
        (.ok b, b.reject m)

/-- The path of an element of the array at a path. -/
def elementPath (resolved : String) (index : Nat) : String :=
  resolved ++ "[" ++ toString index ++ "]"

theorem toList_elementPath (resolved : String) (index : Nat) :
    (elementPath resolved index).toList =
      resolved.toList ++ '[' :: ((toString index).toList ++ [']']) := by
  simp [elementPath]

/-- The contexts of the elements of a value, which has to be an array. -/
def contextsOf (b : ElementList) (m : Model) (value : Option Json) : List Context × Model :=
  match value with
  | some (.array items) =>
      let (contexts, cache) :=
        m.contexts.getOrCreateAll ((List.range items.length).map (elementPath b.resolved))
      (contexts, { m with contexts := cache })
  | _ => ([], m.emitOn b.core.id (.parseError (BindingError.notAnArray b.resolved).message))

/-- The contexts of the elements as the store has them now. -/
def materialize (b : ElementList) (m : Model) : List Context × Model :=
  match b.core.cursor with
  | none => ([], m)
  | some cursor =>
      match m.first cursor with
      | (.error e, m) => ([], m.emitOn b.core.id (.requestFailed e.message))
      | (.ok none, m) => ([], m)
      | (.ok (some document), m) => b.contextsOf m (valueAt document b.components.property)

/-- How many elements there were when last asked. -/
def size (b : ElementList) : Nat := b.contexts.length

/-- A page of the contexts, made anew. -/
def getContexts (b : ElementList) (m : Model) (start length : Option Nat) :
    List Context × ElementList × Model :=
  let (contexts, m) := b.materialize m
  (page contexts start length m.config.sizeLimit, { b with contexts := contexts }, m)

/-- The changes of the document passed on. -/
def process (b : ElementList) (m : Model) : Nat × ElementList × Model :=
  let (count, core, m) := b.core.process m
  (count, { b with core := core }, m)

/-- The document followed anew if forced and possible; otherwise the listeners
are told to read again. -/
def refresh (b : ElementList) (m : Model) (force : Bool) : ElementList × Model :=
  if force && !b.inert && !b.core.isDestroyed then b.requery m
  else (b, m.emitOn b.core.id (.change .refresh))

/-- The query let go for good, and the contexts forgotten. -/
def destroy (b : ElementList) (m : Model) : ElementList × Model :=
  let (core, m) := b.core.destroy m
  ({ b with core := core, contexts := [] }, m)

end ElementList

end LiveDocuments
