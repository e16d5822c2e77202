import LiveDocuments.Binding.Core

/-!
# Lists of the documents of a collection

A document list follows the query made of its filters and sorters and keeps one
context for each document found, in the order of the query. Its contexts change
only when it processes what has come in, or when it is queried anew.
-/

namespace LiveDocuments

/-- A live list of documents. -/
structure DocumentList where
  path : String
  components : Components
  sorters : List Sorter
  filters : List Filter
  core : QueryCore

namespace DocumentList

/-- The query of the list issued anew, unless the list is destroyed. -/
def requery (b : DocumentList) (m : Model) : DocumentList × Model :=
  if b.core.isDestroyed then (b, m)
  else
    let (core, m) := b.core.run m b.components b.sorters b.filters
    ({ b with core := core }, m)

/-- A list of the documents at a path, queried at once. -/
def create (m : Model) (path : String) (sorters : List Sorter) (filters : List Filter) :
    Except BindingError DocumentList × Model :=
  match m.components path none with
  | (.error e, m) => (.error e, m)
  | (.ok c, m) =>
      let (core, m) := QueryCore.create m (.documents ("/" ++ c.collection))
      let (b, m) := requery ⟨path, c, sorters, filters, core⟩ m
      (.ok b, m)

/-- The contexts of the documents as last computed. -/
def contexts (b : DocumentList) : List Context := b.core.sync.contexts

/-- How many documents are listed. -/
def size (b : DocumentList) : Nat := b.core.sync.size

/-- A page of the contexts. -/
def getContexts (b : DocumentList) (m : Model) (start length : Option Nat) : List Context :=
  page b.contexts start length m.config.sizeLimit

/-- The list with other filters, queried anew. -/
def filter (b : DocumentList) (m : Model) (filters : List Filter) : DocumentList × Model :=
  { b with filters := filters }.requery m

/-- The list with other sorters, queried anew. -/
def sort (b : DocumentList) (m : Model) (sorters : List Sorter) : DocumentList × Model :=
  { b with sorters := sorters }.requery m

/-- The changes that came in applied. -/
def process (b : DocumentList) (m : Model) : Nat × DocumentList × Model :=
  let (count, core, m) := b.core.process m
  (count, { b with core := core }, m)

/-- The list queried anew if forced; otherwise its listeners are told to read
again. -/
def refresh (b : DocumentList) (m : Model) (force : Bool) : DocumentList × Model :=
  if force then b.requery m else (b, m.emitOn b.core.id (.change .refresh))

/-- The query let go for good. -/
def destroy (b : DocumentList) (m : Model) : DocumentList × Model :=
  let (core, m) := b.core.destroy m
  ({ b with core := core }, m)

end DocumentList

end LiveDocuments
