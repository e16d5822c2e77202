import LiveDocuments.DocumentId
import LiveDocuments.Query.Basic
import LiveDocuments.Query.Order
import LiveDocuments.Selector.Basic

/-!
# The results of a query

The results of a query are the accepted documents with their ids, in the order
asked for, as many as the limit allows. Documents that the order does not tell
apart stay in the order of the collection, because the sort is stable.
-/

namespace LiveDocuments

/-- Documents together with their ids. -/
abbrev Results := List (DocumentId × Json)

/-- The field that holds the id of a document. -/
def idKey : String := "_id"

/-- The id of a document, if it has a readable one. -/
def idOf? (document : Json) : Option DocumentId :=
  (document.get? idKey).bind DocumentId.ofJson?

/-- A document with its id. -/
def withId? (document : Json) : Option (DocumentId × Json) :=
  (idOf? document).map fun id => (id, document)

namespace Results

/-- The results in the order asked for. -/
def sorted (results : Results) : Option SortOrder → Results
  | none => results
  | some order => List.mergeSort results fun a b => (order.compare a.2 b.2).isLE

/-- The ids of the results. -/
def ids (results : Results) : List DocumentId := results.map Prod.fst

/-- The document with the id. -/
def document? (results : Results) (id : DocumentId) : Option Json :=
  (List.find? (fun result => result.1 = id) results).map Prod.snd

/-- The results of a query over the documents of a collection. -/
def of (documents : List Json) (selector : Selector) (sort : Option SortOrder) (limit : Nat) :
    Results :=
  (sorted ((documents.filter selector.accepts).filterMap withId?) sort).take limit

end Results

end LiveDocuments
