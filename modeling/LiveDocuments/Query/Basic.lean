import LiveDocuments.Query.Sorter

/-!
# Queries

A query says which documents are wanted, how many of them at most, and in what
order. The selector is a value in the store's selector language; without a sort
order the documents come as the store keeps them.
-/

namespace LiveDocuments

/-- Which documents, how many, in what order. -/
structure Query where
  selector : Json
  limit : Nat
  sort : Option SortOrder
deriving DecidableEq

namespace Query

/-- The query for every document, up to a limit. -/
def all (limit : Nat) : Query := ⟨.object [], limit, none⟩

/-- The query as a value. -/
def toJson (q : Query) : Json :=
  .object [("selector", q.selector),
    ("options", .object <|
      ("limit", Json.ofInt q.limit) :: (q.sort.map fun s => ("sort", s.toJson)).toList)]

end Query

end LiveDocuments
