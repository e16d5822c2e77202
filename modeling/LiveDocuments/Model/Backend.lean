import LiveDocuments.Store.Basic

/-!
# The store as a model reaches it

A backend is a store that can be made to refuse: while a refusal is set, every
query of that sort fails with its reason. It also counts how often a collection
has been asked for documents or for a feed, which tells whether an operation
reached the store at all.
-/

namespace LiveDocuments

/-- A store, its refusals, and how often its collections were asked. -/
structure Backend where
  store : Store
  findRefusal : Option String
  observeRefusal : Option String
  asked : Nat

namespace Backend

/-- A store that refuses nothing. -/
def ofStore (store : Store) : Backend := ⟨store, none, none, 0⟩

/-- The error of a refusal. -/
def refusal (reason : String) : StoreError := .invalidSelector (.refused reason)

/-- The documents that a query asks for. -/
def find (b : Backend) (name : String) (q : Query) : Except StoreError (List Json) × Backend :=
  (match b.findRefusal with
    | some reason => .error (refusal reason)
    | none => b.store.find name q,
    { b with asked := b.asked + 1 })

/-- A feed of what a query asks for. -/
def observe (b : Backend) (name : String) (q : Query) : Except StoreError FeedId × Backend :=
  let b := { b with asked := b.asked + 1 }
  match b.observeRefusal with
  | some reason => (.error (refusal reason), b)
  | none =>
      match b.store.observe name q with
      | .error e => (.error e, b)
      | .ok (feed, store) => (.ok feed, { b with store := store })

end Backend

end LiveDocuments
