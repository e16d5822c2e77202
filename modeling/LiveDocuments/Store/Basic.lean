import LiveDocuments.Selector.Compile
import LiveDocuments.Store.Diff

/-!
# The document store

A store holds named collections of documents and the live queries on them. A
collection is a list of documents in the order of their first insertion, keyed by
id. A live query keeps the results it has told its reader about and the changes
that the reader has not polled yet; after every write to its collection it is run
again and the difference is queued.

Only queries that are live are kept: a feed that was stopped or dropped is gone
together with what was queued for it, and only the count of stops remembers it.
Feeds are named by numbers that are never used again. A `SharedStore` lets go of
ended queries late, and does the same to its view.
-/

namespace LiveDocuments

/-- The name of a feed of changes. -/
abbrev FeedId := Nat

/-- A query whose results are followed. -/
structure LiveQuery where
  feed : FeedId
  collection : String
  selector : Selector
  limit : Nat
  sort : Option SortOrder
  results : Results
  pending : List ChangeEvent

/-- Collections of documents and the live queries on them. -/
structure Store where
  collections : List (String × List Json)
  live : List LiveQuery
  nextFeed : FeedId
  stopped : Nat

namespace LiveQuery

/-- The query run over the documents of its collection, with the difference
queued. -/
def rerun (q : LiveQuery) (documents : List Json) : LiveQuery :=
  let results := Results.of documents q.selector q.sort q.limit
  { q with results := results, pending := q.pending ++ Results.changes q.results results }

end LiveQuery

namespace Store

/-- The store without collections. -/
def empty : Store := ⟨[], [], 0, 0⟩

/-! ## Collections -/

/-- The documents of the first collection with the name. -/
def lookup (name : String) : List (String × List Json) → Option (List Json)
  | [] => none
  | (n, documents) :: rest => if n = name then some documents else lookup name rest

@[simp] theorem lookup_nil (name : String) : lookup name [] = none := rfl

theorem lookup_cons (name n : String) (documents : List Json)
    (rest : List (String × List Json)) :
    lookup name ((n, documents) :: rest) =
      if n = name then some documents else lookup name rest := rfl

/-- The collections with the documents of one of them replaced, or with a new one
at the end. -/
def assign (name : String) (documents : List Json) :
    List (String × List Json) → List (String × List Json)
  | [] => [(name, documents)]
  | (n, old) :: rest =>
      if n = name then (n, documents) :: rest else (n, old) :: assign name documents rest

@[simp] theorem assign_nil (name : String) (documents : List Json) :
    assign name documents [] = [(name, documents)] := rfl

theorem assign_cons (name n : String) (documents old : List Json)
    (rest : List (String × List Json)) :
    assign name documents ((n, old) :: rest) =
      if n = name then (n, documents) :: rest else (n, old) :: assign name documents rest := rfl

@[simp] theorem lookup_assign_self (name : String) (documents : List Json)
    (collections : List (String × List Json)) :
    lookup name (assign name documents collections) = some documents := by
  induction collections with
  | nil => simp [lookup_cons]
  | cons entry rest ih =>
      obtain ⟨n, old⟩ := entry
      by_cases h : n = name <;> simp [assign_cons, lookup_cons, h, ih]

theorem lookup_assign_of_ne (name other : String) (documents : List Json)
    (collections : List (String × List Json)) (h : name ≠ other) :
    lookup other (assign name documents collections) = lookup other collections := by
  induction collections with
  | nil => simp [lookup_cons, h]
  | cons entry rest ih =>
      obtain ⟨n, old⟩ := entry
      by_cases hn : n = name
      · subst hn
        simp [assign_cons, lookup_cons, h]
      · simp [assign_cons, hn, lookup_cons, ih]

/-- The documents of a collection, in insertion order; none if there is no such
collection. -/
def documents (s : Store) (name : String) : List Json := (lookup name s.collections).getD []

/-- Whether there is such a collection. -/
def hasCollection (s : Store) (name : String) : Bool := (lookup name s.collections).isSome

/-- The store with an empty collection, unless it has one of that name. -/
def createCollection (s : Store) (name : String) : Store :=
  if s.hasCollection name then s else { s with collections := assign name [] s.collections }

/-! ## Writes -/

/-- Every live query on the collection run again. -/
def notify (s : Store) (name : String) : Store :=
  { s with live := s.live.map fun q =>
      if q.collection = name then q.rerun (s.documents name) else q }

/-- The store with the documents of a collection replaced and its live queries
told. -/
def write (s : Store) (name : String) (documents : List Json) : Store :=
  notify { s with collections := assign name documents s.collections } name

/-- The documents with one replaced by id, or put at the end. -/
def upsert (id : DocumentId) (document : Json) : List Json → List Json
  | [] => [document]
  | d :: rest => if idOf? d = some id then document :: rest else d :: upsert id document rest

/-- A document with the fields of another value set, except for the id; a value
that is no object sets nothing. -/
def merge (document fields : Json) : Json :=
  match document, fields with
  | .object target, .object fields =>
      .object ((fields.filter fun field => field.1 ≠ idKey).foldl
        (fun target field => Json.insert field.1 field.2 target) target)
  | _, _ => document

/-- The documents with the first one of that id altered. -/
def alter (id : DocumentId) (f : Json → Json) : List Json → List Json
  | [] => []
  | d :: rest => if idOf? d = some id then f d :: rest else d :: alter id f rest

/-- The documents without the first one of that id. -/
def without (id : DocumentId) : List Json → List Json
  | [] => []
  | d :: rest => if idOf? d = some id then rest else d :: without id rest

/-- Whether one of the documents has the id. -/
def holds (id : DocumentId) (documents : List Json) : Bool :=
  documents.any fun d => idOf? d = some id

/-- A document put into a collection, in place of the one with its id if there is
one. The collection is made if need be. -/
def insert (s : Store) (name : String) (document : Json) :
    Except StoreError (DocumentId × Store) :=
  match idOf? document with
  | none => .error (.missingId name)
  | some id => .ok (id, s.write name (upsert id document (s.documents name)))

/-- Fields set in a document, and whether there was one with that id. -/
def update (s : Store) (name : String) (id : DocumentId) (fields : Json) : Bool × Store :=
  if holds id (s.documents name) then
    (true, s.write name (alter id (fun d => merge d fields) (s.documents name)))
  else (false, s)

/-- A document taken out, and whether there was one with that id. -/
def remove (s : Store) (name : String) (id : DocumentId) : Bool × Store :=
  if holds id (s.documents name) then
    (true, s.write name (without id (s.documents name)))
  else (false, s)

/-! ## Queries -/

/-- The documents that a query asks for. -/
def find (s : Store) (name : String) (q : Query) : Except StoreError (List Json) :=
  match Selector.compile q.selector with
  | .error fault => .error (.invalidSelector fault)
  | .ok selector => .ok ((Results.of (s.documents name) selector q.sort q.limit).map Prod.snd)

/-- A new live query. Its feed begins with the documents it finds. -/
def observe (s : Store) (name : String) (q : Query) : Except StoreError (FeedId × Store) :=
  match Selector.compile q.selector with
  | .error fault => .error (.invalidSelector fault)
  | .ok selector =>
      let results := Results.of (s.documents name) selector q.sort q.limit
      let query : LiveQuery :=
        ⟨s.nextFeed, name, selector, q.limit, q.sort, results,
          results.map fun result => .added result.1 result.2 none⟩
      .ok (s.nextFeed, { s with live := s.live ++ [query], nextFeed := s.nextFeed + 1 })

/-- Whether a feed is live. -/
def isActive (s : Store) (feed : FeedId) : Bool := s.live.any fun q => q.feed = feed

/-- The changes that wait on a feed. -/
def pending (s : Store) (feed : FeedId) : List ChangeEvent :=
  match s.live.find? fun q => q.feed = feed with
  | some q => q.pending
  | none => []

/-- The next change on a feed, taken off it. -/
def poll (s : Store) (feed : FeedId) : Option ChangeEvent × Store :=
  ((s.pending feed).head?,
    { s with live := s.live.map fun q =>
        if q.feed = feed then { q with pending := q.pending.drop 1 } else q })

/-- All changes that wait on a feed, taken off it. -/
def drain (s : Store) (feed : FeedId) : List ChangeEvent × Store :=
  (s.pending feed,
    { s with live := s.live.map fun q => if q.feed = feed then { q with pending := [] } else q })

/-- A feed ended without being counted as stopped. -/
def drop (s : Store) (feed : FeedId) : Store :=
  { s with live := s.live.filter fun q => q.feed ≠ feed }

/-- A feed ended. Only the first stop of a live feed counts. -/
def stop (s : Store) (feed : FeedId) : Store :=
  if s.isActive feed then { s.drop feed with stopped := s.stopped + 1 } else s

/-- Several feeds ended one after the other. -/
def stopAll (s : Store) (feeds : List FeedId) : Store := feeds.foldl stop s

/-- How many live queries there are. -/
def activeSubscriptions (s : Store) : Nat := s.live.length

/-- How many live queries were ended by a stop. -/
def stoppedSubscriptions (s : Store) : Nat := s.stopped

end Store

end LiveDocuments
