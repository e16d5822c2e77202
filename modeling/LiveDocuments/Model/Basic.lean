import LiveDocuments.Config
import LiveDocuments.Context
import LiveDocuments.Events.Basic
import LiveDocuments.Model.Backend
import LiveDocuments.Path.Resolution
import LiveDocuments.Query.Compile
import LiveDocuments.Synchronizer.Basic

/-!
# The model

A model stands between bindings and a store. It keeps one context per path,
issues the queries that bindings ask for, passes a refresh on to all of them, and
lets everything go when it is destroyed. Bindings are known to it by number, in
the order of their creation.

Events are not delivered here. Each operation adds what it raises to `emitted`,
with its source and in the order in which listeners would hear it; whoever runs
the operation hands them on.
-/

namespace LiveDocuments

/-- The number of a binding; a number is never used again. -/
abbrev BindingId := Nat

/-- An event together with who raised it. -/
inductive Emission where
  | model (event : ModelEvent)
  | binding (id : BindingId) (event : BindingEvent)
deriving DecidableEq

/-- A model over a store. -/
structure Model where
  backend : Backend
  config : Config
  contexts : ContextCache
  members : List BindingId
  nextBinding : BindingId
  feeds : List FeedId
  destroyed : Bool
  emitted : List Emission

/-- A query bound to its collection. -/
structure Cursor where
  collection : String
  query : Query
deriving DecidableEq

namespace Model

/-- The model over a store. An unusable size limit is replaced by the default. -/
def new (backend : Backend) (config : Config) : Model :=
  ⟨backend, config.normalized, .empty, [], 0, [], false, []⟩

/-- The store behind the model. -/
def store (m : Model) : Store := m.backend.store

/-- The model with its store replaced. -/
def withStore (m : Model) (store : Store) : Model :=
  { m with backend := { m.backend with store := store } }

/-! ## Events -/

/-- The model with one more event raised. -/
def emit (m : Model) (e : Emission) : Model := { m with emitted := m.emitted ++ [e] }

/-- The model with an event raised on a binding. -/
def emitOn (m : Model) (id : BindingId) (e : BindingEvent) : Model := m.emit (.binding id e)

/-- An error reported on the model and, if one is concerned, on a binding. -/
def report (m : Model) (error : BindingError) (binding : Option BindingId) : Model :=
  let m := m.emit (.model (.parseError error.message))
  match binding with
  | some id => m.emitOn id (.parseError error.message)
  | none => m

/-- Errors reported one after the other. -/
def reportAll (m : Model) (errors : List BindingError) (binding : Option BindingId) : Model :=
  errors.foldl (fun m e => m.report e binding) m

/-- Every binding told to read again, and then the model's own listeners. -/
def refresh (m : Model) : Model :=
  (m.members.foldl (fun m id => m.emitOn id (.change .refresh)) m).emit (.model .refresh)

/-! ## Contexts -/

/-- The absolute path of `path` under a context. -/
def resolve (m : Model) (path : String) (context : Option Context) : Option String :=
  Path.resolve m.config.legacySyntax path (context.map Context.path)

/-- The context of an absolute path. -/
def contextFor (m : Model) (path : String) : Context × Model :=
  let (context, contexts) := m.contexts.getOrCreate path
  (context, { m with contexts := contexts })

/-- The context of a path that begins at the root. -/
def getContext (m : Model) (path : String) : Except BindingError Context × Model :=
  if path.toList.head? = some '/' then
    let (context, m) := m.contextFor path
    (.ok context, m)
  else (.error (.pathFault path .contextWithoutSlash), m)

/-- The context of a path under a context, or of the root if that does not
resolve. -/
def createContext (m : Model) (path : String) (context : Option Context) : Context × Model :=
  m.contextFor ((m.resolve path context).getD "/")

/-- The components of a path under a context, or why there are none. -/
def componentsOf (m : Model) (path : String) (context : Option Context) :
    Except BindingError Components :=
  match m.resolve path context with
  | none => .error (.pathFault path .relativeWithoutContext)
  | some resolved => Components.ofPath resolved

/-- The components of a path under a context; a fault is reported. -/
def components (m : Model) (path : String) (context : Option Context) :
    Except BindingError Components × Model :=
  match m.componentsOf path context with
  | .ok c => (.ok c, m)
  | .error e => (.error e, m.report e none)

/-! ## Queries -/

/-- The query for the documents named by components. An unknown collection and
everything that had to be left out are reported. -/
def query (m : Model) (c : Components) (sorters : List Sorter) (filters : List Filter)
    (binding : Option BindingId) : Except BindingError Cursor × Model :=
  if m.destroyed then (.error .modelDestroyed, m)
  else if m.store.hasCollection c.collection then
    let compiled := compileQuery c sorters filters m.config.sizeLimit
    (.ok ⟨c.collection, compiled.value⟩, m.reportAll compiled.diagnostics binding)
  else
    let e := BindingError.unknownCollection c.collection
    (.error e, m.report e binding)

/-- The documents of a cursor. -/
def fetch (m : Model) (cursor : Cursor) : Except StoreError (List Json) × Model :=
  let (found, backend) := m.backend.find cursor.collection cursor.query
  (found, { m with backend := backend })

/-- The first document of a cursor. -/
def first (m : Model) (cursor : Cursor) : Except StoreError (Option Json) × Model :=
  let (found, m) := m.fetch cursor
  (found.map List.head?, m)

/-- A query issued for a binding and followed from now on. -/
def subscribe (m : Model) (c : Components) (sorters : List Sorter) (filters : List Filter)
    (binding : BindingId) : Except BindingError (Cursor × Subscription) × Model :=
  match m.query c sorters filters (some binding) with
  | (.error e, m) => (.error e, m)
  | (.ok cursor, m) =>
      match m.backend.observe cursor.collection cursor.query with
      | (.error e, backend) => (.error (.store e), { m with backend := backend })
      | (.ok feed, backend) =>
          (.ok (cursor, ⟨cursor.collection, cursor.query, feed⟩),
            { m with backend := backend, feeds := m.feeds ++ [feed] })

/-- The query for the documents that a path names. -/
def runQuery (m : Model) (path : String) (context : Option Context) (sorters : List Sorter)
    (filters : List Filter) : Except BindingError Cursor × Model :=
  match m.components path context with
  | (.error e, m) => (.error e, m)
  | (.ok c, m) => m.query c sorters filters none

/-! ## Bindings and their feeds -/

/-- A number for a new binding, which refreshes will reach. -/
def register (m : Model) : BindingId × Model :=
  (m.nextBinding,
    { m with members := m.members ++ [m.nextBinding], nextBinding := m.nextBinding + 1 })

/-- The model without a binding that is gone. -/
def leave (m : Model) (id : BindingId) : Model :=
  { m with members := m.members.filter (· ≠ id) }

/-- Feeds stopped. -/
def stopFeeds (m : Model) (feeds : List FeedId) : Model := m.withStore (m.store.stopAll feeds)

/-- Everything let go: all feeds are stopped and all contexts forgotten. A second
time nothing happens. -/
def destroy (m : Model) : Model :=
  if m.destroyed then m
  else
    let m := { m with destroyed := true }.stopFeeds m.feeds
    { m with feeds := [], members := [], contexts := m.contexts.clear }.emit (.model .destroyed)

end Model

end LiveDocuments
