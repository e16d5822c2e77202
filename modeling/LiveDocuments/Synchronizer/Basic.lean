import LiveDocuments.ChangeEvent
import LiveDocuments.Context
import LiveDocuments.Events.Basic
import LiveDocuments.Path.Components
import LiveDocuments.Query.Basic

/-!
# Keeping a view in step with a live query

A synchronizer turns the changes of a feed into an ordered list of contexts and
into notifications for the binding it belongs to. It is a reducer: its
transitions touch no store and raise no events. What has to happen outside, the
stopping of a feed, is part of their result.

There is a subscription exactly in the phase that carries it. Once destroyed, a
synchronizer stays so.
-/

namespace LiveDocuments

/-- A live query that a view follows: the collection, the query and its feed. -/
structure Subscription where
  collection : String
  query : Query
  feed : Nat
deriving DecidableEq

/-- What a view shows. Only a list of documents keeps contexts; a list over an
array property and a single document just watch the document they belong to. -/
inductive SyncMode where
  | documents (collectionPath : String)
  | elements
  | single
deriving DecidableEq

/-- How far a synchronizer has come. -/
inductive SyncPhase where
  | idle
  | querying
  | subscribed (subscription : Subscription)
  | destroyed
deriving DecidableEq

/-- What the owner of a view is told. -/
inductive Notification where
  | dataReceived
  | change (reason : ChangeReason)
  | refreshRequested
deriving DecidableEq

/-- The state of a view. -/
structure Synchronizer where
  mode : SyncMode
  phase : SyncPhase
  contexts : List Context
deriving DecidableEq

namespace SyncPhase

/-- The subscription of a phase. -/
def subscription? : SyncPhase → Option Subscription
  | subscribed s => some s
  | _ => none

end SyncPhase

namespace Synchronizer

/-- A synchronizer that has done nothing yet. -/
def start (mode : SyncMode) : Synchronizer := ⟨mode, .idle, []⟩

/-- The subscription, if there is one. -/
def subscription? (s : Synchronizer) : Option Subscription := s.phase.subscription?

/-- The feeds to stop when the subscription is let go. -/
def feeds (s : Synchronizer) : List Nat := (s.subscription?.map Subscription.feed).toList

/-- Whether it has been destroyed. -/
def isDestroyed (s : Synchronizer) : Bool := s.phase == .destroyed

/-- The count of contexts. -/
def size (s : Synchronizer) : Nat := s.contexts.length

/-- The view made ready for a new query: the feed is let go and the contexts are
cleared, which counts as their removal. -/
def begin (s : Synchronizer) : List Notification × List Nat × Synchronizer :=
  if s.isDestroyed then ([], [], s)
  else ([.change .remove], s.feeds, { s with phase := .querying, contexts := [] })

/-- The view with the feed of a new query, in place of any other. A destroyed view
takes no feed, so the feed is stopped at once. -/
def attach (s : Synchronizer) (subscription : Subscription) : List Nat × Synchronizer :=
  if s.isDestroyed then ([subscription.feed], s)
  else (s.feeds, { s with phase := .subscribed subscription })

/-- The view after its query could not be issued. -/
def abandon (s : Synchronizer) : Synchronizer :=
  if s.phase = .querying then { s with phase := .idle } else s

/-- The view let go for good. -/
def destroy (s : Synchronizer) : List Nat × Synchronizer :=
  if s.isDestroyed then ([], s)
  else (s.feeds, { s with phase := .destroyed, contexts := [] })

/-! ## Changes -/

/-- The path of a document under the path of its collection. -/
def documentPath (collectionPath : String) (id : DocumentId) : String :=
  collectionPath ++ "(" ++ id.toText ++ ")"

/-- The contexts with one more, before the first one with the path, or at the
end. -/
def insertBefore (path : Option String) (context : Context) : List Context → List Context
  | [] => [context]
  | c :: rest =>
      if path = some c.path then context :: c :: rest
      else c :: insertBefore path context rest

/-- The contexts without the first one with the path. -/
def eraseFirst (path : String) : List Context → List Context
  | [] => []
  | c :: rest => if c.path = path then rest else c :: eraseFirst path rest

/-- The notifications that data came in. -/
def received : List Notification := [.dataReceived, .change .add]

/-- The notifications of one change, according to what the view shows. -/
def notificationsOf : SyncMode → ChangeEvent → List Notification
  | _, .added .. => received
  | .single, .changed .. => [.change .change]
  | .single, .removed _ => [.change .remove]
  | _, _ => [.refreshRequested]

/-- The contexts after one change. New documents get their contexts from the
cache. -/
def contextsAfter (mode : SyncMode) (cache : ContextCache) (contexts : List Context) :
    ChangeEvent → List Context × ContextCache
  | .added id _ before =>
      match mode with
      | .documents path =>
          let (context, cache) := cache.getOrCreate (documentPath path id)
          (insertBefore (before.map (documentPath path)) context contexts, cache)
      | _ => (contexts, cache)
  | .changed .. => (contexts, cache)
  | .removed id =>
      match mode with
      | .documents path => (eraseFirst (documentPath path id) contexts, cache)
      | _ => (contexts, cache)

/-- The view after one change. -/
def apply (s : Synchronizer) (cache : ContextCache) (event : ChangeEvent) :
    List Notification × Synchronizer × ContextCache :=
  if s.isDestroyed then ([], s, cache)
  else
    let (contexts, cache) := contextsAfter s.mode cache s.contexts event
    (notificationsOf s.mode event, { s with contexts := contexts }, cache)

/-- The view after several changes. -/
def applyAll (s : Synchronizer) (cache : ContextCache) :
    List ChangeEvent → List Notification × Synchronizer × ContextCache
  | [] => ([], s, cache)
  | event :: rest =>
      let (first, s, cache) := s.apply cache event
      let (others, s, cache) := s.applyAll cache rest
      (first ++ others, s, cache)

end Synchronizer

end LiveDocuments
