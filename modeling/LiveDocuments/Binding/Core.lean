import LiveDocuments.Model.Basic

/-!
# What bindings with a query share

A binding that follows a query has a number in its model, a synchronizer, and the
cursor of its latest query. The functions here carry out what the synchronizer
asks for: they stop the feeds it lets go, and turn its notifications into events
of the binding or into a refresh of the model.

Each function takes the model and answers with the model afterwards.
-/

namespace LiveDocuments

/-- The part of a binding that follows a query. -/
structure QueryCore where
  id : BindingId
  sync : Synchronizer
  cursor : Option Cursor

namespace QueryCore

/-- A core for a binding of the model. -/
def create (m : Model) (mode : SyncMode) : QueryCore × Model :=
  let (id, m) := m.register
  (⟨id, .start mode, none⟩, m)

/-- Whether the binding has been destroyed. -/
def isDestroyed (core : QueryCore) : Bool := core.sync.isDestroyed

/-- The subscription, if a query is followed. -/
def subscription? (core : QueryCore) : Option Subscription := core.sync.subscription?

/-- One notification passed on. -/
def notify (id : BindingId) (m : Model) : Notification → Model
  | .dataReceived => m.emitOn id .dataReceived
  | .change reason => m.emitOn id (.change reason)
  | .refreshRequested => m.refresh

/-- Notifications passed on one after the other. -/
def dispatch (id : BindingId) (m : Model) (notifications : List Notification) : Model :=
  notifications.foldl (notify id) m

/-- The changes that wait on the feed applied and passed on; the count of
notifications comes first. -/
def process (core : QueryCore) (m : Model) : Nat × QueryCore × Model :=
  match core.subscription? with
  | none => (0, core, m)
  | some subscription =>
      let (events, store) := m.store.drain subscription.feed
      let m := m.withStore store
      let (notifications, sync, contexts) := core.sync.applyAll m.contexts events
      (notifications.length, { core with sync := sync },
        dispatch core.id { m with contexts := contexts } notifications)

/-- A query that could not be issued, reported unless that has been done. -/
def fail (id : BindingId) (m : Model) : BindingError → Model
  | .modelDestroyed => m
  | .unknownCollection _ => m
  | .pathFault .. => m
  | error => m.emitOn id (.requestFailed error.message)

/-- The view made ready for a new query. -/
def reset (core : QueryCore) (m : Model) : List Notification × QueryCore × Model :=
  let (notifications, feeds, sync) := core.sync.begin
  (notifications, { core with sync := sync, cursor := none }, m.stopFeeds feeds)

/-- A new query in place of any other, with its first results applied. -/
def run (core : QueryCore) (m : Model) (c : Components) (sorters : List Sorter)
    (filters : List Filter) : QueryCore × Model :=
  let (notifications, core, m) := core.reset m
  let m := dispatch core.id m notifications
  match m.subscribe c sorters filters core.id with
  | (.ok (cursor, subscription), m) =>
      let (feeds, sync) := core.sync.attach subscription
      let (_, core, m) := process ⟨core.id, sync, some cursor⟩ (m.stopFeeds feeds)
      (core, m)
  | (.error e, m) => ({ core with sync := core.sync.abandon }, fail core.id m e)

/-- The query let go without a new one. -/
def clear (core : QueryCore) (m : Model) : QueryCore × Model :=
  let (notifications, core, m) := core.reset m
  ({ core with sync := core.sync.abandon }, dispatch core.id m notifications)

/-- The query let go for good. -/
def destroy (core : QueryCore) (m : Model) : QueryCore × Model :=
  let (feeds, sync) := core.sync.destroy
  ({ core with sync := sync, cursor := none }, m.stopFeeds feeds)

end QueryCore

/-- The contexts from `start` on, as many as asked for; without a length, up to
the size limit counted from the beginning. -/
def page (contexts : List Context) (start length : Option Nat) (sizeLimit : Nat) :
    List Context :=
  (contexts.drop (start.getD 0)).take (length.getD (sizeLimit - start.getD 0))

end LiveDocuments
