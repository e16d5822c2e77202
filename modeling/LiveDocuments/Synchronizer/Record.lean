import LiveDocuments.Synchronizer.Basic

/-!
# State and subscription apart

A phase with a subscription in it cannot be wrong about having one. A record keeps the state of
a view and its subscription in two places, and each transition writes to both: the subscription
is taken out first, then the state is set.
-/

namespace LiveDocuments

/-- How far a synchronizer has come, without what it has come to. -/
inductive SyncStage where
  | idle
  | querying
  | subscribed
  | destroyed
deriving DecidableEq

/-- The state of a view and its subscription. -/
structure SyncRecord where
  stage : SyncStage
  subscription : Option Subscription
deriving DecidableEq

namespace SyncRecord

/-- The record of a view that has done nothing yet. -/
def start : SyncRecord := ⟨.idle, none⟩

/-- The subscription taken out, and the feeds to stop. -/
def release (r : SyncRecord) : List Nat × SyncRecord :=
  ((r.subscription.map Subscription.feed).toList,
    ⟨if r.stage = .subscribed then .idle else r.stage, none⟩)

/-- The record after a new query is begun. -/
def begin (r : SyncRecord) : List Nat × SyncRecord :=
  if r.stage = .destroyed then ([], r)
  else (r.release.1, { r.release.2 with stage := .querying })

/-- The record with the feed of a new query. -/
def attach (r : SyncRecord) (subscription : Subscription) : List Nat × SyncRecord :=
  if r.stage = .destroyed then ([subscription.feed], r)
  else (r.release.1, { r.release.2 with stage := .subscribed, subscription := some subscription })

/-- The record after the query could not be issued. -/
def abandon (r : SyncRecord) : SyncRecord :=
  if r.stage = .querying then { r with stage := .idle } else r

/-- The record of a view let go for good. -/
def destroy (r : SyncRecord) : List Nat × SyncRecord :=
  if r.stage = .destroyed then ([], r)
  else (r.release.1, { r.release.2 with stage := .destroyed })

end SyncRecord

end LiveDocuments
