import LiveDocuments.Store.Basic

/-!
# What a store shares with its feeds

A live query and the feed that follows it share a channel: a flag, and the changes that the feed
has not polled yet. The feed alone polls and the store alone queues, but ending the feed takes
the flag down and clears the queue without a word to the store. The store keeps the query until
it registers another one or is written to. Only then does it let go of all the queries whose
flags are down.

Channels are never given up, and the number of a feed is the place of its channel.
-/

namespace LiveDocuments

/-- What a live query and its feed have in common. -/
structure Channel where
  isActive : Bool
  queue : List ChangeEvent

/-- A live query as its store keeps it. -/
structure Registration where
  feed : FeedId
  collection : String
  selector : Selector
  limit : Nat
  sort : Option SortOrder
  results : Results

/-- Collections of documents, the queries registered on them, and the channels to the feeds. -/
structure SharedStore where
  collections : List (String × List Json)
  registered : List Registration
  channels : List Channel
  stopped : Nat

/-- The channels with the queue of one feed changed. -/
def Channel.requeue (feed : FeedId) (f : List ChangeEvent → List ChangeEvent)
    (channels : List Channel) : List Channel :=
  channels.modify feed fun channel => { channel with queue := f channel.queue }

namespace Registration

/-- A query run again if it is on the collection, with the difference queued. -/
def rerun (name : String) (documents : List Json) (r : Registration) (channels : List Channel) :
    Registration × List Channel :=
  if r.collection = name then
    let results := Results.of documents r.selector r.sort r.limit
    ({ r with results },
      Channel.requeue r.feed (· ++ Results.changes r.results results) channels)
  else (r, channels)

/-- Queries run again one after the other. -/
def rerunAll (name : String) (documents : List Json) :
    List Registration → List Channel → List Registration × List Channel
  | [], channels => ([], channels)
  | r :: rest, channels =>
      let (r, channels) := r.rerun name documents channels
      let (rest, channels) := rerunAll name documents rest channels
      (r :: rest, channels)

end Registration

namespace SharedStore

/-- The store without collections. -/
def empty : SharedStore := ⟨[], [], [], 0⟩

/-- The documents of a collection, in insertion order. -/
def documents (s : SharedStore) (name : String) : List Json :=
  (Store.lookup name s.collections).getD []

/-- Whether there is such a collection. -/
def hasCollection (s : SharedStore) (name : String) : Bool :=
  (Store.lookup name s.collections).isSome

/-- The store with an empty collection, unless it has one of that name. -/
def createCollection (s : SharedStore) (name : String) : SharedStore :=
  if s.hasCollection name then s
  else { s with collections := Store.assign name [] s.collections }

/-! ## Flags -/

/-- Whether the flag of a feed is up. -/
def isActive (s : SharedStore) (feed : FeedId) : Bool := s.channels[feed]?.any Channel.isActive

/-- The store without the queries whose flags are down. -/
def prune (s : SharedStore) : SharedStore :=
  { s with registered := s.registered.filter fun r => s.isActive r.feed }

/-- How many registered queries have their flags up. -/
def activeSubscriptions (s : SharedStore) : Nat :=
  (s.registered.filter fun r => s.isActive r.feed).length

/-- How many stops took a flag down. -/
def stoppedSubscriptions (s : SharedStore) : Nat := s.stopped

/-! ## Writes -/

/-- The queries on the collection run again, after those that ended are let go. -/
def notify (s : SharedStore) (name : String) : SharedStore :=
  let (registered, channels) :=
    Registration.rerunAll name (s.documents name) s.prune.registered s.channels
  { s with registered, channels }

/-- The store with the documents of a collection replaced and its queries told. -/
def write (s : SharedStore) (name : String) (documents : List Json) : SharedStore :=
  notify { s with collections := Store.assign name documents s.collections } name

/-- A document put into a collection, in place of the one with its id if there is one. -/
def insert (s : SharedStore) (name : String) (document : Json) :
    Except StoreError (DocumentId × SharedStore) :=
  match idOf? document with
  | none => .error (.missingId name)
  | some id => .ok (id, s.write name (Store.upsert id document (s.documents name)))

/-- Fields set in a document, and whether there was one with that id. -/
def update (s : SharedStore) (name : String) (id : DocumentId) (fields : Json) :
    Bool × SharedStore :=
  if Store.holds id (s.documents name) then
    (true, s.write name (Store.alter id (fun d => Store.merge d fields) (s.documents name)))
  else (false, s)

/-- A document taken out, and whether there was one with that id. -/
def remove (s : SharedStore) (name : String) (id : DocumentId) : Bool × SharedStore :=
  if Store.holds id (s.documents name) then
    (true, s.write name (Store.without id (s.documents name)))
  else (false, s)

/-! ## Queries -/

/-- The documents that a query asks for. -/
def find (s : SharedStore) (name : String) (q : Query) : Except StoreError (List Json) :=
  match Selector.compile q.selector with
  | .error fault => .error (.invalidSelector fault)
  | .ok selector => .ok ((Results.of (s.documents name) selector q.sort q.limit).map Prod.snd)

/-- The store with a query registered, after those that ended are let go, and with a channel to
its feed. -/
def register (s : SharedStore) (name : String) (q : Query) (selector : Selector) : SharedStore :=
  let results := Results.of (s.documents name) selector q.sort q.limit
  { s with
    registered :=
      s.prune.registered ++ [⟨s.channels.length, name, selector, q.limit, q.sort, results⟩]
    channels := s.channels ++ [⟨true, results.map fun result => .added result.1 result.2 none⟩] }

/-- A new live query and its feed. A query that is refused lets go of nothing. -/
def observe (s : SharedStore) (name : String) (q : Query) :
    Except StoreError (FeedId × SharedStore) :=
  match Selector.compile q.selector with
  | .error fault => .error (.invalidSelector fault)
  | .ok selector => .ok (s.channels.length, s.register name q selector)

/-! ## Feeds -/

/-- The next change on a feed, taken off its queue; none once its flag is down. -/
def poll (s : SharedStore) (feed : FeedId) : Option ChangeEvent × SharedStore :=
  if s.isActive feed then
    (s.channels[feed]?.bind fun channel => channel.queue.head?,
      { s with channels := Channel.requeue feed (·.drop 1) s.channels })
  else (none, s)

/-- The flag of a feed taken down and its queue cleared, and whether the flag was up. -/
def deactivate (s : SharedStore) (feed : FeedId) : Bool × SharedStore :=
  (s.isActive feed, { s with channels := s.channels.set feed ⟨false, []⟩ })

/-- A feed stopped. Only a stop that takes the flag down counts. -/
def stop (s : SharedStore) (feed : FeedId) : SharedStore :=
  let (wasActive, s) := s.deactivate feed
  if wasActive then { s with stopped := s.stopped + 1 } else s

/-- A feed dropped. -/
def drop (s : SharedStore) (feed : FeedId) : SharedStore := (s.deactivate feed).2

end SharedStore

end LiveDocuments
