import LiveDocuments.Proofs.Store.Documents

/-!
# Runs of a store

A run is a list of operations applied one after the other. Of every store that a run
from the empty store reaches, four things are known (`Store.Consistent`): the ids
within a collection are distinct, each live query remembers what running it now would
find, and the feeds of the live queries are distinct and were all given out before.

What an operation does is told by `step_cases`: it writes a collection, opens a live
query, takes changes off one queue, ends one live query, or changes nothing that
these facts speak of. The invariant is proved along these cases.
-/

namespace LiveDocuments

/-- An operation on a store. -/
inductive StoreOperation where
  | create (name : String)
  | insert (name : String) (document : Json)
  | update (name : String) (id : DocumentId) (fields : Json)
  | remove (name : String) (id : DocumentId)
  | observe (name : String) (query : Query)
  | poll (feed : FeedId)
  | stop (feed : FeedId)
  | drop (feed : FeedId)

namespace StoreOperation

/-- Whether the operation ends the live query of a feed. -/
def Ends (feed : FeedId) : StoreOperation → Prop
  | stop other => other = feed
  | drop other => other = feed
  | _ => False

/-- Whether the operation stops a feed. -/
def Stops (feed : FeedId) : StoreOperation → Prop
  | stop other => other = feed
  | _ => False

/-- Whether the operation drops a feed. -/
def Drops (feed : FeedId) : StoreOperation → Prop
  | drop other => other = feed
  | _ => False

/-- Whether the operation takes a change off a feed. -/
def Polls (feed : FeedId) : StoreOperation → Prop
  | poll other => other = feed
  | _ => False

instance (feed : FeedId) (operation : StoreOperation) : Decidable (operation.Ends feed) := by
  cases operation <;> unfold Ends <;> infer_instance

instance (feed : FeedId) (operation : StoreOperation) : Decidable (operation.Polls feed) := by
  cases operation <;> unfold Polls <;> infer_instance

instance (feed : FeedId) (operation : StoreOperation) : Decidable (operation.Stops feed) := by
  cases operation <;> unfold Stops <;> infer_instance

instance (feed : FeedId) (operation : StoreOperation) : Decidable (operation.Drops feed) := by
  cases operation <;> unfold Drops <;> infer_instance

end StoreOperation

namespace Store

/-- The store after an operation; an operation that fails changes nothing. -/
def step (s : Store) : StoreOperation → Store
  | .create name => s.createCollection name
  | .insert name document =>
      match s.insert name document with
      | .ok (_, s) => s
      | .error _ => s
  | .update name id fields => (s.update name id fields).2
  | .remove name id => (s.remove name id).2
  | .observe name query =>
      match s.observe name query with
      | .ok (_, s) => s
      | .error _ => s
  | .poll feed => (s.poll feed).2
  | .stop feed => s.stop feed
  | .drop feed => s.drop feed

/-- The store after several operations. -/
def run (s : Store) (operations : List StoreOperation) : Store := operations.foldl step s

@[simp] theorem run_nil (s : Store) : s.run [] = s := rfl

theorem run_cons (s : Store) (operation : StoreOperation) (rest : List StoreOperation) :
    s.run (operation :: rest) = (s.step operation).run rest := rfl

theorem run_append (s : Store) (first others : List StoreOperation) :
    s.run (first ++ others) = (s.run first).run others := List.foldl_append

/-- Some run leads from the empty store to this one. -/
def Reachable (s : Store) : Prop := ∃ operations, s = empty.run operations

theorem reachable_empty : Reachable empty := ⟨[], rfl⟩

theorem Reachable.step {s : Store} (h : s.Reachable) (operation : StoreOperation) :
    (s.step operation).Reachable := by
  rcases h with ⟨operations, rfl⟩
  exact ⟨operations ++ [operation], by rw [run_append, run_cons, run_nil]⟩

/-! ## Collections -/

@[simp] theorem documents_notify (s : Store) (name other : String) :
    (s.notify name).documents other = s.documents other := rfl

theorem documents_write (s : Store) (name other : String) (documents : List Json) :
    (s.write name documents).documents other =
      if name = other then documents else s.documents other := by
  rw [write, documents_notify]
  by_cases h : name = other
  · subst h
    simp [Store.documents]
  · simp [Store.documents, h, lookup_assign_of_ne]

@[simp] theorem documents_createCollection (s : Store) (name other : String) :
    (s.createCollection name).documents other = s.documents other := by
  unfold createCollection
  split
  · rfl
  · next h =>
      by_cases hother : name = other
      · subst hother
        have hnone : lookup name s.collections = none := by simpa [hasCollection] using h
        simp [Store.documents, hnone]
      · simp [Store.documents, hother, lookup_assign_of_ne]

theorem hasCollection_write {s : Store} {other : String} (h : s.hasCollection other = true)
    (name : String) (documents : List Json) :
    (s.write name documents).hasCollection other = true := by
  show (lookup other (assign name documents s.collections)).isSome = true
  by_cases hname : name = other
  · subst hname
    simp
  · rw [lookup_assign_of_ne name other documents s.collections hname]
    exact h

/-- The store with the queue of one feed changed. -/
def requeue (s : Store) (feed : FeedId) (f : List ChangeEvent → List ChangeEvent) : Store :=
  { s with live := s.live.map fun q =>
      if q.feed = feed then { q with pending := f q.pending } else q }

/-- The live query that an accepted query makes. -/
def opened (s : Store) (name : String) (query : Query) (selector : Selector) : LiveQuery :=
  let results := Results.of (s.documents name) selector query.sort query.limit
  ⟨s.nextFeed, name, selector, query.limit, query.sort, results,
    results.map fun result => .added result.1 result.2 none⟩

/-- The store with one more live query. -/
def opening (s : Store) (q : LiveQuery) : Store :=
  { s with live := s.live ++ [q], nextFeed := s.nextFeed + 1 }

/-- The new live query is the one behind its feed, which none had before. -/
theorem find?_opening {s : Store}
    (hused : ∀ feed ∈ s.live.map LiveQuery.feed, feed < s.nextFeed) {q : LiveQuery}
    (hq : q.feed = s.nextFeed) :
    (s.opening q).live.find? (fun p => p.feed = s.nextFeed) = some q := by
  have hnone : s.live.find? (fun p => p.feed = s.nextFeed) = none := by
    rw [List.find?_eq_none]
    intro p hp
    simpa using Nat.ne_of_lt (hused p.feed (List.mem_map_of_mem hp))
  simp [opening, List.find?_append, hnone, hq]

theorem map_feed_write (s : Store) (name : String) (documents : List Json) :
    (s.write name documents).live.map LiveQuery.feed = s.live.map LiveQuery.feed := by
  simp only [write, notify, List.map_map]
  apply List.map_congr_left
  intro q _
  by_cases hname : q.collection = name <;> simp [hname, LiveQuery.rerun]

theorem map_feed_requeue (s : Store) (feed : FeedId) (f : List ChangeEvent → List ChangeEvent) :
    (s.requeue feed f).live.map LiveQuery.feed = s.live.map LiveQuery.feed := by
  simp only [requeue, List.map_map]
  apply List.map_congr_left
  intro q _
  by_cases hfeed : q.feed = feed <;> simp [hfeed]

theorem map_feed_drop (s : Store) (feed : FeedId) :
    (s.drop feed).live.map LiveQuery.feed = (s.live.map LiveQuery.feed).filter (· ≠ feed) := by
  rw [List.filter_map]
  rfl

theorem isActive_iff (s : Store) (feed : FeedId) :
    s.isActive feed = true ↔ feed ∈ s.live.map LiveQuery.feed := by
  simp [isActive]

theorem drop_of_not_isActive {s : Store} {feed : FeedId} (h : ¬ s.isActive feed = true) :
    s.drop feed = s := by
  have hlive : s.live.filter (fun q => q.feed ≠ feed) = s.live := by
    refine List.filter_eq_self.mpr fun q hq => decide_eq_true fun hfeed => h ?_
    exact (s.isActive_iff feed).mpr (hfeed ▸ List.mem_map_of_mem hq)
  rw [drop, hlive]

theorem requeue_of_not_isActive {s : Store} {feed : FeedId} (h : ¬ s.isActive feed = true)
    (f : List ChangeEvent → List ChangeEvent) : s.requeue feed f = s := by
  have hlive : (s.live.map fun q =>
      if q.feed = feed then { q with pending := f q.pending } else q) = s.live := by
    refine (List.map_congr_left fun q hq => if_neg fun hfeed => h ?_).trans (List.map_id _)
    exact (s.isActive_iff feed).mpr (hfeed ▸ List.mem_map_of_mem hq)
  rw [requeue, hlive]

theorem live_stop (s : Store) (feed : FeedId) : (s.stop feed).live = (s.drop feed).live := by
  unfold stop
  split
  · rfl
  · next hactive => rw [drop_of_not_isActive hactive]

theorem observe_eq_ok {s next : Store} {name : String} {query : Query} {feed : FeedId}
    (h : s.observe name query = .ok (feed, next)) :
    ∃ selector, Selector.compile query.selector = .ok selector ∧ feed = s.nextFeed ∧
      next = s.opening (s.opened name query selector) := by
  unfold observe at h
  split at h
  · cases h
  · next selector hselector =>
      cases h
      exact ⟨selector, hselector, rfl, rfl⟩

@[simp] theorem collections_stop (s : Store) (feed : FeedId) :
    (s.stop feed).collections = s.collections := by
  unfold stop
  split <;> rfl

theorem collections_stopAll (s : Store) (feeds : List FeedId) :
    (s.stopAll feeds).collections = s.collections := by
  induction feeds generalizing s with
  | nil => rfl
  | cons feed rest ih => exact (ih (s.stop feed)).trans (s.collections_stop feed)

theorem hasCollection_stop {s : Store} {name : String} (h : s.hasCollection name = true)
    (feed : FeedId) : (s.stop feed).hasCollection name = true := by
  rw [hasCollection, collections_stop]
  exact h

theorem hasCollection_step {s : Store} {name : String} (h : s.hasCollection name = true)
    (operation : StoreOperation) : (s.step operation).hasCollection name = true := by
  cases operation with
  | create other =>
      simp only [step, createCollection]
      split
      · exact h
      · exact hasCollection_write h other []
  | insert other document =>
      simp only [step, insert]
      cases idOf? document with
      | none => exact h
      | some id => exact hasCollection_write h other _
  | update other id fields =>
      simp only [step, update]
      split
      · exact hasCollection_write h other _
      · exact h
  | remove other id =>
      simp only [step, remove]
      split
      · exact hasCollection_write h other _
      · exact h
  | observe other query =>
      simp only [step]
      cases hobserve : s.observe other query with
      | error _ => exact h
      | ok opened =>
          obtain ⟨feed, next⟩ := opened
          obtain ⟨_, _, _, rfl⟩ := observe_eq_ok hobserve
          exact h
  | poll feed => exact h
  | stop feed => exact hasCollection_stop h feed
  | drop feed => exact h

/-! ## What an operation does -/

/-- Two stores with the same documents, the same live queries and the same next feed. -/
structure Alike (s t : Store) : Prop where
  documents : ∀ name, t.documents name = s.documents name
  live : t.live = s.live
  nextFeed : t.nextFeed = s.nextFeed

theorem Alike.refl (s : Store) : Alike s s := ⟨fun _ => rfl, rfl, rfl⟩

/-- The store that an operation leads to, and what the operation was. -/
theorem step_cases (s : Store) (operation : StoreOperation) :
    (Alike s (s.step operation)) ∨
    (∃ name documents, s.step operation = s.write name documents ∧
      ((idsOf (s.documents name)).Nodup → (idsOf documents).Nodup)) ∨
    (∃ name query selector, operation = .observe name query ∧
      s.step operation = s.opening (s.opened name query selector)) ∨
    (∃ feed, operation = .poll feed ∧
      s.step operation = s.requeue feed fun pending => pending.drop 1) ∨
    (∃ feed, operation.Ends feed ∧ Alike (s.drop feed) (s.step operation)) := by
  cases operation with
  | create name =>
      refine .inl ⟨fun other => documents_createCollection s name other, ?_, ?_⟩ <;>
        simp only [step, createCollection] <;> split <;> rfl
  | insert name document =>
      simp only [step, insert]
      cases hid : idOf? document with
      | none => exact .inl (.refl s)
      | some id => exact .inr (.inl ⟨name, _, rfl, nodup_upsert hid⟩)
  | update name id fields =>
      simp only [step, update]
      split
      · exact .inr (.inl ⟨name, _, rfl, nodup_alter fun d => idOf?_merge d fields⟩)
      · exact .inl (.refl s)
  | remove name id =>
      simp only [step, remove]
      split
      · exact .inr (.inl ⟨name, _, rfl, nodup_without⟩)
      · exact .inl (.refl s)
  | observe name query =>
      simp only [step]
      cases h : s.observe name query with
      | error _ => exact .inl (.refl s)
      | ok opened =>
          obtain ⟨selector, -, -, hnext⟩ := observe_eq_ok h
          exact .inr (.inr (.inl ⟨name, query, selector, rfl, hnext⟩))
  | poll feed => exact .inr (.inr (.inr (.inl ⟨feed, rfl, rfl⟩)))
  | stop feed =>
      simp only [step, stop]
      split
      · exact .inr (.inr (.inr (.inr ⟨feed, rfl, fun _ => rfl, rfl, rfl⟩)))
      · exact .inl (.refl s)
  | drop feed => exact .inr (.inr (.inr (.inr ⟨feed, rfl, .refl _⟩)))

/-! ## Consistent stores -/

/-- What is known of every store in use. -/
structure Consistent (s : Store) : Prop where
  distinct : ∀ name, (idsOf (s.documents name)).Nodup
  fresh : ∀ q ∈ s.live,
    q.results = Results.of (s.documents q.collection) q.selector q.sort q.limit
  feeds : (s.live.map LiveQuery.feed).Nodup
  used : ∀ q ∈ s.live, q.feed < s.nextFeed

theorem consistent_empty : Consistent empty where
  distinct := fun _ => List.nodup_nil
  fresh := fun _ h => absurd h List.not_mem_nil
  feeds := List.nodup_nil
  used := fun _ h => absurd h List.not_mem_nil

namespace Consistent

variable {s t : Store}

theorem congr (h : s.Consistent) (ht : Alike s t) : t.Consistent where
  distinct := fun name => ht.documents name ▸ h.distinct name
  fresh := fun q hq => ht.documents q.collection ▸ h.fresh q (ht.live ▸ hq)
  feeds := ht.live ▸ h.feeds
  used := fun q hq => ht.nextFeed ▸ h.used q (ht.live ▸ hq)

/-- A write runs the live queries of its collection again and leaves the others. -/
theorem write (h : s.Consistent) (name : String) (documents : List Json)
    (hdocuments : (idsOf documents).Nodup) : (s.write name documents).Consistent where
  distinct := by
    intro other
    rw [documents_write]
    split
    · exact hdocuments
    · exact h.distinct other
  fresh := by
    intro q hq
    rcases List.mem_map.mp hq with ⟨p, hp, rfl⟩
    split
    · next hname =>
        subst hname
        rfl
    · next hname =>
        have hname' : name ≠ p.collection := Ne.symm hname
        rw [documents_write, if_neg hname']
        exact h.fresh p hp
  feeds := by
    rw [map_feed_write]
    exact h.feeds
  used := by
    intro q hq
    rcases List.mem_map.mp hq with ⟨p, hp, rfl⟩
    have := h.used p hp
    split <;> exact this

theorem opening (h : s.Consistent) (name : String) (query : Query) (selector : Selector) :
    (s.opening (s.opened name query selector)).Consistent where
  distinct := h.distinct
  fresh := by
    intro q hq
    rcases List.mem_append.mp hq with hq | hq
    · exact h.fresh q hq
    · obtain rfl := List.mem_singleton.mp hq
      rfl
  feeds := by
    have hlive : (s.opening (s.opened name query selector)).live.map LiveQuery.feed =
        s.live.map LiveQuery.feed ++ [s.nextFeed] := by simp [Store.opening, opened]
    rw [hlive]
    refine List.nodup_append.mpr ⟨h.feeds, List.nodup_singleton _, ?_⟩
    intro a ha b hb
    rcases List.mem_map.mp ha with ⟨q, hq, rfl⟩
    obtain rfl := List.mem_singleton.mp hb
    exact Nat.ne_of_lt (h.used q hq)
  used := by
    intro q hq
    rcases List.mem_append.mp hq with hq | hq
    · exact Nat.lt_succ_of_lt (h.used q hq)
    · obtain rfl := List.mem_singleton.mp hq
      exact Nat.lt_succ_self _

theorem requeue (h : s.Consistent) (feed : FeedId)
    (f : List ChangeEvent → List ChangeEvent) : (s.requeue feed f).Consistent where
  distinct := h.distinct
  fresh := by
    intro q hq
    rcases List.mem_map.mp hq with ⟨p, hp, rfl⟩
    have := h.fresh p hp
    split <;> exact this
  feeds := by
    rw [map_feed_requeue]
    exact h.feeds
  used := by
    intro q hq
    rcases List.mem_map.mp hq with ⟨p, hp, rfl⟩
    have := h.used p hp
    split <;> exact this

theorem drop (h : s.Consistent) (feed : FeedId) : (s.drop feed).Consistent where
  distinct := h.distinct
  fresh := fun q hq => h.fresh q (List.mem_filter.mp hq).1
  feeds := h.feeds.sublist (List.filter_sublist.map LiveQuery.feed)
  used := fun q hq => h.used q (List.mem_filter.mp hq).1

theorem step (h : s.Consistent) (operation : StoreOperation) :
    (s.step operation).Consistent := by
  rcases step_cases s operation with
    halike | ⟨name, documents, hstep, hnodup⟩ | ⟨name, query, selector, -, hstep⟩ |
      ⟨feed, -, hstep⟩ | ⟨feed, -, halike⟩
  · exact h.congr halike
  · rw [hstep]
    exact h.write name documents (hnodup (h.distinct name))
  · rw [hstep]
    exact h.opening name query selector
  · rw [hstep]
    exact h.requeue feed _
  · exact (h.drop feed).congr halike

theorem stopAll (h : s.Consistent) (feeds : List FeedId) : (s.stopAll feeds).Consistent := by
  induction feeds generalizing s with
  | nil => exact h
  | cons feed rest ih => exact ih (h.step (.stop feed))

theorem run (h : s.Consistent) (operations : List StoreOperation) :
    (s.run operations).Consistent := by
  induction operations generalizing s with
  | nil => exact h
  | cons operation rest ih => exact ih (h.step operation)

end Consistent

/-- Every reachable store is consistent. -/
theorem Reachable.consistent {s : Store} (h : s.Reachable) : s.Consistent := by
  rcases h with ⟨operations, rfl⟩
  exact consistent_empty.run operations

end Store

end LiveDocuments
