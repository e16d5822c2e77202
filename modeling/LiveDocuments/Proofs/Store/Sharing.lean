import LiveDocuments.Proofs.Store.Lifecycle
import LiveDocuments.Store.Shared

/-!
# A store that prunes late

A `SharedStore` ends a live query by its flag alone and lets go of it some time later. Its view
is the store in which each query whose flag is down is gone at once (`SharedStore.view`). When
the store lets go of such queries cannot be told from the view (`view_prune`), and every
operation does to the view what it does to a store (`view_step`), with the same answers. So a
whole run, and all that is polled in its course, is that of the view (`view_run`, `polled_view`),
and what is known of stores is known of stores that prune late.

The view rests on three facts (`SharedStore.Linked`): no two queries have one feed, each of them
has a channel, and a flag that is up belongs to a query that the store still has.
-/

namespace LiveDocuments

namespace Channel

/-- What waits for the feed, if its flag is up. -/
def pending? (channel : Channel) : Option (List ChangeEvent) :=
  if channel.isActive then some channel.queue else none

theorem isSome_pending? (channel : Channel) : channel.pending?.isSome = channel.isActive := by
  obtain ⟨isActive, queue⟩ := channel
  cases isActive <;> rfl

variable (feed other : FeedId) (f : List ChangeEvent → List ChangeEvent)
  (channels : List Channel)

theorem getElem?_requeue :
    (requeue feed f channels)[other]? =
      if feed = other then
        channels[other]?.map fun channel => { channel with queue := f channel.queue }
      else channels[other]? := by
  rw [requeue, List.getElem?_modify]
  split <;> simp

theorem any_isActive_requeue :
    (requeue feed f channels)[other]?.any isActive = channels[other]?.any isActive := by
  rw [getElem?_requeue]
  split
  · cases channels[other]? <;> rfl
  · rfl

end Channel

namespace Registration

/-- The live query, if its flag is up. -/
def live? (channels : List Channel) (r : Registration) : Option LiveQuery :=
  (channels[r.feed]?.bind Channel.pending?).map fun pending =>
    ⟨r.feed, r.collection, r.selector, r.limit, r.sort, r.results, pending⟩

variable {channels others : List Channel} {r : Registration}

theorem feed_of_live? {q : LiveQuery} (h : r.live? channels = some q) : q.feed = r.feed := by
  obtain ⟨pending, -, rfl⟩ := Option.map_eq_some_iff.mp h
  rfl

theorem isSome_live? (channels : List Channel) (r : Registration) :
    (r.live? channels).isSome = channels[r.feed]?.any Channel.isActive := by
  rw [live?, Option.isSome_map]
  cases channels[r.feed]? with
  | none => rfl
  | some channel => exact channel.isSome_pending?

theorem live?_congr (h : others[r.feed]? = channels[r.feed]?) :
    r.live? others = r.live? channels := by
  rw [live?, live?, h]

theorem live?_requeue (feed : FeedId) (f : List ChangeEvent → List ChangeEvent)
    (channels : List Channel) (r : Registration) :
    r.live? (Channel.requeue feed f channels) =
      (r.live? channels).map fun q =>
        if q.feed = feed then { q with pending := f q.pending } else q := by
  rw [live?, live?, Channel.getElem?_requeue, Option.map_map]
  by_cases hfeed : feed = r.feed
  · rw [if_pos hfeed]
    cases channels[r.feed]? with
    | none => rfl
    | some channel =>
        obtain ⟨isActive, queue⟩ := channel
        cases isActive <;> simp [Channel.pending?, hfeed]
  · simp [hfeed, Ne.symm hfeed, Function.comp_def]

theorem live?_set_ended (feed : FeedId) (channels : List Channel) (r : Registration) :
    r.live? (channels.set feed ⟨false, []⟩) =
      (r.live? channels).filter fun q => q.feed ≠ feed := by
  by_cases hfeed : feed = r.feed
  · have hended : (channels.set feed ⟨false, []⟩)[r.feed]?.bind Channel.pending? = none := by
      rw [List.getElem?_set, if_pos hfeed]
      split <;> rfl
    rw [live?, hended]
    exact (Option.filter_eq_none_iff.mpr fun q hq => by simp [feed_of_live? hq, hfeed]).symm
  · rw [live?_congr (List.getElem?_set_ne hfeed)]
    cases hlive : r.live? channels with
    | none => rfl
    | some q =>
        have hne : q.feed ≠ feed := feed_of_live? hlive ▸ Ne.symm hfeed
        exact (if_pos (decide_eq_true hne)).symm

/-! ## Queries run again -/

section Rerun

variable {name : String} {documents : List Json} {rs : List Registration} {feed : FeedId}

theorem rerun_of_eq (h : r.collection = name) (channels : List Channel) :
    r.rerun name documents channels =
      ({ r with results := Results.of documents r.selector r.sort r.limit },
        Channel.requeue r.feed
          (· ++ Results.changes r.results (Results.of documents r.selector r.sort r.limit))
          channels) := if_pos h

theorem rerun_of_ne (h : r.collection ≠ name) (channels : List Channel) :
    r.rerun name documents channels = (r, channels) := if_neg h

theorem getElem?_rerun_of_ne (hne : r.feed ≠ feed) :
    (r.rerun name documents channels).2[feed]? = channels[feed]? := by
  by_cases h : r.collection = name
  · rw [rerun_of_eq h, Channel.getElem?_requeue, if_neg hne]
  · rw [rerun_of_ne h]

theorem getElem?_rerunAll_of_not_mem (h : feed ∉ rs.map Registration.feed) :
    (rerunAll name documents rs channels).2[feed]? = channels[feed]? := by
  induction rs generalizing channels with
  | nil => rfl
  | cons r rest ih =>
      obtain ⟨hfirst, hrest⟩ := not_or.mp (mt List.mem_cons.mpr h)
      exact (ih hrest).trans (getElem?_rerun_of_ne (Ne.symm hfirst))

variable (name documents rs r channels feed)

theorem feed_rerun : (r.rerun name documents channels).1.feed = r.feed := by
  by_cases h : r.collection = name
  · rw [rerun_of_eq h]
  · rw [rerun_of_ne h]

theorem length_rerun : (r.rerun name documents channels).2.length = channels.length := by
  by_cases h : r.collection = name
  · rw [rerun_of_eq h, Channel.requeue, List.length_modify]
  · rw [rerun_of_ne h]

theorem any_isActive_rerun :
    (r.rerun name documents channels).2[feed]?.any Channel.isActive =
      channels[feed]?.any Channel.isActive := by
  by_cases h : r.collection = name
  · rw [rerun_of_eq h, Channel.any_isActive_requeue]
  · rw [rerun_of_ne h]

theorem live?_rerun :
    (r.rerun name documents channels).1.live? (r.rerun name documents channels).2 =
      (r.live? channels).map fun q =>
        if q.collection = name then q.rerun documents else q := by
  by_cases h : r.collection = name
  · rw [rerun_of_eq h, live?, live?, Channel.getElem?_requeue, if_pos rfl, Option.map_map]
    cases channels[r.feed]? with
    | none => rfl
    | some channel =>
        obtain ⟨isActive, queue⟩ := channel
        cases isActive <;> simp [Channel.pending?, h, LiveQuery.rerun]
  · rw [rerun_of_ne h, live?, Option.map_map]
    exact congrArg (Option.map · _) (funext fun channel => (if_neg h).symm)

theorem map_feed_rerunAll :
    (rerunAll name documents rs channels).1.map Registration.feed =
      rs.map Registration.feed := by
  induction rs generalizing channels with
  | nil => rfl
  | cons r rest ih => exact congrArg₂ List.cons (feed_rerun ..) (ih _)

theorem length_rerunAll :
    (rerunAll name documents rs channels).2.length = channels.length := by
  induction rs generalizing channels with
  | nil => rfl
  | cons r rest ih => exact (ih _).trans (length_rerun ..)

theorem any_isActive_rerunAll :
    (rerunAll name documents rs channels).2[feed]?.any Channel.isActive =
      channels[feed]?.any Channel.isActive := by
  induction rs generalizing channels with
  | nil => rfl
  | cons r rest ih => exact (ih _).trans (any_isActive_rerun ..)

/-- Queries that share no channel are run again as if each were alone. -/
theorem filterMap_live?_rerunAll (h : (rs.map Registration.feed).Nodup) :
    (rerunAll name documents rs channels).1.filterMap
        (live? (rerunAll name documents rs channels).2) =
      (rs.filterMap (live? channels)).map fun q =>
        if q.collection = name then q.rerun documents else q := by
  induction rs generalizing channels with
  | nil => rfl
  | cons r rest ih =>
      obtain ⟨hfirst, hrest⟩ := List.nodup_cons.mp h
      have hothers : rest.filterMap (live? (r.rerun name documents channels).2) =
          rest.filterMap (live? channels) :=
        List.filterMap_congr fun other hother => live?_congr <| getElem?_rerun_of_ne
          fun heq => hfirst (heq ▸ List.mem_map_of_mem hother)
      have hqueue : (r.rerun name documents channels).1.live?
          (rerunAll name documents rest (r.rerun name documents channels).2).2 =
            (r.live? channels).map fun q =>
              if q.collection = name then q.rerun documents else q := by
        rw [← live?_rerun]
        refine live?_congr (getElem?_rerunAll_of_not_mem ?_)
        rwa [feed_rerun]
      rw [rerunAll, List.filterMap_cons, List.filterMap_cons, hqueue, ih _ hrest, hothers]
      cases r.live? channels <;> rfl

end Rerun

end Registration

namespace SharedStore

/-- The store in which every query whose flag is down is gone. -/
def view (s : SharedStore) : Store :=
  ⟨s.collections, s.registered.filterMap (Registration.live? s.channels), s.channels.length,
    s.stopped⟩

/-- What is known of the queries and the channels of every store in use. -/
structure Linked (s : SharedStore) : Prop where
  feeds : (s.registered.map Registration.feed).Nodup
  used : ∀ feed ∈ s.registered.map Registration.feed, feed < s.channels.length
  kept : ∀ feed, s.isActive feed = true → feed ∈ s.registered.map Registration.feed

theorem linked_empty : Linked empty where
  feeds := List.nodup_nil
  used := fun _ h => absurd h List.not_mem_nil
  kept := fun _ h => absurd h Bool.false_ne_true

variable {s : SharedStore}

theorem stop_of_isActive {feed : FeedId} (h : s.isActive feed = true) :
    s.stop feed = { s.drop feed with stopped := s.stopped + 1 } := if_pos h

theorem stop_of_not_isActive {feed : FeedId} (h : ¬ s.isActive feed = true) :
    s.stop feed = s.drop feed := if_neg h

theorem exists_queue {feed : FeedId} (h : s.isActive feed = true) :
    ∃ queue, s.channels[feed]? = some ⟨true, queue⟩ := by
  rw [isActive] at h
  cases hchannel : s.channels[feed]? with
  | none =>
      rw [hchannel] at h
      cases h
  | some channel =>
      obtain ⟨isActive, queue⟩ := channel
      rw [hchannel] at h
      obtain rfl : isActive = true := h
      exact ⟨queue, rfl⟩

theorem bind_pending?_of_not_isActive {feed : FeedId} (h : ¬ s.isActive feed = true) :
    s.channels[feed]?.bind Channel.pending? = none := by
  rw [isActive] at h
  cases hchannel : s.channels[feed]? with
  | none => rfl
  | some channel =>
      rw [hchannel] at h
      exact if_neg h

namespace Linked

theorem of_le {t : SharedStore} (h : s.Linked)
    (hfeeds : t.registered.map Registration.feed = s.registered.map Registration.feed)
    (hlength : t.channels.length = s.channels.length)
    (hactive : ∀ feed, t.isActive feed = true → s.isActive feed = true) : t.Linked where
  feeds := hfeeds ▸ h.feeds
  used := hfeeds.symm ▸ hlength.symm ▸ h.used
  kept := fun feed hfeed => hfeeds ▸ h.kept feed (hactive feed hfeed)

theorem prune (h : s.Linked) : s.prune.Linked where
  feeds := h.feeds.sublist (List.filter_sublist.map _)
  used := fun feed hfeed => h.used feed ((List.filter_sublist.map _).subset hfeed)
  kept := by
    intro feed hactive
    obtain ⟨r, hr, rfl⟩ := List.mem_map.mp (h.kept feed hactive)
    exact List.mem_map_of_mem (List.mem_filter.mpr ⟨hr, hactive⟩)

theorem notify (h : s.Linked) (name : String) : (s.notify name).Linked :=
  h.prune.of_le (Registration.map_feed_rerunAll ..) (Registration.length_rerunAll ..)
    fun _ hfeed => (Registration.any_isActive_rerunAll ..).symm.trans hfeed

theorem write (h : s.Linked) (name : String) (documents : List Json) :
    (s.write name documents).Linked :=
  notify (s := { s with collections := Store.assign name documents s.collections })
    ⟨h.feeds, h.used, h.kept⟩ name

theorem poll (h : s.Linked) (feed : FeedId) : (s.poll feed).2.Linked := by
  rw [SharedStore.poll]
  split
  · exact h.of_le rfl (List.length_modify ..) fun other hother =>
      (Channel.any_isActive_requeue ..).symm.trans hother
  · exact h

theorem deactivate (h : s.Linked) (feed : FeedId) : (s.deactivate feed).2.Linked := by
  refine h.of_le rfl List.length_set fun other hother => ?_
  rw [SharedStore.deactivate, isActive, List.getElem?_set] at hother
  split at hother
  · split at hother <;> cases hother
  · exact hother

theorem stop (h : s.Linked) (feed : FeedId) : (s.stop feed).Linked := by
  have hended := h.deactivate feed
  by_cases hactive : s.isActive feed = true
  · rw [stop_of_isActive hactive]
    exact ⟨hended.feeds, hended.used, hended.kept⟩
  · rw [stop_of_not_isActive hactive]
    exact hended

theorem register (h : s.Linked) (name : String) (q : Query) (selector : Selector) :
    (s.register name q selector).Linked := by
  have hfeeds : (s.register name q selector).registered.map Registration.feed =
      s.prune.registered.map Registration.feed ++ [s.channels.length] := by
    rw [SharedStore.register, List.map_append, List.map_singleton]
  have hlength : (s.register name q selector).channels.length = s.channels.length + 1 :=
    List.length_append
  refine ⟨?_, ?_, fun feed hactive => ?_⟩
  · rw [hfeeds]
    refine List.nodup_append.mpr ⟨h.prune.feeds, List.nodup_singleton _, ?_⟩
    intro feed hfeed other hother
    rw [List.mem_singleton.mp hother]
    exact Nat.ne_of_lt (h.prune.used feed hfeed)
  · rw [hfeeds, hlength]
    intro feed hfeed
    rcases List.mem_append.mp hfeed with hold | hnew
    · exact Nat.lt_succ_of_lt (h.prune.used feed hold)
    · exact List.mem_singleton.mp hnew ▸ Nat.lt_succ_self _
  · rw [hfeeds, List.mem_append, List.mem_singleton]
    rcases Nat.lt_trichotomy feed s.channels.length with hlt | heq | hgt
    · rw [isActive, SharedStore.register, List.getElem?_append_left hlt] at hactive
      exact .inl (h.prune.kept feed hactive)
    · exact .inr heq
    · rw [isActive, List.getElem?_eq_none (hlength ▸ hgt)] at hactive
      cases hactive

end Linked

/-! ## What the view shows -/

theorem documents_view (s : SharedStore) (name : String) :
    s.view.documents name = s.documents name := rfl

theorem find_view (s : SharedStore) (name : String) (q : Query) :
    s.view.find name q = s.find name q := rfl

theorem view_createCollection (s : SharedStore) (name : String) :
    (s.createCollection name).view = s.view.createCollection name := by
  have hknown : s.view.hasCollection name = s.hasCollection name := rfl
  rw [createCollection, Store.createCollection, hknown]
  split <;> rfl

/-- The feeds that the view shows are those of registered queries with their flags up. -/
theorem map_feed_view (s : SharedStore) :
    s.view.live.map LiveQuery.feed =
      (s.registered.filter fun r => s.isActive r.feed).map Registration.feed := by
  simp only [view, isActive, ← Registration.isSome_live?]
  induction s.registered with
  | nil => rfl
  | cons r rest ih =>
      cases hlive : r.live? s.channels with
      | none => simp [hlive, ih]
      | some q => simp [hlive, ih, Registration.feed_of_live? hlive]

/-- Letting go of queries whose flags are down cannot be told from the view. -/
theorem view_prune (s : SharedStore) : s.prune.view = s.view := by
  have hlive : s.prune.registered.filterMap (Registration.live? s.channels) =
      s.registered.filterMap (Registration.live? s.channels) := by
    rw [prune, List.filterMap_filter]
    refine List.filterMap_congr fun r _ => ?_
    rw [isActive, ← Registration.isSome_live?]
    cases r.live? s.channels <;> rfl
  exact congrArg (fun live => Store.mk s.collections live s.channels.length s.stopped) hlive

theorem activeSubscriptions_view (s : SharedStore) :
    s.view.activeSubscriptions = s.activeSubscriptions := by
  have hlength := congrArg List.length s.map_feed_view
  rwa [List.length_map, List.length_map] at hlength

theorem view_requeue (s : SharedStore) (feed : FeedId)
    (f : List ChangeEvent → List ChangeEvent) :
    view { s with channels := Channel.requeue feed f s.channels } = s.view.requeue feed f := by
  simp only [view, Store.requeue, List.map_filterMap, Registration.live?_requeue]
  rw [Channel.requeue, List.length_modify]

theorem view_deactivate (s : SharedStore) (feed : FeedId) :
    (s.deactivate feed).2.view = s.view.drop feed := by
  simp only [deactivate, view, Store.drop, List.filter_filterMap,
    Registration.live?_set_ended, List.length_set]

theorem Linked.nodup_view (h : s.Linked) : (s.view.live.map LiveQuery.feed).Nodup := by
  rw [map_feed_view]
  exact h.prune.feeds

theorem isActive_view (h : s.Linked) (feed : FeedId) :
    s.view.isActive feed = s.isActive feed := by
  refine Bool.eq_iff_iff.mpr ?_
  rw [Store.isActive_iff, map_feed_view]
  constructor
  · intro hfeed
    obtain ⟨r, hr, rfl⟩ := List.mem_map.mp hfeed
    exact (List.mem_filter.mp hr).2
  · intro hactive
    obtain ⟨r, hr, rfl⟩ := List.mem_map.mp (h.kept feed hactive)
    exact List.mem_map_of_mem (List.mem_filter.mpr ⟨hr, hactive⟩)

theorem pending_view (h : s.Linked) (feed : FeedId) :
    s.view.pending feed = (s.channels[feed]?.bind Channel.pending?).getD [] := by
  by_cases hactive : s.isActive feed = true
  · obtain ⟨r, hr, rfl⟩ := List.mem_map.mp (h.kept feed hactive)
    have hsome : (r.live? s.channels).isSome = true :=
      (Registration.isSome_live? s.channels r).trans hactive
    obtain ⟨q, hq⟩ := Option.isSome_iff_exists.mp hsome
    have hmem : q ∈ s.view.live := List.mem_filterMap.mpr ⟨r, hr, hq⟩
    obtain ⟨pending, hpending, rfl⟩ := Option.map_eq_some_iff.mp hq
    rw [hpending]
    exact Store.pending_of_mem h.nodup_view hmem
  · rw [bind_pending?_of_not_isActive hactive]
    refine Store.pending_of_not_live ?_
    rwa [← Store.isActive_iff, isActive_view h]

/-! ## Operations and the view -/

theorem view_notify (h : s.Linked) (name : String) :
    (s.notify name).view = s.view.notify name := by
  have hlive := Registration.filterMap_live?_rerunAll s.channels name (s.documents name) _
    h.prune.feeds
  have hpruned : s.prune.registered.filterMap (Registration.live? s.channels) = s.view.live :=
    congrArg Store.live s.view_prune
  rw [hpruned] at hlive
  simp only [notify, view, Store.notify, Store.mk.injEq]
  exact ⟨trivial, hlive, Registration.length_rerunAll .., trivial⟩

theorem view_write (h : s.Linked) (name : String) (documents : List Json) :
    (s.write name documents).view = s.view.write name documents :=
  view_notify (s := { s with collections := Store.assign name documents s.collections })
    ⟨h.feeds, h.used, h.kept⟩ name

theorem view_insert (h : s.Linked) (name : String) (document : Json) :
    (s.insert name document).map (Prod.map id view) = s.view.insert name document := by
  rw [insert, Store.insert]
  cases idOf? document with
  | none => rfl
  | some id => exact congrArg (fun t => Except.ok (id, t)) (view_write h name _)

theorem view_update (h : s.Linked) (name : String) (key : DocumentId) (fields : Json) :
    Prod.map id view (s.update name key fields) = s.view.update name key fields := by
  rw [update, Store.update, documents_view]
  split
  · exact congrArg (Prod.mk true) (view_write h name _)
  · rfl

theorem view_remove (h : s.Linked) (name : String) (key : DocumentId) :
    Prod.map id view (s.remove name key) = s.view.remove name key := by
  rw [remove, Store.remove, documents_view]
  split
  · exact congrArg (Prod.mk true) (view_write h name _)
  · rfl

theorem view_register (h : s.Linked) (name : String) (q : Query) (selector : Selector) :
    (s.register name q selector).view = s.view.opening (s.view.opened name q selector) := by
  have hlive : (s.register name q selector).view.live =
      s.prune.view.live ++ [s.view.opened name q selector] := by
    simp only [view, register, List.filterMap_append]
    refine congrArg₂ (· ++ ·) (List.filterMap_congr fun r hr => ?_) ?_
    · exact Registration.live?_congr <|
        List.getElem?_append_left (h.prune.used r.feed (List.mem_map_of_mem hr))
    · rw [List.filterMap_cons, Registration.live?, List.getElem?_concat_length]
      rfl
  rw [view_prune] at hlive
  simp only [Store.opening, ← hlive]
  simp only [view, register, List.length_append, List.length_singleton]

theorem view_observe (h : s.Linked) (name : String) (q : Query) :
    (s.observe name q).map (Prod.map id view) = s.view.observe name q := by
  rw [observe, Store.observe]
  cases Selector.compile q.selector with
  | error fault => rfl
  | ok selector => exact congrArg (fun t => Except.ok (_, t)) (view_register h name q selector)

theorem view_poll (h : s.Linked) (feed : FeedId) :
    Prod.map id view (s.poll feed) = s.view.poll feed := by
  rw [poll, Store.poll, pending_view h]
  by_cases hactive : s.isActive feed = true
  · obtain ⟨queue, hqueue⟩ := exists_queue hactive
    rw [if_pos hactive, hqueue]
    exact Prod.ext rfl (view_requeue s feed _)
  · have hview := Store.requeue_of_not_isActive (mt (isActive_view h feed).symm.trans hactive)
    rw [if_neg hactive, bind_pending?_of_not_isActive hactive]
    exact Prod.ext rfl (hview _).symm

theorem view_stop (h : s.Linked) (feed : FeedId) :
    (s.stop feed).view = s.view.stop feed := by
  have hactive_view := isActive_view h feed
  by_cases hactive : s.isActive feed = true
  · rw [stop_of_isActive hactive, Store.stop, hactive_view, if_pos hactive, ← view_deactivate]
    rfl
  · rw [stop_of_not_isActive hactive, Store.stop, hactive_view, if_neg hactive, drop,
      view_deactivate]
    exact Store.drop_of_not_isActive (hactive_view ▸ hactive)

/-! ## Runs -/

/-- The store after an operation; an operation that fails changes nothing. -/
def step (s : SharedStore) : StoreOperation → SharedStore
  | .create name => s.createCollection name
  | .insert name document =>
      match s.insert name document with
      | .ok (_, s) => s
      | .error _ => s
  | .update name id fields => (s.update name id fields).2
  | .remove name id => (s.remove name id).2
  | .observe name query =>
      match s.observe name query with
      | .ok (_, s) => s
      | .error _ => s
  | .poll feed => (s.poll feed).2
  | .stop feed => s.stop feed
  | .drop feed => s.drop feed

/-- The store after several operations. -/
def run (s : SharedStore) (operations : List StoreOperation) : SharedStore :=
  operations.foldl step s

/-- What the polls of a feed return in the course of a run. -/
def polled (feed : FeedId) : SharedStore → List StoreOperation → List ChangeEvent
  | _, [] => []
  | s, operation :: rest =>
      (if operation.Polls feed then (s.poll feed).1.toList else []) ++
        polled feed (s.step operation) rest

/-- The feed that an operation opens. -/
def openedBy? (s : SharedStore) : StoreOperation → Option FeedId
  | .observe name query => (s.observe name query).toOption.map Prod.fst
  | _ => none

/-- The feeds that a run opens, each with what came after. -/
def openings : SharedStore → List StoreOperation → List Opening
  | _, [] => []
  | s, operation :: rest =>
      ((s.openedBy? operation).map (⟨·, rest⟩)).toList ++ (s.step operation).openings rest

theorem Linked.step (h : s.Linked) (operation : StoreOperation) :
    (s.step operation).Linked := by
  cases operation with
  | create name =>
      simp only [SharedStore.step, createCollection]
      split
      · exact h
      · exact ⟨h.feeds, h.used, h.kept⟩
  | insert name document =>
      simp only [SharedStore.step, SharedStore.insert]
      cases idOf? document with
      | none => exact h
      | some id => exact h.write name _
  | update name id fields =>
      simp only [SharedStore.step, SharedStore.update]
      split
      · exact h.write name _
      · exact h
  | remove name id =>
      simp only [SharedStore.step, SharedStore.remove]
      split
      · exact h.write name _
      · exact h
  | observe name query =>
      simp only [SharedStore.step, SharedStore.observe]
      cases Selector.compile query.selector with
      | error _ => exact h
      | ok selector => exact h.register name query selector
  | poll feed => exact h.poll feed
  | stop feed => exact h.stop feed
  | drop feed => exact h.deactivate feed

/-- An operation does to the view what it does to a store. -/
theorem view_step (h : s.Linked) (operation : StoreOperation) :
    (s.step operation).view = s.view.step operation := by
  cases operation with
  | create name => exact view_createCollection s name
  | insert name document =>
      rw [Store.step, ← view_insert h, step]
      cases s.insert name document <;> rfl
  | update name id fields => exact congrArg Prod.snd (view_update h name id fields)
  | remove name id => exact congrArg Prod.snd (view_remove h name id)
  | observe name query =>
      rw [Store.step, ← view_observe h, step]
      cases s.observe name query <;> rfl
  | poll feed => exact congrArg Prod.snd (view_poll h feed)
  | stop feed => exact view_stop h feed
  | drop feed => exact view_deactivate s feed

theorem Linked.run (h : s.Linked) (operations : List StoreOperation) :
    (s.run operations).Linked := by
  induction operations generalizing s with
  | nil => exact h
  | cons operation rest ih => exact ih (h.step operation)

/-- A run does to the view what it does to a store. -/
theorem view_run (h : s.Linked) (operations : List StoreOperation) :
    (s.run operations).view = s.view.run operations := by
  induction operations generalizing s with
  | nil => rfl
  | cons operation rest ih =>
      rw [Store.run_cons, ← view_step h]
      exact ih (h.step operation)

/-- The polls return what they return on the view. -/
theorem polled_view (h : s.Linked) (feed : FeedId) (operations : List StoreOperation) :
    s.view.polled feed operations = s.polled feed operations := by
  induction operations generalizing s with
  | nil => rfl
  | cons operation rest ih =>
      rw [Store.polled_cons, polled, ← view_step h, ih (h.step operation), ← view_poll h]
      rfl

theorem openedBy?_view (h : s.Linked) (operation : StoreOperation) :
    s.view.openedBy? operation = s.openedBy? operation := by
  cases operation with
  | observe name query =>
      rw [Store.openedBy?, ← view_observe h, openedBy?]
      cases s.observe name query <;> rfl
  | _ => rfl

theorem openings_view (h : s.Linked) (operations : List StoreOperation) :
    s.view.openings operations = s.openings operations := by
  induction operations generalizing s with
  | nil => rfl
  | cons operation rest ih =>
      rw [Store.openings_cons, openings, ← view_step h, ih (h.step operation), openedBy?_view h]

/-! ## The accounts -/

/-- Let the store let go of ended queries when it will: in every history, the flags that are up
are those of the feeds that were opened and neither stopped nor dropped, and the stops that took
a flag down are as many as the feeds that were stopped at least once before being dropped. No
two feeds are one, and a feed that is stopped returns nothing any more, whatever was queued for
it and whatever comes later. -/
theorem feeds_accounted (operations : List StoreOperation) :
    (empty.run operations).activeSubscriptions = (empty.openings operations).countP (·.IsLive) ∧
    (empty.run operations).stoppedSubscriptions =
      (empty.openings operations).countP (·.IsStopped) ∧
    ((empty.openings operations).map Opening.feed).Nodup ∧
    ∀ o ∈ empty.openings operations, ∀ later,
      ((empty.run operations).stop o.feed).polled o.feed later = [] := by
  have hlinked : (empty.run operations).Linked := linked_empty.run operations
  have hview : (empty.run operations).view = Store.empty.run operations :=
    view_run linked_empty operations
  have hopenings : Store.empty.openings operations = empty.openings operations :=
    openings_view linked_empty operations
  obtain ⟨hactive, hstopped, hdistinct, hsilent⟩ := Store.subscriptions_accounted operations
  rw [hopenings] at hactive hstopped hdistinct hsilent
  rw [← hview] at hactive hstopped hsilent
  refine ⟨?_, hstopped, hdistinct, fun o ho later => ?_⟩
  · rw [← activeSubscriptions_view]
    exact hactive
  · rw [← polled_view (hlinked.stop o.feed), view_stop hlinked]
    exact hsilent o ho later

/-- Four feeds: one is stopped twice, one dropped, one stopped and then dropped, and one stays.
A query that cannot be compiled opens none. -/
def dealings : List StoreOperation :=
  [.insert "A" (Store.bare "a"), .observe "A" (.all 9), .observe "A" (.all 9),
    .observe "A" ⟨.null, 9, none⟩, .observe "A" (.all 9), .observe "A" (.all 9), .stop 0,
    .insert "A" (Store.bare "b"), .stop 0, .drop 1, .poll 2, .stop 2, .drop 2]

/-- The store has let go of the first query only. Two changes wait on the feed that stays, until
it is stopped too. -/
theorem feeds_accounted_dealings :
    (empty.run dealings).registered.map Registration.feed = [1, 2, 3] ∧
      (empty.run dealings).channels.map (·.queue.length) = [0, 0, 0, 2] ∧
      (empty.run dealings).activeSubscriptions = 1 ∧
      (empty.run dealings).stoppedSubscriptions = 2 ∧
      ((empty.run dealings).stop 3).polled 3
        [.poll 3, .insert "A" (Store.bare "c"), .poll 3] = [] := by
  obtain ⟨hactive, hstopped, -, hsilent⟩ := feeds_accounted dealings
  have hopened : (⟨3, dealings.drop 6⟩ : Opening) ∈ empty.openings dealings := by
    have hlast : (empty.openings dealings).getLast? = some ⟨3, dealings.drop 6⟩ := rfl
    exact List.mem_of_getLast? hlast
  exact ⟨by decide +kernel, by decide +kernel, hactive.trans (by decide +kernel),
    hstopped.trans (by decide +kernel), hsilent _ hopened _⟩

end SharedStore

end LiveDocuments
