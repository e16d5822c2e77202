import LiveDocuments.Proofs.Store.Feed
import LiveDocuments.Proofs.Store.Shelves

/-!
# Feeds do not interfere

A store keeps all its live queries in one list, and every write goes through the whole of
it. What one feed shows is all the same a matter of its own collection, of its own polls and
of its own end (`FeedConcern`). The part of a store that lies behind one feed is its
`Glimpse`. A request that does not concern the feed leaves the glimpse alone, and one that
does changes it in a way that the glimpse alone determines (`Store.glimpse_after`). So two
runs whose requests concern a feed in the same way cannot be told apart through it.
-/

namespace LiveDocuments

/-- What may be asked of a store: an operation, or the documents of a query. -/
inductive StoreRequest where
  | operation (operation : StoreOperation)
  | find (name : String) (query : Query)

/-- What concerns a feed: a write to its collection, a change taken off it, or its end, be it
by a stop or by a drop. -/
inductive FeedConcern where
  | write (write : Write)
  | poll
  | ended

namespace Write

/-- The documents of the collection written to, afterwards. -/
def rewrite (documents : List Json) : Write → List Json
  | create _ => documents
  | insert _ document =>
      match idOf? document with
      | none => documents
      | some id => Store.upsert id document documents
  | update _ id fields => Store.alter id (fun d => Store.merge d fields) documents
  | remove _ id => Store.without id documents

end Write

namespace Store

/-- The store after a request. Finding documents leaves it as it is. -/
def after (s : Store) : StoreRequest → Store
  | .operation operation => s.step operation
  | .find _ _ => s

/-- The store after several requests. -/
def afterAll (s : Store) (requests : List StoreRequest) : Store := requests.foldl after s

/-- The write of documents to the collection that a request makes. One that is refused, or
that finds no document, writes nothing. -/
def writeTo? (s : Store) (name : String) : StoreRequest → Option Write
  | .operation (.insert other document) =>
      if other = name ∧ (idOf? document).isSome then some (.insert other document) else none
  | .operation (.update other id fields) =>
      if other = name ∧ holds id (s.documents other) then some (.update other id fields)
      else none
  | .operation (.remove other id) =>
      if other = name ∧ holds id (s.documents other) then some (.remove other id) else none
  | _ => none

/-- How a request concerns a feed of the collection, if it does. -/
def concern? (s : Store) (name : String) (feed : FeedId) : StoreRequest → Option FeedConcern
  | .operation (.poll other) => if other = feed then some .poll else none
  | .operation (.stop other) => if other = feed then some .ended else none
  | .operation (.drop other) => if other = feed then some .ended else none
  | request => (s.writeTo? name request).map .write

/-- What a request is answered if it polls the feed. -/
def answerOn? (s : Store) (feed : FeedId) : StoreRequest → Option (Option ChangeEvent)
  | .operation (.poll other) => if other = feed then some (s.poll feed).1 else none
  | _ => none

/-- What is noted in the course of a run, of each request in the store that it meets. -/
def noted {α : Type} (note : Store → StoreRequest → Option α) :
    Store → List StoreRequest → List α
  | _, [] => []
  | s, request :: rest => (note s request).toList ++ noted note (s.after request) rest

/-- The writes of documents to a collection in the course of a run. -/
def writesTo (s : Store) (name : String) (requests : List StoreRequest) : List Write :=
  noted (fun s => s.writeTo? name) s requests

/-- What concerns a feed in the course of a run. -/
def concerns (s : Store) (name : String) (feed : FeedId) (requests : List StoreRequest) :
    List FeedConcern :=
  noted (fun s => s.concern? name feed) s requests

/-- What the polls of a feed are answered in the course of a run, poll by poll. -/
def answersOn (s : Store) (feed : FeedId) (requests : List StoreRequest) :
    List (Option ChangeEvent) :=
  noted (fun s => s.answerOn? feed) s requests

theorem noted_cons {α : Type} (note : Store → StoreRequest → Option α) (s : Store)
    (request : StoreRequest) (rest : List StoreRequest) :
    noted note s (request :: rest) =
      (note s request).toList ++ noted note (s.after request) rest := rfl

theorem afterAll_cons (s : Store) (request : StoreRequest) (rest : List StoreRequest) :
    s.afterAll (request :: rest) = (s.after request).afterAll rest := rfl

/-! ## Writes as they are noted -/

/-- The request leaves the store as it is and no write is noted, or the documents of one
collection are written as the noted write tells. -/
def IsOneWrite (s : Store) (request : StoreRequest) : Prop :=
  (s.after request = s ∧ ∀ name, s.writeTo? name request = none) ∨
    ∃ other write, s.after request = s.write other (write.rewrite (s.documents other)) ∧
      ∀ name, s.writeTo? name request = if other = name then some write else none

theorem isOneWrite_insert (s : Store) (other : String) (document : Json) :
    s.IsOneWrite (.operation (.insert other document)) := by
  cases hid : idOf? document with
  | none => exact .inl ⟨by simp [after, step, Store.insert, hid], by simp [writeTo?, hid]⟩
  | some id =>
      exact .inr ⟨other, .insert other document,
        by simp [after, step, Store.insert, Write.rewrite, hid], by simp [writeTo?, hid]⟩

theorem isOneWrite_update (s : Store) (other : String) (id : DocumentId) (fields : Json) :
    s.IsOneWrite (.operation (.update other id fields)) := by
  by_cases hholds : holds id (s.documents other) = true
  · exact .inr ⟨other, .update other id fields,
      by simp [after, step, update, Write.rewrite, hholds], by simp [writeTo?, hholds]⟩
  · exact .inl ⟨by simp [after, step, update, hholds], by simp [writeTo?, hholds]⟩

theorem isOneWrite_remove (s : Store) (other : String) (id : DocumentId) :
    s.IsOneWrite (.operation (.remove other id)) := by
  by_cases hholds : holds id (s.documents other) = true
  · exact .inr ⟨other, .remove other id,
      by simp [after, step, remove, Write.rewrite, hholds], by simp [writeTo?, hholds]⟩
  · exact .inl ⟨by simp [after, step, remove, hholds], by simp [writeTo?, hholds]⟩

theorem documents_of_isOneWrite {s : Store} {request : StoreRequest}
    (h : s.IsOneWrite request) (name : String) :
    (s.after request).documents name =
      ((s.writeTo? name request).map (·.rewrite (s.documents name))).getD (s.documents name) := by
  rcases h with ⟨hafter, hnone⟩ | ⟨other, write, hafter, hwrite⟩
  · rw [hafter, hnone]
    rfl
  · rw [hafter, hwrite, documents_write]
    by_cases hother : other = name
    · subst hother
      simp
    · simp [hother]

/-- A request writes the documents that its write tells, and changes nothing of a collection
that it does not write to. -/
theorem documents_after (s : Store) (name : String) (request : StoreRequest) :
    (s.after request).documents name =
      ((s.writeTo? name request).map (·.rewrite (s.documents name))).getD (s.documents name) := by
  cases request with
  | find other query => rfl
  | operation operation =>
      cases operation with
      | create other => exact documents_createCollection s other name
      | insert other document => exact documents_of_isOneWrite (s.isOneWrite_insert _ _) name
      | update other id fields => exact documents_of_isOneWrite (s.isOneWrite_update _ _ _) name
      | remove other id => exact documents_of_isOneWrite (s.isOneWrite_remove _ _) name
      | observe other query =>
          simp only [after, step]
          cases hobserve : s.observe other query with
          | error _ => rfl
          | ok opened =>
              obtain ⟨feed, next⟩ := opened
              obtain ⟨_, _, _, rfl⟩ := observe_eq_ok hobserve
              rfl
      | poll feed => rfl
      | stop feed =>
          show (lookup name (s.stop feed).collections).getD [] = _
          rw [collections_stop]
          rfl
      | drop feed => rfl

theorem alter_eq_self {id : DocumentId} {f : Json → Json} {documents : List Json}
    (hf : ∀ document ∈ documents, idOf? document = some id → f document = document) :
    alter id f documents = documents := by
  induction documents with
  | nil => rfl
  | cons first rest ih =>
      rw [alter]
      split
      · next hfirst => rw [hf first List.mem_cons_self hfirst]
      · rw [ih fun document hmem => hf document (List.mem_cons_of_mem first hmem)]

theorem alter_of_not_holds {id : DocumentId} {documents : List Json}
    (h : ¬ holds id documents = true) (f : Json → Json) : alter id f documents = documents :=
  alter_eq_self fun document hmem hid =>
    absurd (List.any_eq_true.mpr ⟨document, hmem, by simpa using hid⟩) h

theorem without_of_not_holds {id : DocumentId} {documents : List Json}
    (h : ¬ holds id documents = true) : without id documents = documents := by
  induction documents with
  | nil => rfl
  | cons first rest ih =>
      obtain ⟨hfirst, hrest⟩ : ¬ idOf? first = some id ∧ ¬ holds id rest = true := by
        simpa [holds] using h
      rw [without, if_neg hfirst, ih hrest]

/-- A write that finds no document, or is refused, would change none anyway: the documents of
its collection are as it tells. -/
theorem documents_step_write (s : Store) (w : Write) (name : String) :
    (s.step w.operation).documents name =
      if w.collection = name then w.rewrite (s.documents name) else s.documents name := by
  have hafter := s.documents_after name (.operation w.operation)
  cases w with
  | create other => exact hafter.trans (by split <;> rfl)
  | insert other document =>
      refine hafter.trans ?_
      simp only [writeTo?, Write.operation, Write.collection, Write.rewrite]
      cases hid : idOf? document <;> by_cases hname : other = name <;> simp [hname, hid]
  | update other id fields =>
      refine hafter.trans ?_
      simp only [writeTo?, Write.operation, Write.collection, Write.rewrite]
      by_cases hname : other = name <;> by_cases hholds : holds id (s.documents other) = true <;>
        simp_all [Write.rewrite, alter_of_not_holds]
  | remove other id =>
      refine hafter.trans ?_
      simp only [writeTo?, Write.operation, Write.collection, Write.rewrite]
      by_cases hname : other = name <;> by_cases hholds : holds id (s.documents other) = true <;>
        simp_all [Write.rewrite, without_of_not_holds]

/-- The documents of a collection are made by the writes to it. -/
theorem documents_afterAll (s : Store) (name : String) (requests : List StoreRequest) :
    (s.afterAll requests).documents name =
      (s.writesTo name requests).foldl Write.rewrite (s.documents name) := by
  induction requests generalizing s with
  | nil => rfl
  | cons request rest ih =>
      rw [afterAll_cons, ih, documents_after, writesTo, writesTo, noted_cons, List.foldl_append]
      cases s.writeTo? name request <;> rfl

end Store

/-! ## What lies behind a feed -/

/-- The live query whatever the number of its feed. -/
def LiveQuery.unnamed (q : LiveQuery) : LiveQuery := { q with feed := 0 }

/-- The documents of a collection, and the live query behind a feed. -/
structure Glimpse where
  documents : List Json
  query? : Option LiveQuery

namespace Glimpse

/-- What lies behind the feed after something that concerns it. -/
def act (g : Glimpse) : FeedConcern → Glimpse
  | .write write =>
      ⟨write.rewrite g.documents, g.query?.map (·.rerun (write.rewrite g.documents))⟩
  | .poll => { g with query? := g.query?.map fun q => { q with pending := q.pending.drop 1 } }
  | .ended => { g with query? := none }

/-- The change that the next poll returns. -/
def next? (g : Glimpse) : Option ChangeEvent := g.query?.bind fun q => q.pending.head?

/-- What is answered if it is a poll that concerns the feed. -/
def answer? (g : Glimpse) : FeedConcern → Option (Option ChangeEvent)
  | .poll => some g.next?
  | _ => none

/-- What the polls are answered, poll by poll. -/
def answers (g : Glimpse) : List FeedConcern → List (Option ChangeEvent)
  | [] => []
  | concern :: rest => (g.answer? concern).toList ++ (g.act concern).answers rest

end Glimpse

namespace Store

/-- The live query of a feed. -/
def followed? (s : Store) (feed : FeedId) : Option LiveQuery :=
  (s.live.find? fun q => q.feed = feed).map LiveQuery.unnamed

/-- What lies behind a feed of the collection. -/
def glimpse (s : Store) (name : String) (feed : FeedId) : Glimpse :=
  ⟨s.documents name, s.followed? feed⟩

/-- The feed was given out, and if it is still live it is one of the collection. -/
structure Watched (s : Store) (name : String) (feed : FeedId) : Prop where
  used : feed < s.nextFeed
  collection : ∀ q ∈ s.live, q.feed = feed → q.collection = name

variable {s : Store} {name : String} {feed : FeedId}

theorem poll_eq_next? (s : Store) (name : String) (feed : FeedId) :
    (s.poll feed).1 = (s.glimpse name feed).next? := by
  simp only [poll, pending, Glimpse.next?, glimpse, followed?]
  cases s.live.find? fun q => q.feed = feed <;> rfl

theorem find?_map_of_feed {f : LiveQuery → LiveQuery} (hf : ∀ q, (f q).feed = q.feed)
    (live : List LiveQuery) (feed : FeedId) :
    (live.map f).find? (fun q => q.feed = feed) =
      (live.find? fun q => q.feed = feed).map f := by
  rw [List.find?_map]
  refine congrArg (Option.map f) (congrArg (List.find? · live) (funext fun q => ?_))
  simp [hf]

theorem feed_rerunIf (name : String) (documents : List Json) (q : LiveQuery) :
    (if q.collection = name then q.rerun documents else q).feed = q.feed := by
  split <;> rfl

theorem glimpse_write (h : s.Watched name feed) (documents : List Json) :
    (s.write name documents).glimpse name feed =
      ⟨documents, (s.followed? feed).map (·.rerun documents)⟩ := by
  have hdocuments : (s.write name documents).documents name = documents := by
    rw [documents_write, if_pos rfl]
  have hfollowed : (s.write name documents).followed? feed =
      (s.followed? feed).map (·.rerun ((s.write name documents).documents name)) := by
    simp only [followed?, write, notify, find?_map_of_feed (feed_rerunIf name _)]
    cases hfind : s.live.find? fun q => q.feed = feed with
    | none => rfl
    | some q =>
        have hfeed : q.feed = feed := by simpa using List.find?_some hfind
        have hcollection := h.collection q (List.mem_of_find?_eq_some hfind) hfeed
        rw [Option.map_some, Option.map_some, if_pos hcollection]
        rfl
  rw [glimpse, hfollowed, hdocuments]

theorem glimpse_write_of_ne (h : s.Watched name feed) {other : String} (hother : other ≠ name)
    (documents : List Json) :
    (s.write other documents).glimpse name feed = s.glimpse name feed := by
  rw [glimpse, documents_write, if_neg hother]
  refine congrArg (Glimpse.mk _) ?_
  simp only [followed?, write, notify, find?_map_of_feed (feed_rerunIf other _)]
  cases hfind : s.live.find? fun q => q.feed = feed with
  | none => rfl
  | some q =>
      have hfeed : q.feed = feed := by simpa using List.find?_some hfind
      have hcollection := h.collection q (List.mem_of_find?_eq_some hfind) hfeed
      have hne : ¬ q.collection = other := fun heq => hother (heq.symm.trans hcollection)
      simp only [Option.map_some, hne, if_false]

theorem watched_write (h : s.Watched name feed) (other : String) (documents : List Json) :
    (s.write other documents).Watched name feed where
  used := h.used
  collection := by
    intro q hq hfeed
    obtain ⟨p, hp, rfl⟩ := List.mem_map.mp hq
    rw [feed_rerunIf] at hfeed
    have hcollection := h.collection p hp hfeed
    split <;> exact hcollection

theorem glimpse_opening (h : s.Watched name feed) {q : LiveQuery} (hq : q.feed = s.nextFeed) :
    (s.opening q).glimpse name feed = s.glimpse name feed := by
  have hne : ¬ q.feed = feed := by
    rw [hq]
    exact Nat.ne_of_gt h.used
  have hnone : [q].find? (fun q => q.feed = feed) = none := by simp [hne]
  simp only [glimpse, followed?, opening, List.find?_append, hnone, Option.or_none]
  rfl

theorem watched_opening (h : s.Watched name feed) {q : LiveQuery} (hq : q.feed = s.nextFeed) :
    (s.opening q).Watched name feed where
  used := Nat.lt_succ_of_lt h.used
  collection := by
    intro p hp hfeed
    rcases List.mem_append.mp hp with hp | hp
    · exact h.collection p hp hfeed
    · obtain rfl := List.mem_singleton.mp hp
      exact absurd (hq.symm.trans hfeed) (Nat.ne_of_gt h.used)

theorem glimpse_requeue (s : Store) (name : String) (feed other : FeedId)
    (f : List ChangeEvent → List ChangeEvent) :
    (s.requeue other f).glimpse name feed =
      if other = feed then
        { s.glimpse name feed with
          query? := (s.followed? feed).map fun q => { q with pending := f q.pending } }
      else s.glimpse name feed := by
  have hkept : ∀ q : LiveQuery,
      (if q.feed = other then { q with pending := f q.pending } else q).feed = q.feed := by
    intro q
    split <;> rfl
  simp only [glimpse, followed?, requeue, find?_map_of_feed hkept]
  cases hfind : s.live.find? fun q => q.feed = feed with
  | none => split <;> rfl
  | some q =>
      have hfeed : q.feed = feed := by simpa using List.find?_some hfind
      by_cases hother : other = feed
      · simp only [Option.map_some, hfeed, hother, if_true]
        rfl
      · simp only [Option.map_some, hfeed, hother, Ne.symm hother, if_false]
        rfl

theorem watched_requeue (h : s.Watched name feed) (other : FeedId)
    (f : List ChangeEvent → List ChangeEvent) : (s.requeue other f).Watched name feed where
  used := h.used
  collection := by
    intro q hq hfeed
    obtain ⟨p, hp, rfl⟩ := List.mem_map.mp hq
    have hcollection := h.collection p hp
    split at hfeed <;> split <;> exact hcollection hfeed

theorem glimpse_drop (s : Store) (name : String) (feed other : FeedId) :
    (s.drop other).glimpse name feed =
      if other = feed then { s.glimpse name feed with query? := none }
      else s.glimpse name feed := by
  have hfollowed : (s.drop other).followed? feed =
      if other = feed then none else s.followed? feed := by
    simp only [followed?, drop]
    split
    · next hother =>
        rw [Option.map_eq_none_iff, List.find?_eq_none]
        intro q hq
        simpa [← hother] using (List.mem_filter.mp hq).2
    · next hother =>
        rw [List.find?_filter]
        refine congrArg _ (congrArg (List.find? · s.live) (funext fun q => ?_))
        by_cases hfeed : q.feed = feed
        · simp [hfeed, Ne.symm hother]
        · simp [hfeed]
  rw [glimpse, hfollowed]
  split <;> rfl

theorem watched_drop (h : s.Watched name feed) (other : FeedId) :
    (s.drop other).Watched name feed :=
  ⟨h.used, fun q hq => h.collection q (List.mem_filter.mp hq).1⟩

theorem glimpse_stop (s : Store) (name : String) (feed other : FeedId) :
    (s.stop other).glimpse name feed =
      if other = feed then { s.glimpse name feed with query? := none }
      else s.glimpse name feed := by
  rw [← glimpse_drop]
  simp only [glimpse, followed?, documents, live_stop, collections_stop]
  rfl

theorem watched_stop (h : s.Watched name feed) (other : FeedId) :
    (s.stop other).Watched name feed where
  used := by
    unfold stop
    split <;> exact h.used
  collection := by
    rw [live_stop]
    exact (watched_drop h other).collection

/-! ## One request -/

/-- A write of documents concerns the feeds of their collection, and no others. -/
theorem glimpse_of_isOneWrite (h : s.Watched name feed) {request : StoreRequest}
    (hone : s.IsOneWrite request)
    (hconcern : s.concern? name feed request = (s.writeTo? name request).map .write) :
    (s.after request).Watched name feed ∧
      (s.after request).glimpse name feed =
        ((s.concern? name feed request).map (s.glimpse name feed).act).getD
          (s.glimpse name feed) := by
  rw [hconcern]
  rcases hone with ⟨hafter, hnone⟩ | ⟨other, write, hafter, hwrite⟩
  · rw [hafter, hnone]
    exact ⟨h, rfl⟩
  · rw [hafter, hwrite]
    refine ⟨watched_write h other _, ?_⟩
    by_cases hother : other = name
    · subst hother
      rw [glimpse_write h, if_pos rfl]
      rfl
    · rw [glimpse_write_of_ne h hother, if_neg hother]
      rfl

/-- What lies behind a feed changes as the request concerns the feed, and not at all if it
does not. -/
theorem glimpse_after (h : s.Watched name feed) (request : StoreRequest) :
    (s.after request).Watched name feed ∧
      (s.after request).glimpse name feed =
        ((s.concern? name feed request).map (s.glimpse name feed).act).getD
          (s.glimpse name feed) := by
  cases request with
  | find other query => exact ⟨h, rfl⟩
  | operation operation =>
      cases operation with
      | create other =>
          simp only [after, step, createCollection]
          split
          · exact ⟨h, rfl⟩
          · next hnew =>
              refine ⟨⟨h.used, h.collection⟩, ?_⟩
              have hdocuments := documents_createCollection s other name
              rw [createCollection, if_neg hnew] at hdocuments
              exact congrArg (Glimpse.mk · (s.followed? feed)) hdocuments
      | insert other document => exact glimpse_of_isOneWrite h (s.isOneWrite_insert _ _) rfl
      | update other id fields => exact glimpse_of_isOneWrite h (s.isOneWrite_update _ _ _) rfl
      | remove other id => exact glimpse_of_isOneWrite h (s.isOneWrite_remove _ _) rfl
      | observe other query =>
          simp only [after, step]
          cases hobserve : s.observe other query with
          | error _ => exact ⟨h, rfl⟩
          | ok opened =>
              obtain ⟨opening, next⟩ := opened
              obtain ⟨selector, _, _, rfl⟩ := observe_eq_ok hobserve
              exact ⟨watched_opening h rfl, glimpse_opening h rfl⟩
      | poll other =>
          refine ⟨watched_requeue h other _, ?_⟩
          refine (glimpse_requeue s name feed other _).trans ?_
          simp only [concern?]
          split <;> rfl
      | stop other =>
          refine ⟨watched_stop h other, ?_⟩
          refine (glimpse_stop s name feed other).trans ?_
          simp only [concern?]
          split <;> rfl
      | drop other =>
          refine ⟨watched_drop h other, ?_⟩
          refine (glimpse_drop s name feed other).trans ?_
          simp only [concern?]
          split <;> rfl

theorem answerOn?_eq (s : Store) (name : String) (feed : FeedId) (request : StoreRequest) :
    s.answerOn? feed request =
      (s.concern? name feed request).bind (s.glimpse name feed).answer? := by
  have hwrite : ∀ write : Option Write,
      (write.map FeedConcern.write).bind (s.glimpse name feed).answer? = none := by
    intro write
    cases write <;> rfl
  cases request with
  | find other query => rfl
  | operation operation =>
      cases operation with
      | poll other =>
          simp only [answerOn?, concern?]
          split
          · next hother => exact congrArg some (poll_eq_next? s name feed)
          · rfl
      | stop other =>
          simp only [answerOn?, concern?]
          split <;> rfl
      | drop other =>
          simp only [answerOn?, concern?]
          split <;> rfl
      | insert other document => exact (hwrite _).symm
      | update other id fields => exact (hwrite _).symm
      | remove other id => exact (hwrite _).symm
      | create other => rfl
      | observe other query => rfl

/-! ## A run -/

/-- The answers to the polls of a feed are told by what lay behind it and by what concerned
it. -/
theorem answersOn_eq (h : s.Watched name feed) (requests : List StoreRequest) :
    s.answersOn feed requests =
      (s.glimpse name feed).answers (s.concerns name feed requests) := by
  induction requests generalizing s with
  | nil => rfl
  | cons request rest ih =>
      obtain ⟨hwatched, hglimpse⟩ := glimpse_after h request
      have hrest := ih hwatched
      rw [hglimpse] at hrest
      rw [answersOn, noted_cons, concerns, noted_cons, answerOn?_eq s name]
      rw [answersOn, concerns] at hrest
      rw [hrest]
      cases s.concern? name feed request <;> rfl

/-- The feed of a new query is one of its collection, and behind it lie the documents of the
collection and the query run over them. -/
theorem watched_opened {s next : Store} {name : String} {query : Query} {feed : FeedId}
    (hs : s.Consistent) (h : s.observe name query = .ok (feed, next)) :
    next.Watched name feed ∧ ∃ selector, Selector.compile query.selector = .ok selector ∧
      next.glimpse name feed =
        ⟨s.documents name, some (s.opened name query selector).unnamed⟩ := by
  obtain ⟨selector, hselector, rfl, rfl⟩ := observe_eq_ok h
  refine ⟨⟨Nat.lt_succ_self _, ?_⟩, selector, hselector, ?_⟩
  · intro q hq hfeed
    rcases List.mem_append.mp hq with hq | hq
    · exact absurd hfeed (Nat.ne_of_lt (hs.used q hq))
    · obtain rfl := List.mem_singleton.mp hq
      rfl
  · rw [glimpse, followed?, find?_opening (List.forall_mem_map.mpr hs.used) rfl]
    rfl

theorem Consistent.afterAll {s : Store} (h : s.Consistent) (requests : List StoreRequest) :
    (s.afterAll requests).Consistent := by
  induction requests generalizing s with
  | nil => exact h
  | cons request rest ih =>
      cases request with
      | operation operation => exact ih (h.step operation)
      | find name query => exact ih h

/-- Two runs open a feed by the same query on the same collection. If the same documents were
written to the collection before, and afterwards the same writes to it, the same polls of the feed
and the same ends of it come in the same order, then the polls of the feed are answered alike in
both runs, whatever else is done to either store and however the two feeds are numbered. -/
theorem answers_independent (before₁ before₂ after₁ after₂ : List StoreRequest) (name : String)
    (query : Query) (feed₁ feed₂ : FeedId) (s₁ s₂ : Store)
    (hopen₁ : (empty.afterAll before₁).observe name query = .ok (feed₁, s₁))
    (hopen₂ : (empty.afterAll before₂).observe name query = .ok (feed₂, s₂))
    (hbefore : empty.writesTo name before₁ = empty.writesTo name before₂)
    (hafter : s₁.concerns name feed₁ after₁ = s₂.concerns name feed₂ after₂) :
    s₁.answersOn feed₁ after₁ = s₂.answersOn feed₂ after₂ := by
  have hdocuments : (empty.afterAll before₁).documents name =
      (empty.afterAll before₂).documents name := by
    rw [documents_afterAll, documents_afterAll, hbefore]
  obtain ⟨hwatched₁, selector, hselector, hglimpse₁⟩ :=
    watched_opened (consistent_empty.afterAll before₁) hopen₁
  obtain ⟨hwatched₂, other, hother, hglimpse₂⟩ :=
    watched_opened (consistent_empty.afterAll before₂) hopen₂
  obtain rfl : selector = other := Except.ok.inj (hselector.symm.trans hother)
  have hsame : s₁.glimpse name feed₁ = s₂.glimpse name feed₂ := by
    rw [hglimpse₁, hglimpse₂]
    simp only [LiveQuery.unnamed, opened, hdocuments]
  rw [answersOn_eq hwatched₁, answersOn_eq hwatched₂, hsame, hafter]

/-- A collection that is read through one feed only. -/
def alone : List StoreRequest :=
  [.operation (.poll 0), .operation (.insert "A" (bare "b")), .operation (.poll 0),
    .operation (.stop 0), .operation (.poll 0)]

/-- The same collection read through a second feed, among writes elsewhere and writes that
fail. -/
def crowded : List StoreRequest :=
  [.operation (.poll 0), .operation (.poll 1), .operation (.insert "B" (bare "x")),
    .operation (.remove "A" (.plain "c")), .operation (.insert "A" (bare "b")),
    .operation (.stop 0), .find "A" (.all 9), .operation (.poll 1),
    .operation (.insert "A" .null), .operation (.drop 1), .operation (.poll 1)]

/-- The second reader of a collection has another feed, and is answered as the only one. -/
theorem answers_independent_crowded :
    ∃ s₁ s₂,
      (empty.afterAll [.operation (.insert "A" (bare "a"))]).observe "A" (.all 9) =
        .ok (0, s₁) ∧
      (empty.afterAll [.operation (.create "A"), .operation (.observe "A" (.all 1)),
        .operation (.insert "A" (bare "a"))]).observe "A" (.all 9) = .ok (1, s₂) ∧
      s₁.answersOn 0 alone =
        [some (.added (.plain "a") (bare "a") none), some (.added (.plain "b") (bare "b") none),
          none] ∧
      s₁.answersOn 0 alone = s₂.answersOn 1 crowded := by
  refine ⟨_, _, rfl, rfl, rfl, ?_⟩
  exact answers_independent [.operation (.insert "A" (bare "a"))]
    [.operation (.create "A"), .operation (.observe "A" (.all 1)),
      .operation (.insert "A" (bare "a"))]
    alone crowded "A" (.all 9) 0 1 _ _ rfl rfl rfl rfl

end Store

end LiveDocuments
