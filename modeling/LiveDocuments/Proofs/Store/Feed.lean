import LiveDocuments.Proofs.Store.Changes
import LiveDocuments.Proofs.Store.Run

/-!
# The feed of a live query

The reader of a feed holds what it has polled so far. The store knows nothing of the
reader: it only remembers the results of the last run and the changes still queued.
What ties the two together is that replaying the queue over what the reader holds
gives the remembered results (`LiveQuery.Follows`). A write extends the queue at its
end, a poll shortens it at its front, and both keep the tie.
-/

namespace LiveDocuments

open Results

/-! ## One live query and its reader -/

/-- The live query is that of the query on the collection, and its queue leads a strict
reader from what is held to the results last found. -/
structure LiveQuery.Follows (q : LiveQuery) (name : String) (query : Query)
    (held : Results) : Prop where
  collection : q.collection = name
  selector : Selector.compile query.selector = .ok q.selector
  limit : q.limit = query.limit
  sort : q.sort = query.sort
  replays : ∃ final, Replays query.limit held q.pending final ∧ Agrees final q.results

namespace LiveQuery.Follows

variable {q : LiveQuery} {name : String} {query : Query} {held : Results}

/-- A rerun queues changes that lead from the old results to the new ones. -/
theorem rerun (h : q.Follows name query held) (hnodup : (ids q.results).Nodup)
    (hroom : q.results.length ≤ query.limit) (documents : List Json)
    (hdocuments : (idsOf documents).Nodup) : (q.rerun documents).Follows name query held where
  collection := h.collection
  selector := h.selector
  limit := h.limit
  sort := h.sort
  replays := by
    rcases h.replays with ⟨reached, hreached, hagree⟩
    have hnew := nodup_ids_of q.selector q.sort q.limit hdocuments
    have hroom' : (Results.of documents q.selector q.sort q.limit).length ≤ query.limit := by
      rw [← h.limit]
      exact length_of_le documents q.selector q.sort q.limit
    obtain ⟨final, hchanges, hfinal⟩ :=
      replays_changes q.results _ reached hnodup hnew hagree hroom hroom'
    exact ⟨final, hreached.append hchanges, hfinal⟩

theorem advance (h : q.Follows name query held) :
    ∃ next, Replays query.limit held q.pending.head?.toList next ∧
      { q with pending := q.pending.drop 1 }.Follows name query next := by
  rcases h.replays with ⟨final, hreplays, hagree⟩
  cases hpending : q.pending with
  | nil =>
      rw [hpending] at hreplays
      exact ⟨held, .nil hreplays.room, h.collection, h.selector, h.limit, h.sort, final,
        hreplays, hagree⟩
  | cons event rest =>
      rw [hpending] at hreplays
      cases hreplays with
      | cons hroom hlegal hrest =>
          exact ⟨_, .cons hroom hlegal (.nil hrest.room), h.collection, h.selector, h.limit,
            h.sort, final, hrest, hagree⟩

theorem exhaust (h : q.Follows name query held) :
    ∃ final, Replays query.limit held q.pending final ∧
      { q with pending := [] }.Follows name query final := by
  rcases h.replays with ⟨final, hreplays, hagree⟩
  exact ⟨final, hreplays, h.collection, h.selector, h.limit, h.sort, final,
    .nil hreplays.length_le, hagree⟩

end LiveQuery.Follows

/-! ## The store and the reader of one feed -/

namespace Store

/-- The feed is live, and the changes queued for it lead a strict reader from what is
held to what the query finds. -/
def Serves (s : Store) (feed : FeedId) (name : String) (query : Query) (held : Results) :
    Prop := ∃ q ∈ s.live, q.feed = feed ∧ q.Follows name query held

/-- What the polls of a feed return in the course of a run. -/
def polled (feed : FeedId) : Store → List StoreOperation → List ChangeEvent
  | _, [] => []
  | s, operation :: rest =>
      (if operation.Polls feed then (s.poll feed).1.toList else []) ++
        polled feed (s.step operation) rest

@[simp] theorem polled_nil (feed : FeedId) (s : Store) : s.polled feed [] = [] := rfl

theorem polled_cons (feed : FeedId) (s : Store) (operation : StoreOperation)
    (rest : List StoreOperation) :
    s.polled feed (operation :: rest) =
      (if operation.Polls feed then (s.poll feed).1.toList else []) ++
        (s.step operation).polled feed rest := rfl

theorem polled_append (feed : FeedId) (s : Store) (first others : List StoreOperation) :
    s.polled feed (first ++ others) = s.polled feed first ++ (s.run first).polled feed others := by
  induction first generalizing s with
  | nil => rfl
  | cons operation rest ih =>
      rw [List.cons_append, polled_cons, polled_cons, ih, run_cons, List.append_assoc]

theorem pending_of_mem {s : Store} (h : (s.live.map LiveQuery.feed).Nodup) {q : LiveQuery}
    (hq : q ∈ s.live) : s.pending q.feed = q.pending := by
  have hfind : s.live.find? (fun p => p.feed = q.feed) = some q := by
    generalize s.live = live at h hq
    induction live with
    | nil => exact absurd hq List.not_mem_nil
    | cons p rest ih =>
        rw [List.map_cons, List.nodup_cons] at h
        rcases List.mem_cons.mp hq with rfl | hrest
        · simp
        · have hne : p.feed ≠ q.feed := by
            intro heq
            exact h.1 (heq ▸ List.mem_map_of_mem hrest)
          rw [List.find?_cons_of_neg (by simpa using hne)]
          exact ih h.2 hrest
  rw [pending, hfind]

namespace Serves

variable {s t : Store} {feed : FeedId} {name : String} {query : Query} {held : Results}

theorem room (h : s.Serves feed name query held) : held.length ≤ query.limit := by
  rcases h with ⟨_, _, _, hfollows⟩
  rcases hfollows.replays with ⟨_, hreplays, _⟩
  exact hreplays.room

theorem congr (h : s.Serves feed name query held) (ht : Alike s t) :
    t.Serves feed name query held := by
  rcases h with ⟨q, hq, hfeed, hfollows⟩
  exact ⟨q, ht.live ▸ hq, hfeed, hfollows⟩

/-- The new feed of an accepted query serves a reader that holds nothing. -/
theorem opened (hs : s.Consistent) {next : Store}
    (h : s.observe name query = .ok (feed, next)) : next.Serves feed name query [] := by
  obtain ⟨selector, hselector, rfl, rfl⟩ := observe_eq_ok h
  refine ⟨s.opened name query selector, by simp [opening], rfl, rfl, hselector, rfl, rfl, ?_⟩
  have hnodup := nodup_ids_of selector query.sort query.limit (hs.distinct name)
  have hroom := length_of_le (s.documents name) selector query.sort query.limit
  exact ⟨_, replays_first _ [] hnodup hroom, Agrees.refl _⟩

theorem opening (h : s.Serves feed name query held) (q : LiveQuery) :
    (s.opening q).Serves feed name query held := by
  rcases h with ⟨p, hp, hfeed, hfollows⟩
  exact ⟨p, List.mem_append_left _ hp, hfeed, hfollows⟩

theorem write (h : s.Serves feed name query held) (hs : s.Consistent) (other : String)
    (documents : List Json) (hdocuments : (idsOf documents).Nodup) :
    (s.write other documents).Serves feed name query held := by
  rcases h with ⟨q, hq, hfeed, hfollows⟩
  refine ⟨_, List.mem_map_of_mem hq, ?_, ?_⟩
  · split <;> exact hfeed
  split
  · next hcollection =>
      have hnodup : (ids q.results).Nodup := by
        rw [hs.fresh q hq]
        exact nodup_ids_of q.selector q.sort q.limit (hs.distinct q.collection)
      have hroom : q.results.length ≤ query.limit := by
        rw [hs.fresh q hq, ← hfollows.limit]
        exact length_of_le _ q.selector q.sort q.limit
      refine hfollows.rerun hnodup hroom _ ?_
      have hwritten := documents_write s other other documents
      rw [if_pos rfl, Store.write, documents_notify] at hwritten
      rw [hwritten]
      exact hdocuments
  · exact hfollows

theorem requeue_other (h : s.Serves feed name query held) {other : FeedId}
    (hother : other ≠ feed) (f : List ChangeEvent → List ChangeEvent) :
    (s.requeue other f).Serves feed name query held := by
  rcases h with ⟨q, hq, hfeed, hfollows⟩
  refine ⟨_, List.mem_map_of_mem hq, ?_, ?_⟩
  · split <;> exact hfeed
  · have hne : q.feed ≠ other := by rw [hfeed]; exact Ne.symm hother
    rw [if_neg hne]
    exact hfollows

theorem drop_other (h : s.Serves feed name query held) {other : FeedId}
    (hother : other ≠ feed) : (s.drop other).Serves feed name query held := by
  rcases h with ⟨q, hq, hfeed, hfollows⟩
  have hne : q.feed ≠ other := by rw [hfeed]; exact Ne.symm hother
  exact ⟨q, List.mem_filter.mpr ⟨hq, by simpa using hne⟩, hfeed, hfollows⟩

theorem poll (h : s.Serves feed name query held) (hs : s.Consistent) :
    ∃ next, Replays query.limit held (s.poll feed).1.toList next ∧
      (s.poll feed).2.Serves feed name query next := by
  rcases h with ⟨q, hq, rfl, hfollows⟩
  rcases hfollows.advance with ⟨next, hreplays, hnext⟩
  refine ⟨next, ?_, _, List.mem_map_of_mem hq, ?_, ?_⟩
  · rw [Store.poll, pending_of_mem hs.feeds hq]
    exact hreplays
  · rw [if_pos rfl]
  · rw [if_pos rfl]
    exact hnext

theorem drain (h : s.Serves feed name query held) (hs : s.Consistent) :
    ∃ final, Replays query.limit held (s.drain feed).1 final ∧
      (s.drain feed).2.Serves feed name query final ∧ (s.drain feed).2.pending feed = [] := by
  rcases h with ⟨q, hq, rfl, hfollows⟩
  rcases hfollows.exhaust with ⟨final, hreplays, hfinal⟩
  have hmem : { q with pending := [] } ∈ (s.drain q.feed).2.live := by
    have := List.mem_map_of_mem (f := fun p : LiveQuery =>
      if p.feed = q.feed then { p with pending := [] } else p) hq
    rwa [if_pos rfl] at this
  refine ⟨final, ?_, ⟨_, hmem, rfl, hfinal⟩, ?_⟩
  · rw [Store.drain, pending_of_mem hs.feeds hq]
    exact hreplays
  · have hdrained : (s.drain q.feed).2.Consistent := hs.requeue q.feed fun _ => []
    exact pending_of_mem hdrained.feeds hmem

/-- A reader of an empty queue holds what the query finds. -/
theorem settled (h : s.Serves feed name query held) (hs : s.Consistent)
    (hpending : s.pending feed = []) :
    ∃ results, s.find name query = .ok (results.map Prod.snd) ∧ Agrees held results ∧
      ∀ entry ∈ results, idOf? entry.2 = some entry.1 := by
  rcases h with ⟨q, hq, rfl, hfollows⟩
  rcases hfollows.replays with ⟨final, hreplays, hagree⟩
  rw [pending_of_mem hs.feeds hq] at hpending
  have hheld : final = held := (hpending ▸ hreplays).of_nil
  have hfound : s.find name query = .ok (q.results.map Prod.snd) := by
    rw [find, hfollows.selector, hs.fresh q hq, hfollows.collection, hfollows.limit,
      hfollows.sort]
  refine ⟨q.results, hfound, hheld ▸ hagree, ?_⟩
  intro entry hentry
  rw [hs.fresh q hq] at hentry
  exact (mem_of hentry).2.2

/-- An operation that does not end the feed hands its reader legal changes only. -/
theorem step (h : s.Serves feed name query held) (hs : s.Consistent)
    (operation : StoreOperation) (hends : ¬ operation.Ends feed) :
    ∃ next, Replays query.limit held
        (if operation.Polls feed then (s.poll feed).1.toList else []) next ∧
      (s.step operation).Serves feed name query next := by
  by_cases hpolls : operation.Polls feed
  · rw [if_pos hpolls]
    cases operation with
    | poll other =>
        obtain rfl : other = feed := hpolls
        exact h.poll hs
    | _ => exact absurd hpolls id
  · rw [if_neg hpolls]
    refine ⟨held, .nil h.room, ?_⟩
    rcases step_cases s operation with
      halike | ⟨other, documents, hstep, hnodup⟩ | ⟨other, asked, selector, -, hstep⟩ |
        ⟨other, rfl, hstep⟩ | ⟨other, hother, halike⟩
    · exact h.congr halike
    · rw [hstep]
      exact h.write hs other documents (hnodup (hs.distinct other))
    · rw [hstep]
      exact h.opening _
    · rw [hstep]
      exact h.requeue_other (fun heq => hpolls heq) _
    · have hne : other ≠ feed := by
        rintro rfl
        exact hends hother
      exact (h.drop_other hne).congr halike

/-- A run that does not end the feed hands its reader legal changes only. -/
theorem run (h : s.Serves feed name query held) (hs : s.Consistent)
    (operations : List StoreOperation)
    (hlive : ∀ operation ∈ operations, ¬ operation.Ends feed) :
    ∃ next, Replays query.limit held (s.polled feed operations) next ∧
      (s.run operations).Serves feed name query next := by
  induction operations generalizing s held with
  | nil => exact ⟨held, .nil h.room, h⟩
  | cons operation rest ih =>
      rw [polled_cons, run_cons]
      obtain ⟨next, hfirst, hnext⟩ := h.step hs operation (hlive _ List.mem_cons_self)
      obtain ⟨final, hrest, hfinal⟩ := ih hnext (hs.step operation)
        fun other hother => hlive other (List.mem_cons_of_mem _ hother)
      exact ⟨final, hfirst.append hrest, hfinal⟩

end Serves

/-! ## Feeds are faithful -/

/-- A strict reader that begins with nothing and takes the polled changes of a feed in
order, as long as the feed is not ended, meets legal changes only, never holds more than
the limit, and with nothing queued holds just what the query finds at that moment. -/
theorem polled_faithful (before after : List StoreOperation) (name : String) (query : Query)
    (feed : FeedId) (s : Store)
    (hopen : (empty.run before).observe name query = .ok (feed, s))
    (hlive : ∀ operation ∈ after, ¬ operation.Ends feed) :
    ∃ held, replay? [] (s.polled feed after) = some held ∧
      (∀ earlier, earlier <+: s.polled feed after →
        ∃ view, replay? [] earlier = some view ∧ view.length ≤ query.limit) ∧
      ((s.run after).pending feed = [] →
        ∃ documents, (s.run after).find name query = .ok documents ∧
          List.Forall₂ (fun entry document =>
            idOf? document = some entry.1 ∧ entry.2.same document = true) held documents) := by
  have hs := consistent_empty.run before
  have hopened : s.Consistent := by
    have := hs.step (.observe name query)
    rwa [step, hopen] at this
  have hserves : s.Serves feed name query [] := Serves.opened hs hopen
  obtain ⟨held, hreplays, hafter⟩ := hserves.run hopened after hlive
  refine ⟨held, hreplays.replay?_eq, ?_, ?_⟩
  · intro earlier hearlier
    obtain ⟨view, hview⟩ := hreplays.of_prefix hearlier
    exact ⟨view, hview.replay?_eq, hview.length_le⟩
  · intro hpending
    obtain ⟨results, hfind, hagree, hids⟩ := hafter.settled (hopened.run after) hpending
    refine ⟨results.map Prod.snd, hfind, ?_⟩
    rw [List.forall₂_map_right_iff]
    clear hfind hreplays hafter
    induction hagree with
    | nil => exact .nil
    | cons hfirst _ ih =>
        refine .cons ⟨?_, hfirst.2⟩ (ih fun entry h => hids entry (List.mem_cons_of_mem _ h))
        rw [hids _ List.mem_cons_self, hfirst.1]

/-- A document of an id and nothing else. -/
def bare (id : String) : Json := .object [(idKey, .string id)]

/-- A run after which a document is to be seen. -/
def stocking : List StoreOperation := [.create "A", .insert "A" (bare "a")]

/-- A run in which one document takes the place of another, with polls in between. -/
def exchange : List StoreOperation :=
  [.poll 0, .insert "A" (bare "b"), .remove "A" (.plain "a"), .poll 0, .poll 0]

/-- A reader with room for one document sees the exchange. -/
theorem polled_faithful_exchange :
    ∃ s held documents, (empty.run stocking).observe "A" (.all 1) = .ok (0, s) ∧
      (∀ operation ∈ exchange, ¬ operation.Ends 0) ∧
      (s.run exchange).pending 0 = [] ∧
      replay? [] (s.polled 0 exchange) = some held ∧
      (s.run exchange).find "A" (.all 1) = .ok documents ∧
      List.Forall₂ (fun entry document =>
        idOf? document = some entry.1 ∧ entry.2.same document = true) held documents := by
  have hopen : (empty.run stocking).observe "A" (.all 1) =
      .ok (0, (empty.run stocking).step (.observe "A" (.all 1))) := rfl
  have hlive : ∀ operation ∈ exchange, ¬ operation.Ends 0 := by decide
  have hpending : (((empty.run stocking).step (.observe "A" (.all 1))).run exchange).pending 0 =
      [] := by decide +kernel
  obtain ⟨held, hreplay, _, hsettled⟩ :=
    polled_faithful stocking exchange "A" (.all 1) 0 _ hopen hlive
  obtain ⟨documents, hfind, hsame⟩ := hsettled hpending
  exact ⟨_, held, documents, hopen, hlive, hpending, hreplay, hfind, hsame⟩

end Store

end LiveDocuments
