import LiveDocuments.Binding.Core
import LiveDocuments.Proofs.Store.Feed
import LiveDocuments.Proofs.Synchronizer.Mirror

/-!
# Following one query

A core that follows a query of a collection is tied to the store by its feed: the view
lists what a strict reader of the feed holds, and the feed serves that reader
(`QueryCore.Tracks`). Processing takes the reader to the end of the queue. A new query
starts a new feed and a new reader, whatever was left of the old ones.
-/

namespace LiveDocuments

open Results

namespace Model

/-! ## Models in working order -/

/-- The model can follow queries of the collection. -/
structure Ready (m : Model) (collection : String) : Prop where
  consistent : m.store.Consistent
  exists_collection : m.store.hasCollection collection = true
  alive : m.destroyed = false
  willing : m.backend.observeRefusal = none

namespace Ready

variable {m n : Model} {collection : String}

theorem of_keeps (h : m.Ready collection) (hn : m.Keeps n) : n.Ready collection where
  consistent := hn.consistent h.consistent
  exists_collection := by
    rw [Store.hasCollection, hn.collections]
    exact h.exists_collection
  alive := hn.destroyed.trans h.alive
  willing := hn.observeRefusal.trans h.willing

theorem step (h : m.Ready collection) (operation : StoreOperation) :
    (m.withStore (m.store.step operation)).Ready collection where
  consistent := h.consistent.step operation
  exists_collection := Store.hasCollection_step h.exists_collection operation
  alive := h.alive
  willing := h.willing

theorem subscribe (h : m.Ready collection) {c : Components} (hc : c.collection = collection)
    (sorters : List Sorter) (filters : List Filter) (binding : BindingId) {query : Query}
    (hquery : (compileQuery c sorters filters m.config.sizeLimit).value = query)
    {selector : Selector} (hselector : Selector.compile query.selector = .ok selector) :
    ∃ feed n, m.subscribe c sorters filters binding =
        (.ok (⟨collection, query⟩, ⟨collection, query, feed⟩), n) ∧
      n.store.Consistent ∧ n.store.Serves feed collection query [] := by
  subst hc
  have hobserve : m.store.observe c.collection query =
      .ok (m.store.nextFeed, m.store.step (.observe c.collection query)) := by
    simp only [Store.step, Store.observe, hselector]
  obtain ⟨emitted, hreport⟩ := OnlyRaises.reportAll m
    (compileQuery c sorters filters m.config.sizeLimit).diagnostics (some binding)
  have hcursor : m.query c sorters filters (some binding) =
      (.ok ⟨c.collection, query⟩, { m with emitted := emitted }) := by
    rw [query_of_known h.alive h.exists_collection, hquery, hreport]
  have hfollowed : m.backend.observe c.collection query =
      (.ok m.store.nextFeed, { m.backend with
        store := m.store.step (.observe c.collection query), asked := m.backend.asked + 1 }) := by
    have hobserve' : m.backend.store.observe c.collection query = _ := hobserve
    simp only [Backend.observe, h.willing, hobserve']
  refine ⟨m.store.nextFeed,
    { m with
      backend := { m.backend with
        store := m.store.step (.observe c.collection query), asked := m.backend.asked + 1 }
      feeds := m.feeds ++ [m.store.nextFeed]
      emitted := emitted },
    ?_, h.consistent.step (.observe c.collection query),
    Store.Serves.opened h.consistent hobserve⟩
  simp only [Model.subscribe, hcursor, hfollowed]

end Ready

end Model

namespace QueryCore

/-! ## A core and its feed -/

theorem onlyRaises_dispatch (id : BindingId) (m : Model) (notifications : List Notification) :
    m.OnlyRaises (dispatch id m notifications) := by
  apply Model.OnlyRaises.foldl
  intro m notification
  cases notification with
  | dataReceived => exact .emit m _
  | change reason => exact .emit m _
  | refreshRequested => exact .refresh m

theorem keeps_process (core : QueryCore) (m : Model) :
    m.Keeps (core.process m).2.2 := by
  cases hsubscription : core.subscription? with
  | none =>
      simp only [process, hsubscription]
      exact .refl m
  | some subscription =>
      simp only [process, hsubscription]
      have hdrain := Model.Keeps.drain m subscription.feed
      refine .trans ?_ (.of_onlyRaises (onlyRaises_dispatch core.id _ _))
      exact ⟨hdrain.collections, hdrain.consistent, rfl, rfl, rfl, rfl⟩

theorem onlyRaises_fail (id : BindingId) (m : Model) (error : BindingError) :
    m.OnlyRaises (fail id m error) := by
  unfold fail
  split
  · exact .refl m
  · exact .refl m
  · exact .refl m
  · exact .emit m _

theorem keeps_run (core : QueryCore) (m : Model) (c : Components) (sorters : List Sorter)
    (filters : List Filter) : m.Keeps (core.run m c sorters filters).2 := by
  have hreset : m.Keeps (core.reset m).2.2 := .stopFeeds m core.sync.begin.2.1
  unfold run
  split
  next notifications fresh n h =>
    rw [h] at hreset
    have hdispatch := hreset.trans
      (.of_onlyRaises (onlyRaises_dispatch fresh.id n notifications))
    have hsubscribe := hdispatch.trans (.subscribe _ c sorters filters fresh.id)
    cases heq : (dispatch fresh.id n notifications).subscribe c sorters filters fresh.id with
    | mk result followed =>
        rw [heq] at hsubscribe
        simp only [heq]
        cases result with
        | error e => exact hsubscribe.trans (.of_onlyRaises (onlyRaises_fail fresh.id followed e))
        | ok found =>
            exact (hsubscribe.trans (.stopFeeds followed _)).trans (keeps_process _ _)

/-- The core lists what a strict reader of its feed holds, and the feed serves that
reader. -/
structure Tracks (core : QueryCore) (m : Model) (collection : String) (query : Query)
    (subscription : Subscription) (held : Results) : Prop where
  mode : core.sync.mode = .documents ("/" ++ collection)
  phase : core.sync.phase = .subscribed subscription
  serves : m.store.Serves subscription.feed collection query held
  distinct : (ids held).Nodup
  lists : Lists collection m.contexts core.sync.contexts held

/-- With nothing queued on its feed the core lists what the query finds. -/
def Mirrors (core : QueryCore) (m : Model) (collection : String) (query : Query) : Prop :=
  ∃ results, m.store.find collection query = .ok (results.map Prod.snd) ∧
    (∀ entry ∈ results, idOf? entry.2 = some entry.1) ∧ (ids results).Nodup ∧
    Lists collection m.contexts core.sync.contexts results

namespace Tracks

variable {core : QueryCore} {m : Model} {collection : String} {query : Query}
  {subscription : Subscription} {held : Results}

theorem isDestroyed (h : core.Tracks m collection query subscription held) :
    core.isDestroyed = false := by
  rw [QueryCore.isDestroyed, Synchronizer.isDestroyed, h.phase]
  rfl

theorem subscription?_eq (h : core.Tracks m collection query subscription held) :
    core.subscription? = some subscription := by
  rw [QueryCore.subscription?, Synchronizer.subscription?, h.phase]
  rfl

/-- A reader of an empty queue holds what the query finds, and so does the core. -/
theorem mirrors (h : core.Tracks m collection query subscription held)
    (hm : m.store.Consistent) (hpending : m.store.pending subscription.feed = []) :
    core.Mirrors m collection query := by
  obtain ⟨results, hfind, hagree, hids⟩ := h.serves.settled hm hpending
  refine ⟨results, hfind, hids, ?_, ?_, h.lists.cached⟩
  · rw [← hagree.ids_eq]
    exact h.distinct
  · rw [← hagree.ids_eq]
    exact h.lists.paths

theorem step (h : core.Tracks m collection query subscription held) (hm : m.store.Consistent)
    (operation : StoreOperation) (hends : ¬ operation.Ends subscription.feed)
    (hpolls : ¬ operation.Polls subscription.feed) :
    core.Tracks (m.withStore (m.store.step operation)) collection query subscription held := by
  obtain ⟨next, hreplays, hserves⟩ := h.serves.step hm operation hends
  rw [if_neg hpolls] at hreplays
  obtain rfl := hreplays.of_nil
  exact ⟨h.mode, h.phase, hserves, h.distinct, h.lists⟩

theorem process (h : core.Tracks m collection query subscription held)
    (hm : m.store.Consistent) :
    (∃ final, (core.process m).2.1.Tracks (core.process m).2.2 collection query subscription
      final) ∧ (core.process m).2.2.store.pending subscription.feed = [] := by
  obtain ⟨final, hreplays, hserves, hpending⟩ := h.serves.drain hm
  obtain ⟨hlists, hmode, hphase⟩ :=
    h.lists.applyAll h.mode h.isDestroyed h.distinct hreplays
  obtain ⟨emitted, hdispatch⟩ := onlyRaises_dispatch core.id
    { m.withStore (m.store.drain subscription.feed).2 with
      contexts := (core.sync.applyAll m.contexts (m.store.drain subscription.feed).1).2.2 }
    (core.sync.applyAll m.contexts (m.store.drain subscription.feed).1).1
  simp only [QueryCore.process, h.subscription?_eq]
  have hcontexts : (m.withStore (m.store.drain subscription.feed).2).contexts = m.contexts := rfl
  rw [hcontexts, hdispatch]
  refine ⟨⟨final, ?_, ?_, hserves, hreplays.nodup h.distinct, hlists⟩, hpending⟩
  · rw [hmode, h.mode]
  · rw [hphase, h.phase]

end Tracks

/-- The model that a view in use asks for its new query: the old one is stopped, and the
listeners know that its documents are gone. -/
def asking (core : QueryCore) (m : Model) : Model :=
  (m.stopFeeds core.sync.feeds).emitOn core.id (.change .remove)

theorem keeps_asking (core : QueryCore) (m : Model) : m.Keeps (core.asking m) :=
  (Model.Keeps.stopFeeds m core.sync.feeds).trans (.of_onlyRaises (.emit _ _))

theorem begin_of_inUse {core : QueryCore} (hinUse : core.isDestroyed = false) :
    core.sync.begin = ([.change .remove], core.sync.feeds,
      { core.sync with phase := .querying, contexts := [] }) := by
  rw [Synchronizer.begin, ← QueryCore.isDestroyed, hinUse]
  rfl

/-- A new query of a view that is in use: an empty view follows what is granted, or nothing. -/
theorem run_of_inUse {core : QueryCore} (hinUse : core.isDestroyed = false) (m : Model)
    (c : Components) (sorters : List Sorter) (filters : List Filter) :
    core.run m c sorters filters =
      match (core.asking m).subscribe c sorters filters core.id with
      | (.ok (cursor, subscription), n) =>
          (process ⟨core.id, ⟨core.sync.mode, .subscribed subscription, []⟩, some cursor⟩ n).2
      | (.error e, n) => (⟨core.id, ⟨core.sync.mode, .idle, []⟩, none⟩, fail core.id n e) := by
  have hasking : dispatch core.id (m.stopFeeds core.sync.feeds) [.change .remove] =
      core.asking m := rfl
  simp only [run, reset, begin_of_inUse hinUse, hasking]
  rcases (core.asking m).subscribe c sorters filters core.id with ⟨_ | _, _⟩ <;> rfl

/-- A new query is tracked from its first results on, whatever was followed before. -/
theorem tracks_run {core : QueryCore} {m : Model} {c : Components}
    (hm : m.Ready c.collection) (hmode : core.sync.mode = .documents ("/" ++ c.collection))
    (hphase : core.isDestroyed = false) (sorters : List Sorter) (filters : List Filter)
    {query : Query} (hquery : (compileQuery c sorters filters m.config.sizeLimit).value = query)
    {selector : Selector} (hselector : Selector.compile query.selector = .ok selector) :
    ∃ subscription final,
      (core.run m c sorters filters).1.Tracks (core.run m c sorters filters).2 c.collection query
        subscription final ∧
      (core.run m c sorters filters).2.store.pending subscription.feed = [] := by
  have hkept := core.keeps_asking m
  obtain ⟨feed, n, hsubscribe, hn, hserves⟩ :=
    (hm.of_keeps hkept).subscribe rfl sorters filters core.id (hkept.config ▸ hquery) hselector
  have hfresh : Tracks ⟨core.id, ⟨core.sync.mode, .subscribed ⟨c.collection, query, feed⟩, []⟩,
      some ⟨c.collection, query⟩⟩ n c.collection query ⟨c.collection, query, feed⟩ [] :=
    ⟨hmode, rfl, hserves, List.nodup_nil, Lists.empty c.collection n.contexts⟩
  obtain ⟨⟨final, htracks⟩, hpending⟩ := hfresh.process hn
  simp only [run_of_inUse hphase, hsubscribe]
  exact ⟨_, final, htracks, hpending⟩

end QueryCore

end LiveDocuments
