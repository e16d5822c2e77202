import LiveDocuments.Proofs.Binding.Feeds

/-!
# How much a list shows

A list of documents takes its documents from a feed that keeps to the size limit of the
model, so it never shows more than that (`DocumentList.Limited`). A list of elements makes a
context for every item it finds, and only a page of no given length is cut down to the limit
(`ElementList.length_getContexts`).
-/

namespace LiveDocuments

open Model

namespace ContextCache

theorem get?_getOrCreateAll {cache : ContextCache} {requested : List String} {path : String}
    {context : Context} (h : cache.get? path = some context) :
    (cache.getOrCreateAll requested).2.get? path = some context := by
  induction requested generalizing cache with
  | nil => exact h
  | cons first rest ih => exact ih (get?_getOrCreate h)

theorem length_getOrCreateAll (cache : ContextCache) (requested : List String) :
    (cache.getOrCreateAll requested).1.length = requested.length := by
  induction requested generalizing cache with
  | nil => rfl
  | cons path rest ih => exact congrArg Nat.succ (ih _)

end ContextCache

theorem length_page (contexts : List Context) (start length : Option Nat) (sizeLimit : Nat) :
    (page contexts start length sizeLimit).length =
      min (length.getD (sizeLimit - start.getD 0)) (contexts.length - start.getD 0) := by
  rw [page, List.length_take, List.length_drop]

theorem length_page_le (contexts : List Context) (start length : Option Nat)
    (sizeLimit : Nat) : (page contexts start length sizeLimit).length ≤ contexts.length := by
  rw [length_page]
  exact (Nat.min_le_right _ _).trans (Nat.sub_le _ _)

theorem Lists.length_eq {collection : String} {cache : ContextCache} {contexts : List Context}
    {held : Results} (h : Lists collection cache contexts held) :
    contexts.length = held.length := by
  have hlength := congrArg List.length h.paths
  rwa [List.length_map, List.length_map, Results.ids, List.length_map] at hlength

variable {m n : Model}

theorem Model.ready_of_grants (hm : m.store.Consistent) {c : Components} {sorters : List Sorter}
    {filters : List Filter} (h : m.grants c sorters filters = true) :
    m.Ready c.collection ∧ ∃ selector, Selector.compile
      (compileQuery c sorters filters m.config.sizeLimit).value.selector = .ok selector := by
  simp only [grants, Bool.and_eq_true, Bool.not_eq_true', Option.isNone_iff_eq_none] at h
  obtain ⟨⟨⟨halive, hcollection⟩, hwilling⟩, hselector⟩ := h
  refine ⟨⟨hm, hcollection, halive, hwilling⟩, ?_⟩
  cases hcompile :
      Selector.compile (compileQuery c sorters filters m.config.sizeLimit).value.selector with
  | ok selector => exact ⟨selector, rfl⟩
  | error fault =>
      rw [hcompile] at hselector
      cases hselector

/-! ## The part that follows a query -/

namespace QueryCore

namespace Tracks

variable {core : QueryCore} {collection : String} {query : Query} {subscription : Subscription}
  {held : Results}

theorem length_le (h : core.Tracks m collection query subscription held) :
    core.sync.contexts.length ≤ query.limit := by
  rw [h.lists.length_eq]
  exact h.serves.room

/-- What others do to their own feeds, and contexts that are made, make no difference. -/
theorem carry (h : core.Tracks m collection query subscription held) {feeds : List FeedId}
    {requested : List String} (hspares : m.Spares feeds n) (hdraws : m.Draws requested n)
    (hapart : subscription.feed ∉ feeds) :
    core.Tracks n collection query subscription held where
  mode := h.mode
  phase := h.phase
  serves := by
    obtain ⟨q, hq, hfeed, hfollows⟩ := h.serves
    exact ⟨q, hspares.live q hq (hfeed ▸ hapart), hfeed, hfollows⟩
  distinct := h.distinct
  lists := by
    refine ⟨h.lists.paths, fun context hcontext => ?_⟩
    rw [show n.contexts = _ from hdraws]
    exact ContextCache.get?_getOrCreateAll (h.lists.cached context hcontext)

theorem length_applyAll_le (h : core.Tracks m collection query subscription held)
    (hm : m.store.Consistent) {events : List ChangeEvent}
    (hevents : events <+: m.store.pending subscription.feed) :
    (core.sync.applyAll m.contexts events).2.1.contexts.length ≤ query.limit := by
  obtain ⟨q, hq, hfeed, hfollows⟩ := h.serves
  obtain ⟨final, hreplays, -⟩ := hfollows.replays
  rw [← hfeed, Store.pending_of_mem hm.feeds hq] at hevents
  obtain ⟨view, hview⟩ := hreplays.of_prefix hevents
  obtain ⟨hlists, -, -⟩ := h.lists.applyAll h.mode h.isDestroyed h.distinct hview
  rw [hlists.length_eq]
  exact hview.length_le

end Tracks

theorem run_of_not_grants {core : QueryCore} (hinUse : core.isDestroyed = false)
    {c : Components} {sorters : List Sorter} {filters : List Filter}
    (h : m.grants c sorters filters = false) :
    (core.run m c sorters filters).1.sync.contexts = [] ∧
      (core.run m c sorters filters).1.subscription? = none := by
  have hgrants := (core.keeps_asking m).grants_eq c sorters filters
  obtain ⟨e, answered, hsubscribe, -⟩ := subscribe_of_not_grants (hgrants.trans h) core.id
  rw [run_of_inUse hinUse, hsubscribe]
  exact ⟨rfl, rfl⟩

end QueryCore

/-! ## Lists of documents -/

namespace DocumentList

/-- A list of documents shows no more than the limit. While the model lives, what it lists
comes from a feed that keeps to the limit. -/
structure Limited (b : DocumentList) (m : Model) : Prop where
  mode : b.core.sync.mode = .documents ("/" ++ b.components.collection)
  size : b.size ≤ m.config.sizeLimit
  tracks : m.destroyed = false → ∀ subscription, b.core.subscription? = some subscription →
    ∃ query held, query.limit = m.config.sizeLimit ∧
      b.core.Tracks m b.components.collection query subscription held

namespace Limited

variable {b : DocumentList}

theorem of_tracks {query : Query} {subscription : Subscription} {held : Results}
    (h : b.core.Tracks m b.components.collection query subscription held)
    (hlimit : query.limit = m.config.sizeLimit) : b.Limited m := by
  refine ⟨h.mode, hlimit ▸ h.length_le, fun _ other hother => ⟨query, held, hlimit, ?_⟩⟩
  obtain rfl := Option.some.inj (h.subscription?_eq.symm.trans hother)
  exact h

theorem length_applyAll_le (h : b.Limited m) (hm : m.store.Consistent)
    (hended : m.destroyed = true → m.store.live = []) {feed : FeedId}
    (hfeed : feed ∈ b.core.sync.feeds) {events : List ChangeEvent}
    (hevents : events <+: m.store.pending feed) :
    (b.core.sync.applyAll m.contexts events).2.1.contexts.length ≤ m.config.sizeLimit := by
  rw [Synchronizer.feeds, Option.mem_toList, Option.map_eq_some_iff] at hfeed
  obtain ⟨subscription, hsubscription, rfl⟩ := hfeed
  cases halive : m.destroyed with
  | false =>
      obtain ⟨query, held, hlimit, htracks⟩ := h.tracks halive subscription hsubscription
      exact hlimit ▸ htracks.length_applyAll_le hm hevents
  | true =>
      rw [Store.pending, hended halive] at hevents
      obtain rfl := List.prefix_nil.mp hevents
      exact h.size

theorem carry (h : b.Limited m) {feeds : List FeedId} {requested : List String}
    (hspares : m.Spares feeds n) (hdraws : m.Draws requested n)
    (hapart : m.destroyed = false → ∀ feed ∈ b.core.follower.feeds, feed ∉ feeds) :
    b.Limited n := by
  refine ⟨h.mode, hspares.config ▸ h.size, fun halive subscription hsubscription => ?_⟩
  rw [hspares.destroyed] at halive
  obtain ⟨query, held, hlimit, htracks⟩ := h.tracks halive subscription hsubscription
  have hfeed : subscription.feed ∈ b.core.follower.feeds := by
    rw [QueryCore.follower, Synchronizer.feeds,
      show b.core.sync.subscription? = _ from hsubscription]
    exact List.mem_singleton_self _
  exact ⟨query, held, hlimit.trans (congrArg Config.sizeLimit hspares.config).symm,
    htracks.carry hspares hdraws (hapart halive _ hfeed)⟩

/-- What is done to the store is queued for the list in changes that keep to the limit, as long
as nobody else takes changes off its feed or ends it. -/
theorem operate (h : b.Limited m) (hm : m.store.Consistent) {operation : StoreOperation}
    (hundisturbed : ∀ subscription, b.core.subscription? = some subscription →
      ¬ operation.Ends subscription.feed ∧ ¬ operation.Polls subscription.feed) :
    b.Limited (m.withStore (m.store.step operation)) := by
  refine ⟨h.mode, h.size, fun halive subscription hsubscription => ?_⟩
  obtain ⟨query, held, hlimit, htracks⟩ := h.tracks halive subscription hsubscription
  obtain ⟨hends, hpolls⟩ := hundisturbed subscription hsubscription
  exact ⟨query, held, hlimit, htracks.step hm operation hends hpolls⟩

theorem requery (h : b.Limited m) (hm : m.store.Consistent) :
    (b.requery m).1.Limited (b.requery m).2 := by
  cases hinUse : b.core.isDestroyed with
  | true =>
      simp only [DocumentList.requery, hinUse, if_true]
      exact h
  | false =>
      have hkeeps := b.core.keeps_run m b.components b.sorters b.filters
      simp only [DocumentList.requery, hinUse, Bool.false_eq_true, if_false]
      cases hgrants : m.grants b.components b.sorters b.filters with
      | true =>
          obtain ⟨hready, selector, hselector⟩ := ready_of_grants hm hgrants
          obtain ⟨subscription, held, htracks, -⟩ :=
            QueryCore.tracks_run hready h.mode hinUse b.sorters b.filters rfl hselector
          refine .of_tracks htracks ?_
          rw [limit_compileQuery, hkeeps.config]
      | false =>
          obtain ⟨hnone, hfree⟩ := QueryCore.run_of_not_grants hinUse hgrants
          refine ⟨(b.core.mode_run m _ _ _).trans h.mode, ?_, fun _ other hother => ?_⟩
          · rw [DocumentList.size, Synchronizer.size, hnone]
            exact Nat.zero_le _
          · rw [hfree] at hother
            cases hother

theorem process (h : b.Limited m) (hm : m.store.Consistent)
    (hended : m.destroyed = true → m.store.live = []) :
    (b.process m).2.1.Limited (b.process m).2.2 := by
  have hkeeps := b.core.keeps_process m
  cases hsubscription : b.core.subscription? with
  | none =>
      simp only [DocumentList.process, QueryCore.process, hsubscription]
      exact h
  | some subscription =>
      cases halive : m.destroyed with
      | false =>
          obtain ⟨query, held, hlimit, htracks⟩ := h.tracks halive subscription hsubscription
          obtain ⟨⟨final, hfinal⟩, -⟩ := htracks.process hm
          exact .of_tracks hfinal (hlimit.trans (congrArg Config.sizeLimit hkeeps.config).symm)
      | true =>
          have hnone : (m.store.drain subscription.feed).1 = [] := by
            rw [Store.drain, Store.pending, hended halive]
            rfl
          have hsize : (b.process m).2.1.size = b.size := by
            simp only [DocumentList.process, QueryCore.process, hsubscription,
              DocumentList.size, hnone]
            rfl
          refine ⟨(b.core.mode_process m).trans h.mode, ?_, fun hnext => ?_⟩
          · rw [hsize, show (b.process m).2.2.config = _ from hkeeps.config]
            exact h.size
          · rw [show (b.process m).2.2.destroyed = _ from hkeeps.destroyed, halive] at hnext
            cases hnext

theorem destroy (h : b.Limited m) : (b.destroy m).1.Limited (b.destroy m).2 := by
  refine ⟨b.core.sync.mode_destroy.trans h.mode, ?_, fun _ subscription hsubscription => ?_⟩
  · refine Nat.le_trans ?_ h.size
    show b.core.sync.destroy.2.contexts.length ≤ b.core.sync.contexts.length
    unfold Synchronizer.destroy
    split
    · exact Nat.le_refl _
    · exact Nat.zero_le _
  · have hinUse := QueryCore.isDestroyed_of_subscription? hsubscription
    rw [show (b.destroy m).1.core.isDestroyed = true from
      b.core.sync.isDestroyed_destroy] at hinUse
    cases hinUse

/-- Whatever is asked of a list of documents, it stays within the limit. -/
theorem act (h : b.Limited m) (hm : m.store.Consistent)
    (hended : m.destroyed = true → m.store.live = []) (request : BindingAction) :
    ∃ next, ((Binding.list (.documents b)).act m request).1 = .list (.documents next) ∧
      next.Limited ((Binding.list (.documents b)).act m request).2 := by
  cases request with
  | process => exact ⟨_, rfl, h.process hm hended⟩
  | refresh force =>
      cases force with
      | true => exact ⟨_, rfl, h.requery hm⟩
      | false =>
          have hspares : m.Spares [] (m.emitOn b.core.id (.change .refresh)) :=
            .of_onlyRaises (.emit m _)
          have hdraws : m.Draws [] (m.emitOn b.core.id (.change .refresh)) := rfl
          exact ⟨_, rfl, h.carry hspares hdraws fun _ _ _ => List.not_mem_nil⟩
  | filter filters =>
      exact ⟨_, rfl, requery (b := { b with filters := filters }) ⟨h.mode, h.size, h.tracks⟩ hm⟩
  | sort sorters =>
      exact ⟨_, rfl, requery (b := { b with sorters := sorters }) ⟨h.mode, h.size, h.tracks⟩ hm⟩
  | destroy => exact ⟨_, rfl, h.destroy⟩
  | _ => exact ⟨_, rfl, h⟩

end Limited

theorem limited_create {path : String} {sorters : List Sorter} {filters : List Filter}
    (hm : m.store.Consistent) {b : DocumentList}
    (h : (create m path sorters filters).1 = .ok b) :
    b.Limited (create m path sorters filters).2 := by
  cases hcomponents : m.componentsOf path none with
  | error e =>
      simp only [create, Model.components, hcomponents] at h
      cases h
  | ok c =>
      have hfresh : (unqueried m path c sorters filters).1.Limited
          (unqueried m path c sorters filters).2 :=
        ⟨rfl, Nat.zero_le _, fun _ _ hsubscription => by cases hsubscription⟩
      rw [create_of_componentsOf hcomponents] at h ⊢
      obtain rfl := Except.ok.inj h
      exact hfresh.requery hm

end DocumentList

/-! ## Lists of elements -/

namespace ElementList

theorem size_create {m : Model} {path : String} {parent : Context} {sorters : List Sorter}
    {filters : List Filter} {b : ElementList}
    (h : (create m path parent sorters filters).1 = .ok b) : b.size = 0 := by
  simp only [create] at h
  split at h
  · cases h
  · split at h <;> cases h <;> rfl

section Asking

variable (b : ElementList) (m : Model) (start length : Option Nat)

theorem size_getContexts : (b.getContexts m start length).2.1.size = (b.items m).length := by
  show (b.materialize m).1.length = _
  rw [(b.materialize_eq m).1, ContextCache.length_getOrCreateAll, itemPaths, List.length_map,
    List.length_range]

theorem length_getContexts :
    (b.getContexts m start length).1.length =
      min (length.getD (m.config.sizeLimit - start.getD 0))
        ((b.items m).length - start.getD 0) := by
  have hconfig : (b.materialize m).2.config = m.config := (b.onlyAsks_materialize m).keeps.config
  have hsize := b.size_getContexts m start length
  show (page (b.materialize m).1 start length (b.materialize m).2.config.sizeLimit).length = _
  rw [length_page, hconfig, show (b.materialize m).1.length = _ from hsize]

theorem length_getContexts_none_le :
    (b.getContexts m start none).1.length ≤ m.config.sizeLimit := by
  rw [length_getContexts]
  exact (Nat.min_le_left _ _).trans (Nat.sub_le _ _)

theorem getContexts_within_iff :
    (∀ start length, (b.getContexts m start length).1.length ≤ m.config.sizeLimit) ↔
      (b.items m).length ≤ m.config.sizeLimit := by
  constructor
  · intro h
    have hwhole := h none (some (b.items m).length)
    rwa [length_getContexts, Option.getD_some, Option.getD_none, Nat.sub_zero,
      Nat.min_self] at hwhole
  · intro h start length
    rw [length_getContexts]
    exact ((Nat.min_le_right _ _).trans (Nat.sub_le _ _)).trans h

end Asking

/-- A list has as many contexts as before or fewer, or as many as it finds items. -/
theorem size_act {b : ElementList} {m : Model} {request : BindingAction} {next : ElementList}
    (h : ((Binding.list (.elements b)).act m request).1 = .list (.elements next)) :
    next.size ≤ b.size ∨ ∃ start length, request = .getContexts start length ∧
      next.size = (b.items m).length := by
  cases request with
  | refresh force =>
      have hsize : (b.refresh m force).1.size = b.size := by
        unfold refresh
        split <;> rfl
      cases h
      exact .inl hsize.le
  | getContexts start length =>
      cases h
      exact .inr ⟨start, length, rfl, b.size_getContexts m start length⟩
  | destroy =>
      cases h
      exact .inl (Nat.zero_le _)
  | _ =>
      cases h
      exact .inl (Nat.le_refl _)

end ElementList

/-! ## All kinds of bindings -/

namespace Binding

theorem documents_of_act {b : Binding} {m : Model} {request : BindingAction}
    {next : DocumentList} (h : (b.act m request).1 = list (.documents next)) :
    ∃ d, b = list (.documents d) := by
  match b with
  | list (.documents d) => exact ⟨d, rfl⟩
  | property b => cases request <;> cases h
  | context b => cases request <;> cases h
  | list (.elements b) => cases request <;> cases h

theorem elements_of_act {b : Binding} {m : Model} {request : BindingAction}
    {next : ElementList} (h : (b.act m request).1 = list (.elements next)) :
    ∃ e, b = list (.elements e) := by
  match b with
  | list (.elements e) => exact ⟨e, rfl⟩
  | property b => cases request <;> cases h
  | context b => cases request <;> cases h
  | list (.documents b) =>
      cases request with
      | refresh force => cases force <;> cases h
      | _ => cases h

/-- If the binding is a list of documents, it shows no more than the limit of its model, now
and when it takes in what waits for it. -/
def Limited (m : Model) (b : Binding) : Prop := ∀ d, b = list (.documents d) → d.Limited m

variable {m n : Model} {b : Binding}

theorem Limited.carry (h : b.Limited m) {feeds : List FeedId} {requested : List String}
    (hspares : m.Spares feeds n) (hdraws : m.Draws requested n)
    (hapart : m.destroyed = false → ∀ feed ∈ b.follower.feeds, feed ∉ feeds) :
    b.Limited n := by
  rintro d rfl
  exact (h d rfl).carry hspares hdraws hapart

theorem Limited.act (h : b.Limited m) (hm : m.store.Consistent)
    (hended : m.destroyed = true → m.store.live = []) (request : BindingAction) :
    (b.act m request).1.Limited (b.act m request).2 := by
  intro next hnext
  obtain ⟨d, rfl⟩ := documents_of_act hnext
  obtain ⟨other, hother, hlimited⟩ := (h d rfl).act hm hended request
  rw [hother] at hnext
  cases hnext
  exact hlimited

theorem Limited.write (h : b.Limited m) (hm : m.store.Consistent) (write : Write) :
    b.Limited (m.withStore (m.store.step write.operation)) := by
  rintro d rfl
  refine (h d rfl).operate hm fun subscription _ => ⟨?_, ?_⟩ <;> cases write <;> exact not_false

theorem Limited.refuse (h : b.Limited m) (find observe : Option String) :
    b.Limited { m with backend :=
      { m.backend with findRefusal := find, observeRefusal := observe } } := by
  rintro d rfl
  obtain ⟨hmode, hsize, htracks⟩ := h d rfl
  refine ⟨hmode, hsize, fun halive subscription hsubscription => ?_⟩
  obtain ⟨query, held, hlimit, hheld⟩ := htracks halive subscription hsubscription
  exact ⟨query, held, hlimit, hheld.mode, hheld.phase, hheld.serves, hheld.distinct,
    hheld.lists⟩

theorem Limited.destroy (h : b.Limited m) : b.Limited m.destroy := by
  rintro d rfl
  have hlimited := h d rfl
  unfold Model.destroy
  split
  · exact hlimited
  · exact ⟨hlimited.mode, hlimited.size, fun halive => by cases halive⟩

end Binding

end LiveDocuments
