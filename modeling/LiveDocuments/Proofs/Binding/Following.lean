import LiveDocuments.Proofs.Binding.Echoes
import LiveDocuments.Proofs.Binding.Requeries

/-!
# Bindings to documents follow their context

A binding to a document is given one context after another. Each time it is another instance
the binding lets its live query go and tries to follow the document that its path denotes now;
the path may denote nothing, and the collection may be unknown. However that ends, the binding
offers the cached context of the place it is at (`ContextBinding.Bound`).

The store keeps the live queries of all bindings in one list. Those that a binding opened are
told by the numbers of their feeds, which are not less than the first one that was free when
it was made (`Store.watchesSince`).
-/

namespace LiveDocuments

open Model

/-! ## What live queries watch -/

/-- A live query without what it has found. -/
structure Watch where
  feed : FeedId
  collection : String
  selector : Selector

/-- What a live query watches. -/
def LiveQuery.watch (q : LiveQuery) : Watch := ⟨q.feed, q.collection, q.selector⟩

namespace Store

/-- What is watched through the feeds from a number on. -/
def watchesSince (s : Store) (base : FeedId) : List Watch :=
  (s.live.map LiveQuery.watch).filter fun w => base ≤ w.feed

/-- A write to a store is a write of one collection, or changes nothing that matters. -/
theorem step_write_cases (s : Store) (write : Write) :
    Alike s (s.step write.operation) ∨
      ∃ name documents, s.step write.operation = s.write name documents := by
  rcases step_cases s write.operation with
    halike | ⟨name, documents, hstep, -⟩ | ⟨_, _, _, hother, -⟩ | ⟨_, hother, -⟩ | ⟨_, hother, -⟩
  · exact .inl halike
  · exact .inr ⟨name, documents, hstep⟩
  all_goals cases write <;> cases hother

variable {s : Store} {base : FeedId}

theorem watchesSince_map {next : Store} {f : LiveQuery → LiveQuery}
    (hlive : next.live = s.live.map f) (hf : ∀ q, (f q).watch = q.watch) (base : FeedId) :
    next.watchesSince base = s.watchesSince base := by
  rw [watchesSince, hlive, List.map_map]
  exact congrArg (List.filter _) (List.map_congr_left fun q _ => hf q)

theorem watchesSince_write (s : Store) (write : Write) (base : FeedId) :
    (s.step write.operation).watchesSince base = s.watchesSince base := by
  rcases s.step_write_cases write with halike | ⟨name, documents, hstep⟩
  · rw [watchesSince, halike.live]
    rfl
  · rw [hstep]
    refine watchesSince_map (s := s) rfl (fun q => ?_) base
    split <;> rfl

theorem watchesSince_requeue (s : Store) (feed : FeedId)
    (f : List ChangeEvent → List ChangeEvent) (base : FeedId) :
    (s.requeue feed f).watchesSince base = s.watchesSince base := by
  refine watchesSince_map (s := s) rfl (fun q => ?_) base
  split <;> rfl

theorem watchesSince_stop (s : Store) (feed base : FeedId) :
    (s.stop feed).watchesSince base =
      (s.watchesSince base).filter fun w => w.feed ≠ feed := by
  rw [watchesSince, live_stop, watchesSince, List.filter_filter, drop, List.filter_map,
    List.filter_map, List.filter_filter]
  simp only [Function.comp_def, LiveQuery.watch, Bool.and_comm]
  rfl

theorem watchesSince_stopAll {feeds : List FeedId}
    (h : ∀ w ∈ s.watchesSince base, w.feed ∈ feeds) : (s.stopAll feeds).watchesSince base = [] := by
  induction feeds generalizing s with
  | nil => exact List.eq_nil_iff_forall_not_mem.mpr fun w hw => List.not_mem_nil (h w hw)
  | cons feed rest ih =>
      refine ih fun w hw => ?_
      rw [watchesSince_stop, List.mem_filter] at hw
      exact (List.mem_cons.mp (h w hw.1)).resolve_left (by simpa using hw.2)

theorem watchesSince_opening {q : LiveQuery} (h : base ≤ q.feed) (s : Store) :
    (s.opening q).watchesSince base = s.watchesSince base ++ [q.watch] := by
  have hkept : [q.watch].filter (fun w => base ≤ w.feed) = [q.watch] := by
    simpa [LiveQuery.watch] using h
  rw [watchesSince, opening, List.map_append, List.filter_append, List.map_singleton, hkept]
  rfl

theorem nextFeed_stopAll (s : Store) (feeds : List FeedId) :
    (s.stopAll feeds).nextFeed = s.nextFeed := by
  induction feeds generalizing s with
  | nil => rfl
  | cons feed rest ih =>
      refine (ih (s.stop feed)).trans ?_
      unfold stop
      split <;> rfl

end Store

/-! ## The part that follows a query -/

/-- What a path is bound to under a context: the components of what it denotes, if the model
knows their collection. -/
def Model.target? (m : Model) (path : String) (context : Option Context) : Option Components :=
  match m.componentsOf path context with
  | .ok c => if m.store.hasCollection c.collection then some c else none
  | .error _ => none

namespace QueryCore

/-- Of the feeds from a number on there is exactly one, which watches the target for this
part, or none if there is no target. -/
def Watches (core : QueryCore) (base : FeedId) (m : Model) : Option Components → Prop
  | some c => ∃ subscription selector,
      core.subscription? = some subscription ∧
      Selector.compile (selectorFor c []).value = .ok selector ∧
      m.store.watchesSince base = [⟨subscription.feed, c.collection, selector⟩]
  | none => core.subscription? = none ∧ m.store.watchesSince base = []

variable {core : QueryCore} {m n : Model} {base : FeedId} {target : Option Components}

theorem Watches.own (h : core.Watches base m target) :
    ∀ w ∈ m.store.watchesSince base, w.feed ∈ core.sync.feeds := by
  intro w hw
  cases target with
  | none =>
      rw [h.2] at hw
      exact absurd hw List.not_mem_nil
  | some c =>
      obtain ⟨subscription, selector, hsubscription, -, hwatches⟩ := h
      rw [hwatches] at hw
      obtain rfl := List.mem_singleton.mp hw
      rw [Synchronizer.feeds, show core.sync.subscription? = _ from hsubscription]
      exact List.mem_singleton_self _

theorem Watches.congr (h : core.Watches base m target) {other : QueryCore}
    (hsubscription : other.subscription? = core.subscription?)
    (hwatches : n.store.watchesSince base = m.store.watchesSince base) :
    other.Watches base n target := by
  cases target with
  | none => exact ⟨hsubscription.trans h.1, hwatches.trans h.2⟩
  | some c =>
      obtain ⟨subscription, selector, hfollowed, hselector, hheld⟩ := h
      exact ⟨subscription, selector, hsubscription.trans hfollowed, hselector,
        hwatches.trans hheld⟩

theorem store_process (core : QueryCore) (m : Model) (base : FeedId) :
    (core.process m).2.2.store.watchesSince base = m.store.watchesSince base ∧
      (core.process m).2.2.store.nextFeed = m.store.nextFeed := by
  cases hsubscription : core.subscription? with
  | none => simp only [process, hsubscription, and_self]
  | some subscription =>
      simp only [process, hsubscription]
      rw [(onlyRaises_dispatch core.id _ _).store_eq]
      exact ⟨m.store.watchesSince_requeue subscription.feed (fun _ => []) base, rfl⟩

theorem contexts_process (hmode : core.sync.mode = .single) (m : Model) :
    (core.process m).2.2.contexts = m.contexts := by
  have hnone : core.awaited m = [] := by
    simp [awaited, hmode, List.flatMap_eq_nil_iff, Synchronizer.requested]
  have hdraws := (core.supplies_process m).draws
  rwa [hnone] at hdraws

theorem contexts_run (hmode : core.sync.mode = .single) (hinUse : core.isDestroyed = false)
    (m : Model) (c : Components) (sorters : List Sorter) (filters : List Filter) :
    (core.run m c sorters filters).2.contexts = m.contexts := by
  have hsubscribe := (core.asking m).contexts_subscribe c sorters filters core.id
  have hasking : (core.asking m).contexts = m.contexts := rfl
  rw [run_of_inUse hinUse]
  split
  · next cursor subscription n heq =>
      rw [heq] at hsubscribe
      let attached : QueryCore :=
        ⟨core.id, ⟨core.sync.mode, .subscribed subscription, []⟩, some cursor⟩
      have hattached : attached.sync.mode = .single := hmode
      exact (contexts_process hattached n).trans (hsubscribe.trans hasking)
  · next e n heq =>
      rw [heq] at hsubscribe
      exact (onlyRaises_fail core.id n e).contexts_eq.trans (hsubscribe.trans hasking)

theorem clear_of_inUse (hinUse : core.isDestroyed = false) (m : Model) :
    core.clear m = (⟨core.id, ⟨core.sync.mode, .idle, []⟩, none⟩, core.asking m) := by
  simp only [clear, reset, begin_of_inUse hinUse]
  rfl

theorem isDestroyed_process (core : QueryCore) (m : Model) :
    (core.process m).2.1.isDestroyed = core.isDestroyed :=
  congrArg Follower.destroyed (core.rests_process m).2

theorem store_asking (hown : ∀ w ∈ m.store.watchesSince base, w.feed ∈ core.sync.feeds) :
    (core.asking m).store.watchesSince base = [] ∧
      (core.asking m).store.nextFeed = m.store.nextFeed :=
  ⟨Store.watchesSince_stopAll hown, m.store.nextFeed_stopAll core.sync.feeds⟩

/-- A document or a whole collection that is asked for is watched if the collection is
known. -/
theorem watches_run (hinUse : core.isDestroyed = false) (halive : m.destroyed = false)
    (hwilling : m.backend.observeRefusal = none) (hbase : base ≤ m.store.nextFeed)
    (hown : ∀ w ∈ m.store.watchesSince base, w.feed ∈ core.sync.feeds) (c : Components) :
    base ≤ (core.run m c [] []).2.store.nextFeed ∧
      (core.run m c [] []).1.Watches base (core.run m c [] []).2
        (if m.store.hasCollection c.collection then some c else none) := by
  obtain ⟨hnone, hnext⟩ := store_asking hown
  have hgrants : (core.asking m).grants c [] [] = m.store.hasCollection c.collection := by
    rw [(core.keeps_asking m).grants_eq, grants, halive, hwilling]
    obtain ⟨-, selector, hselector⟩ := compileQuery_nil c m.config.sizeLimit
    rw [hselector]
    simp [Except.isOk, Except.toBool]
  rw [run_of_inUse hinUse]
  cases hcollection : m.store.hasCollection c.collection with
  | true =>
      obtain ⟨cursor, subscription, n, heq, -⟩ :=
        subscribe_of_grants (hgrants.trans hcollection) core.id
      obtain ⟨selector, hselector, hfeed, hstore⟩ := store_of_subscribe heq
      rw [selector_compileQuery] at hselector
      rw [heq]
      let attached : QueryCore :=
        ⟨core.id, ⟨core.sync.mode, .subscribed subscription, []⟩, some cursor⟩
      obtain ⟨hwatches, hlast⟩ := attached.store_process n base
      have hopened : n.store.watchesSince base = [⟨subscription.feed, c.collection, selector⟩] := by
        have hfirst : base ≤ (core.asking m).store.nextFeed := hnext ▸ hbase
        rw [hstore, Store.watchesSince_opening hfirst, hnone, hfeed]
        rfl
      refine ⟨?_, subscription, selector, (attached.query_process n).2, hselector,
        hwatches.trans hopened⟩
      rw [hlast, hstore]
      exact Nat.le_succ_of_le (hnext ▸ hbase)
  | false =>
      obtain ⟨e, n, heq, -⟩ := subscribe_of_not_grants (hgrants.trans hcollection) core.id
      have hstore : (fail core.id n e).store = (core.asking m).store :=
        (onlyRaises_fail core.id n e).store_eq.trans (store_of_subscribe_error heq)
      rw [heq]
      refine ⟨?_, rfl, ?_⟩
      · rw [hstore, hnext]
        exact hbase
      · rw [hstore]
        exact hnone

end QueryCore

/-! ## Bindings under changing contexts -/

/-- What may happen to a binding to a document and to the store it reads. -/
inductive ContextAction where
  | write (write : Write)
  | setContext (context : Option Context)
  | refresh (force : Bool)
  | announce
  | process

namespace ContextBinding

/-- The binding and its model after an action. -/
def act (view : ContextBinding × Model) : ContextAction → ContextBinding × Model
  | .write write => (view.1, view.2.withStore (view.2.store.step write.operation))
  | .setContext context => view.1.setContext view.2 context
  | .refresh force => view.1.refresh view.2 force
  | .announce => view.1.announce view.2
  | .process => (view.1.process view.2).2

/-- The binding and its model after several actions. -/
def actAll (view : ContextBinding × Model) (actions : List ContextAction) :
    ContextBinding × Model := actions.foldl act view

/-- What a binding is bound to after an action, if it was bound to the target before: only
another instance of its context binds it anew. -/
def rebound (view : ContextBinding × Model) (target : Option Components) :
    ContextAction → Option Components
  | .setContext other =>
      if Context.areSame view.1.context other then target
      else view.2.target? view.1.path other
  | _ => target

/-- What a binding is bound to after several actions. -/
def boundTo : ContextBinding × Model → Option Components → List ContextAction → Option Components
  | _, target, [] => target
  | view, target, action :: rest => boundTo (act view action) (rebound view target action) rest

/-- The binding is in use, it watches its target, and its element comes from the cache. -/
structure Watching (path : String) (base : FeedId) (target : Option Components)
    (view : ContextBinding × Model) : Prop where
  alive : view.2.destroyed = false
  willing : view.2.backend.observeRefusal = none
  consistent : view.2.store.Consistent
  interned : view.2.contexts.IsInterned
  started : base ≤ view.2.store.nextFeed
  path_eq : view.1.path = path
  mode : view.1.core.sync.mode = .single
  inUse : view.1.core.isDestroyed = false
  held : view.1.element ∈ view.2.contexts.entries
  watches : view.1.core.Watches base view.2 target

/-- The binding offers the cached context of its place, too. -/
structure Bound (path : String) (base : FeedId) (target : Option Components)
    (view : ContextBinding × Model) : Prop extends Watching path base target view where
  element : view.2.contexts.get? (view.2.place view.1.path view.1.context) =
    some view.1.element

variable {path : String} {base : FeedId} {target : Option Components}
  {view : ContextBinding × Model} {b : ContextBinding} {m : Model}

/-- Making the element again touches neither the store nor the part that follows the query. -/
theorem renewElement_eq (b : ContextBinding) (m : Model) (force : Bool) :
    (b.renewElement m force).2.store = m.store ∧
      (b.renewElement m force).2.contexts =
        (m.contexts.getOrCreate (m.place b.path b.context)).2 ∧
      (b.renewElement m force).1 = { b with element := (b.renewElement m force).1.element } := by
  simp only [renewElement]
  split <;> exact ⟨rfl, rfl, rfl⟩

theorem element_renewElement (hinterned : m.contexts.IsInterned)
    (hheld : b.element ∈ m.contexts.entries) (force : Bool) :
    (b.renewElement m force).1.element =
      (m.contexts.getOrCreate (m.place b.path b.context)).1 := by
  cases hcond : force || !(m.createContext b.path b.context).1.isSame b.element with
  | true =>
      simp only [renewElement, hcond, if_true]
      rfl
  | false =>
      simp only [renewElement, hcond, Bool.false_eq_true, if_false]
      rw [Bool.or_eq_false_iff, Bool.not_eq_false', Context.isSame, beq_iff_eq] at hcond
      exact (List.inj_on_of_nodup_map (hinterned.getOrCreate _).serials
        (m.contexts.getOrCreate_mem _) ((m.contexts.keeps_entries _).subset hheld)
        hcond.2).symm

theorem Watching.renewElement (h : Watching path base target (b, m)) (force : Bool) :
    Bound path base target (b.renewElement m force) := by
  obtain ⟨hstore, hcontexts, hfst⟩ := b.renewElement_eq m force
  have helement := element_renewElement h.interned h.held force
  have hkeeps := (b.onlyAsks_renewElement m force).keeps
  have hcore := b.core_renewElement m force
  have hplace : (b.renewElement m force).2.place (b.renewElement m force).1.path
      (b.renewElement m force).1.context = m.place b.path b.context := by
    rw [hfst]
    exact place_eq hkeeps.config b.path b.context
  constructor
  · refine ⟨hkeeps.destroyed.trans h.alive, hkeeps.observeRefusal.trans h.willing,
      hkeeps.consistent h.consistent, ?_, ?_, ?_, ?_, ?_, ?_, ?_⟩
    · rw [hcontexts]
      exact h.interned.getOrCreate _
    · rw [hstore]
      exact h.started
    · rw [hfst]
      exact h.path_eq
    · rw [hcore]
      exact h.mode
    · rw [hcore]
      exact h.inUse
    · rw [hcontexts, helement]
      exact m.contexts.getOrCreate_mem _
    · rw [hcore]
      exact h.watches.congr rfl (congrArg (Store.watchesSince · base) hstore)
  · rw [hplace, hcontexts, helement]
    exact ContextCache.get?_getOrCreate_self _ _

theorem Watching.write (h : Watching path base target view) (write : Write) :
    Watching path base target (act view (.write write)) where
  alive := h.alive
  willing := h.willing
  consistent := h.consistent.step write.operation
  interned := h.interned
  started := h.started.trans_eq (view.2.store.write_operation_eq write).2.1.symm
  path_eq := h.path_eq
  mode := h.mode
  inUse := h.inUse
  held := h.held
  watches := h.watches.congr rfl (view.2.store.watchesSince_write write base)

theorem Watching.process (h : Watching path base target view) :
    Watching path base target (act view .process) := by
  obtain ⟨b, m⟩ := view
  have hkeeps := b.core.keeps_process m
  have hcontexts : (b.core.process m).2.2.contexts = m.contexts :=
    QueryCore.contexts_process h.mode m
  obtain ⟨hwatches, hnext⟩ := b.core.store_process m base
  refine ⟨hkeeps.destroyed.trans h.alive, hkeeps.observeRefusal.trans h.willing,
    hkeeps.consistent h.consistent, ?_, h.started.trans_eq hnext.symm, h.path_eq,
    (b.core.mode_process m).trans h.mode, (b.core.isDestroyed_process m).trans h.inUse, ?_,
    h.watches.congr (b.core.query_process m).2 hwatches⟩
  · show (b.core.process m).2.2.contexts.IsInterned
    rw [hcontexts]
    exact h.interned
  · show b.element ∈ (b.core.process m).2.2.contexts.entries
    rw [hcontexts]
    exact h.held

theorem contexts_requery (hmode : b.core.sync.mode = .single) (hinUse : b.core.isDestroyed = false)
    (m : Model) : (b.requery m).2.contexts = m.contexts := by
  cases hcomponents : m.componentsOf b.path b.context with
  | error e =>
      simp only [requery, components, hcomponents]
      rw [QueryCore.clear_of_inUse hinUse]
      rfl
  | ok c =>
      simp only [requery, components, hcomponents]
      exact QueryCore.contexts_run hmode hinUse m c [] []

/-- A query made anew watches what the path denotes now, and nothing else. -/
theorem Watching.requery (h : Watching path base target (b, m)) :
    Watching path base (m.target? path b.context) (b.requery m) := by
  have hkeeps := b.keeps_requery m
  have hcontexts := contexts_requery h.mode h.inUse m
  obtain ⟨hfst, -, hmode⟩ := b.requery_eq m
  have hpath : b.path = path := h.path_eq
  have hcore : base ≤ (b.requery m).2.store.nextFeed ∧ (b.requery m).1.core.isDestroyed = false ∧
      (b.requery m).1.core.Watches base (b.requery m).2 (m.target? path b.context) := by
    rw [← hpath, target?]
    cases hcomponents : m.componentsOf b.path b.context with
    | error e =>
        have hown : ∀ w ∈ (m.report e none).store.watchesSince base, w.feed ∈ b.core.sync.feeds :=
          h.watches.own
        obtain ⟨hnone, hnext⟩ := QueryCore.store_asking hown
        simp only [ContextBinding.requery, components, hcomponents]
        rw [QueryCore.clear_of_inUse h.inUse]
        exact ⟨h.started.trans_eq hnext.symm, rfl, rfl, hnone⟩
    | ok c =>
        obtain ⟨hstarted, hwatches⟩ :=
          QueryCore.watches_run h.inUse h.alive h.willing h.started h.watches.own c
        simp only [ContextBinding.requery, components, hcomponents]
        exact ⟨hstarted, (b.core.isDestroyed_run m c [] []).trans h.inUse, hwatches⟩
  refine ⟨hkeeps.destroyed.trans h.alive, hkeeps.observeRefusal.trans h.willing,
    hkeeps.consistent h.consistent, ?_, hcore.1, ?_, hmode.trans h.mode, hcore.2.1, ?_,
    hcore.2.2⟩
  · rw [hcontexts]
    exact h.interned
  · rw [hfst]
    exact hpath
  · rw [hcontexts, hfst]
    exact h.held

theorem setContext_of_other {other : Option Context} (h : Context.areSame b.context other = false)
    (m : Model) :
    b.setContext m other =
      ({ b with context := other }.requery m).1.renewElement
        ({ b with context := other }.requery m).2 false := by
  rw [setContext, h]
  rfl

/-- Another instance of its context binds it anew, and the element follows. -/
theorem Bound.setContext (h : Bound path base target (b, m)) (other : Option Context) :
    Bound path base (rebound (b, m) target (.setContext other)) (b.setContext m other) := by
  cases hsame : Context.areSame b.context other with
  | true =>
      simp only [ContextBinding.setContext, rebound, hsame, if_true]
      exact h
  | false =>
      have hgiven : Watching path base target ({ b with context := other }, m) :=
        ⟨h.alive, h.willing, h.consistent, h.interned, h.started, h.path_eq, h.mode, h.inUse,
          h.held, h.watches⟩
      have hrebound : rebound (b, m) target (.setContext other) = m.target? path other := by
        rw [rebound, hsame, ← h.path_eq]
        rfl
      rw [hrebound, setContext_of_other hsame]
      exact hgiven.requery.renewElement false

theorem Bound.act (h : Bound path base target view) (action : ContextAction) :
    Bound path base (rebound view target action) (act view action) := by
  cases action with
  | write write => exact ⟨h.toWatching.write write, h.element⟩
  | setContext other => exact h.setContext other
  | refresh force => exact h.toWatching.renewElement force
  | announce => exact h.toWatching.renewElement true
  | process =>
      have hplace := place_eq (view.1.core.keeps_process view.2).config view.1.path view.1.context
      refine ⟨h.toWatching.process, Eq.trans ?_ h.element⟩
      show (view.1.core.process view.2).2.2.contexts.get? _ = _
      rw [QueryCore.contexts_process h.mode]
      exact congrArg view.2.contexts.get? hplace

theorem Bound.actAll (h : Bound path base target view) (actions : List ContextAction) :
    Bound path base (boundTo view target actions) (actAll view actions) := by
  induction actions generalizing view target with
  | nil => exact h
  | cons action rest ih => exact ih (h.act action)

/-- A binding that has not been queried yet, and its model. -/
def unqueried (m : Model) (path : String) (context : Option Context) : ContextBinding × Model :=
  (⟨path, context, (m.createContext path context).1,
      (QueryCore.create (m.createContext path context).2 .single).1⟩,
    (QueryCore.create (m.createContext path context).2 .single).2)

theorem create_of_componentsOf {context : Option Context} {c : Components}
    (hc : m.componentsOf path context = .ok c) :
    create m path context =
      (.ok ((unqueried m path context).1.requery (unqueried m path context).2).1,
        ((unqueried m path context).1.requery (unqueried m path context).2).2) := by
  have hrequery : (unqueried m path context).1.requery (unqueried m path context).2 =
      ({ (unqueried m path context).1 with
          core := ((unqueried m path context).1.core.run
            (unqueried m path context).2 c [] []).1 },
        ((unqueried m path context).1.core.run (unqueried m path context).2 c [] []).2) := by
    have hsame : (unqueried m path context).2.componentsOf (unqueried m path context).1.path
        (unqueried m path context).1.context = .ok c := hc
    simp only [requery, components, hsame]
  simp only [create, components, hc, hrequery]
  rfl

theorem create_eq_ok {n : Model} {context : Option Context}
    (h : create m path context = (.ok b, n)) :
    (unqueried m path context).1.requery (unqueried m path context).2 = (b, n) := by
  cases hc : m.componentsOf path context with
  | error e =>
      simp only [create, components, hc] at h
      cases h
  | ok c =>
      rw [create_of_componentsOf hc] at h
      have hpair := Prod.mk.inj h
      exact Prod.ext (Except.ok.inj hpair.1) hpair.2

/-- A binding that is made is bound to what its path denotes, and to nothing that was there
before. -/
theorem bound_create {n : Model} {context : Option Context} (hconsistent : m.store.Consistent)
    (hinterned : m.contexts.IsInterned) (halive : m.destroyed = false)
    (hwilling : m.backend.observeRefusal = none) (h : create m path context = (.ok b, n)) :
    Bound path m.store.nextFeed (m.target? path context) (b, n) := by
  have hnone : m.store.watchesSince m.store.nextFeed = [] := by
    rw [Store.watchesSince, List.filter_eq_nil_iff]
    intro w hw
    obtain ⟨q, hq, rfl⟩ := List.mem_map.mp hw
    exact fun hle => Nat.not_le.mpr (hconsistent.used q hq) (of_decide_eq_true hle)
  have hfresh : Watching path m.store.nextFeed none (unqueried m path context) :=
    ⟨halive, hwilling, hconsistent, hinterned.getOrCreate _, Nat.le_refl _, rfl, rfl, rfl,
      m.contexts.getOrCreate_mem _, rfl, hnone⟩
  have hcontexts := contexts_requery hfresh.mode hfresh.inUse (unqueried m path context).2
  have hplace := place_eq ((unqueried m path context).1.keeps_requery
    (unqueried m path context).2).config path context
  obtain ⟨hfst, -, -⟩ := (unqueried m path context).1.requery_eq (unqueried m path context).2
  have hrequery : Watching path m.store.nextFeed (m.target? path context)
      ((unqueried m path context).1.requery (unqueried m path context).2) := hfresh.requery
  rw [create_eq_ok h] at hcontexts hplace hfst hrequery
  refine ⟨hrequery, ?_⟩
  rw [show (b, n).1 = _ from hfst, hcontexts]
  show ContextCache.get? _ (n.place path context) = _
  rw [hplace]
  exact ContextCache.get?_getOrCreate_self m.contexts (m.place path context)

/-! ## What is heard of another context -/

/-- A change is announced exactly if the element is another instance afterwards. -/
theorem renewal_eq (b : ContextBinding) (m : Model) :
    b.renewal m false =
      if (b.renewElement m false).1.element.isSame b.element then [] else [.change .change] := by
  cases hcond : (m.createContext b.path b.context).1.isSame b.element with
  | true =>
      have hself : b.element.isSame b.element = true := beq_self_eq_true _
      simp [renewal, renewElement, hcond, hself]
  | false => simp [renewal, renewElement, hcond]

theorem not_mem_events (response : Response) : .change .change ∉ response.events := by
  cases response <;> simp [Response.events]

theorem heardOn_requery (hinUse : b.core.isDestroyed = false) (hm : m.store.Consistent) :
    ∃ raised, (b.requery m).2.heardOn b.core.id = m.heardOn b.core.id ++ raised ∧
      .change .change ∉ raised := by
  cases hcomponents : m.componentsOf b.path b.context with
  | error e =>
      simp only [requery, components, hcomponents]
      rw [QueryCore.clear_of_inUse hinUse]
      refine ⟨[.change .remove], ?_, by simp⟩
      exact (heardOn_emitOn_self _ b.core.id _).trans
        (congrArg (· ++ _) (m.heardOn_emit_model _ b.core.id))
  | ok c =>
      simp only [requery, components, hcomponents]
      refine ⟨_, QueryCore.heardOn_run hinUse hm c [] [], ?_⟩
      simp [not_mem_events]

theorem Watching.heardOn_setContext (h : Watching path base target (b, m))
    (other : Option Context) :
    ∃ raised, (b.setContext m other).2.heardOn b.core.id =
        m.heardOn b.core.id ++ raised ++
          (if (b.setContext m other).1.element.isSame b.element then [] else [.change .change]) ∧
      .change .change ∉ raised := by
  cases hsame : Context.areSame b.context other with
  | true =>
      have hkept : b.setContext m other = (b, m) := by
        rw [setContext, hsame]
        rfl
      have hself : b.element.isSame b.element = true := beq_self_eq_true _
      rw [hkept]
      exact ⟨[], by simp [hself], List.not_mem_nil⟩
  | false =>
      obtain ⟨hfst, hid, -⟩ := { b with context := other }.requery_eq m
      obtain ⟨raised, hraised, hsilent⟩ :=
        heardOn_requery (b := { b with context := other }) h.inUse h.consistent
      have helement : ({ b with context := other }.requery m).1.element = b.element := by
        rw [hfst]
      have hrenew := heardOn_renewElement ({ b with context := other }.requery m).1
        ({ b with context := other }.requery m).2 false
      rw [renewal_eq, helement, hid, hraised] at hrenew
      rw [setContext_of_other hsame]
      exact ⟨raised, hrenew, hsilent⟩

/-- However contexts are given to a binding and whatever is written in between, its element is the
cached context of its place, the root if the path does not resolve. It watches what it was last
bound to through exactly one live query, or through none if that was nothing. And another context
announces a change, as the last event, exactly if the element is another instance afterwards. -/
theorem follows_context (requested : List String) (m n : Model) (path : String)
    (context : Option Context) (b : ContextBinding) (actions : List ContextAction)
    (hstore : m.store.Reachable)
    (hcontexts : m.contexts = (ContextCache.empty.getOrCreateAll requested).2)
    (halive : m.destroyed = false) (hwilling : m.backend.observeRefusal = none)
    (hcreate : create m path context = (.ok b, n)) :
    let last := actAll (b, n) actions
    last.2.contexts.get? ((last.2.resolve path last.1.context).getD "/") = some last.1.element ∧
    last.1.core.Watches m.store.nextFeed last.2
      (boundTo (b, n) (m.target? path context) actions) ∧
    ∀ other, ∃ raised,
      (last.1.setContext last.2 other).2.heardOn last.1.core.id =
        last.2.heardOn last.1.core.id ++ raised ++
          (if (last.1.setContext last.2 other).1.element.isSame last.1.element then []
            else [.change .change]) ∧
      .change .change ∉ raised := by
  intro last
  have hinterned : m.contexts.IsInterned := hcontexts ▸ .getOrCreateAll .empty requested
  have hbound : Bound path m.store.nextFeed (boundTo (b, n) (m.target? path context) actions)
      last := (bound_create hstore.consistent hinterned halive hwilling hcreate).actAll actions
  refine ⟨?_, hbound.watches, hbound.toWatching.heardOn_setContext⟩
  rw [← hbound.element, hbound.path_eq]
  rfl

/-- A binding to a property of a document, and its model. -/
def seated : ContextBinding × Model :=
  (unqueried DocumentList.stocked "size" (some ⟨"/A(a)", 7⟩)).1.requery
    (unqueried DocumentList.stocked "size" (some ⟨"/A(a)", 7⟩)).2

/-- The binding loses its context, and is given a document of a collection that came later. -/
def moves : List ContextAction :=
  [.setContext none, .write (.insert "B" (Store.bare "b")), .setContext (some ⟨"/B(b)", 8⟩),
    .process]

/-- After its moves the binding watches the new document, and to lose it again would be
announced. -/
theorem follows_context_moves :
    (actAll seated moves).2.contexts.get? "/B(b)/size" = some (actAll seated moves).1.element ∧
      (actAll seated moves).1.core.Watches 0 (actAll seated moves).2
        (some ⟨"B", some (.plain "b"), "size"⟩) ∧
      ∃ raised, ((actAll seated moves).1.setContext (actAll seated moves).2 none).2.heardOn
          (actAll seated moves).1.core.id =
        (actAll seated moves).2.heardOn (actAll seated moves).1.core.id ++ raised ++
          [.change .change] := by
  have hcomponents : DocumentList.stocked.componentsOf "size" (some ⟨"/A(a)", 7⟩) =
      .ok ⟨"A", some (.plain "a"), "size"⟩ := by decide +kernel
  have hplace : ((actAll seated moves).2.resolve "size"
      (actAll seated moves).1.context).getD "/" = "/B(b)/size" := by decide +kernel
  have hbound : boundTo seated (DocumentList.stocked.target? "size" (some ⟨"/A(a)", 7⟩)) moves =
      some ⟨"B", some (.plain "b"), "size"⟩ := by decide +kernel
  have hother : ((actAll seated moves).1.setContext (actAll seated moves).2
      none).1.element.isSame (actAll seated moves).1.element = false := by decide +kernel
  have hcreate := create_of_componentsOf hcomponents
  rw [← seated] at hcreate
  -- from here on it does not matter how the binding was made
  generalize seated = made at *
  obtain ⟨b, n⟩ := made
  obtain ⟨helement, hwatches, hchange⟩ := follows_context [] DocumentList.stocked n "size"
    (some ⟨"/A(a)", 7⟩) b moves ⟨Store.stocking, rfl⟩ rfl rfl rfl hcreate
  obtain ⟨raised, hraised, -⟩ := hchange none
  rw [hplace] at helement
  rw [hbound] at hwatches
  rw [hother] at hraised
  exact ⟨helement, hwatches, raised, hraised⟩

end ContextBinding

end LiveDocuments
