import LiveDocuments.Proofs.Binding.Acting
import LiveDocuments.Proofs.Model.Instances

/-!
# The contexts that bindings get

A list of documents asks for the context of each document that its feed adds, and for nothing
else; a list of elements asks for those of the items it finds; a binding to a document asks
for its own place, and a binding to a value for the documents on the way to it. What a
binding shows and hands out all comes from the cache of the model (`Binding.supplies_act`).
-/

namespace LiveDocuments

open Model

/-! ## Views -/

namespace Synchronizer

/-- The paths that a view asks for on account of a change: a list of documents asks for a
document that is added. -/
def requested : SyncMode → ChangeEvent → List String
  | .documents base, .added id _ _ => [documentPath base id]
  | _, _ => []

theorem supplies_apply {s : Synchronizer} (h : s.isDestroyed = false) (m : Model)
    (event : ChangeEvent) :
    m.Supplies (requested s.mode event) s.contexts (s.apply m.contexts event).2.1.contexts
      { m with contexts := (s.apply m.contexts event).2.2 } := by
  have hsame : m.Supplies [] s.contexts s.contexts m := .of_eq rfl (List.Subset.refl _)
  simp only [apply, h, Bool.false_eq_true, if_false]
  cases event with
  | added id fields next =>
      cases hmode : s.mode with
      | documents base =>
          have hnew := (Supplies.contextFor m (documentPath base id)).frame s.contexts
          rw [List.append_nil] at hnew
          refine hnew.rest rfl fun context hcontext => ?_
          rcases mem_insertBefore hcontext with rfl | hold
          · exact List.mem_append_right _ (List.mem_singleton_self _)
          · exact List.mem_append_left _ hold
      | elements => exact hsame
      | single => exact hsame
  | changed id fields => cases s.mode <;> exact hsame
  | removed id =>
      cases hmode : s.mode with
      | documents base => exact .of_eq rfl fun _ => mem_of_mem_eraseFirst
      | elements => exact hsame
      | single => exact hsame

theorem supplies_applyAll {s : Synchronizer} (h : s.isDestroyed = false) (m : Model)
    (events : List ChangeEvent) :
    m.Supplies (events.flatMap (requested s.mode)) s.contexts
      (s.applyAll m.contexts events).2.1.contexts
      { m with contexts := (s.applyAll m.contexts events).2.2 } := by
  induction events generalizing s m with
  | nil => exact .of_eq rfl (List.Subset.refl _)
  | cons event rest ih =>
      have hnext : (s.apply m.contexts event).2.1.isDestroyed = false := by
        rw [isDestroyed, phase_apply]
        exact h
      have hrest := ih hnext { m with contexts := (s.apply m.contexts event).2.2 }
      rw [mode_apply] at hrest
      exact (supplies_apply h m event).trans hrest

end Synchronizer

/-! ## The part that follows a query -/

namespace Model

variable {m n : Model}

/-- The documents that a query finds as it is issued, if it is granted. -/
def found (m : Model) (c : Components) (sorters : List Sorter) (filters : List Filter) :
    Results :=
  let query := (compileQuery c sorters filters m.config.sizeLimit).value
  if m.grants c sorters filters then
    match Selector.compile query.selector with
    | .ok selector => (m.store.opened c.collection query selector).results
    | .error _ => []
  else []

theorem found_of_not_grants {c : Components} {sorters : List Sorter} {filters : List Filter}
    (h : m.grants c sorters filters = false) : m.found c sorters filters = [] := by
  simp only [found, h, Bool.false_eq_true, if_false]

theorem Keeps.found_eq (h : m.Keeps n) (c : Components) (sorters : List Sorter)
    (filters : List Filter) : n.found c sorters filters = m.found c sorters filters := by
  simp only [found, Store.opened, Store.documents, h.grants_eq, h.collections, h.config]

theorem pending_of_subscribe (hsound : m.ledger.Sound) {c : Components} {sorters : List Sorter}
    {filters : List Filter} {binding : BindingId} {cursor : Cursor}
    {subscription : Subscription}
    (h : m.subscribe c sorters filters binding = (.ok (cursor, subscription), n)) :
    n.store.pending subscription.feed =
      (m.found c sorters filters).map fun r => .added r.1 r.2 none := by
  obtain ⟨selector, hselector, hfeed, hstore⟩ := store_of_subscribe h
  have hgrants : m.grants c sorters filters = true := by
    by_contra hnot
    obtain ⟨e, failed, hfailed, -⟩ :=
      subscribe_of_not_grants (Bool.eq_false_iff.mpr hnot) binding
    rw [hfailed] at h
    cases h
  rw [hstore, hfeed, Store.pending_opening hsound.used]
  simp only [found, hgrants, if_true, hselector]

theorem found_of_subscribe_error {c : Components} {sorters : List Sorter}
    {filters : List Filter} {binding : BindingId} {e : BindingError}
    (h : m.subscribe c sorters filters binding = (.error e, n)) :
    m.found c sorters filters = [] := by
  refine found_of_not_grants (Bool.eq_false_iff.mpr fun hgrants => ?_)
  obtain ⟨cursor, subscription, followed, hfollowed, -⟩ := subscribe_of_grants hgrants binding
  rw [hfollowed] at h
  cases h

theorem contexts_subscribe (m : Model) (c : Components) (sorters : List Sorter)
    (filters : List Filter) (binding : BindingId) :
    (m.subscribe c sorters filters binding).2.contexts = m.contexts := by
  have hquery := (OnlyRaises.query m c sorters filters (some binding)).contexts_eq
  unfold subscribe
  split
  · next heq =>
      rw [heq] at hquery
      exact hquery
  · next heq =>
      rw [heq] at hquery
      split <;> exact hquery

end Model

namespace QueryCore

variable {m : Model}

/-- The paths of the documents that wait to be listed. -/
def awaited (core : QueryCore) (m : Model) : List String :=
  core.follower.feeds.flatMap fun feed =>
    (m.store.pending feed).flatMap (Synchronizer.requested core.sync.mode)

/-- The paths of the documents that a new query will list. -/
def sought (core : QueryCore) (m : Model) (c : Components) (sorters : List Sorter)
    (filters : List Filter) : List String :=
  if core.isDestroyed then []
  else (m.found c sorters filters).flatMap fun r =>
    Synchronizer.requested core.sync.mode (.added r.1 r.2 none)

theorem sought_eq_nil {core : QueryCore} (h : ∀ base, core.sync.mode ≠ .documents base)
    (m : Model) (c : Components) (sorters : List Sorter) (filters : List Filter) :
    core.sought m c sorters filters = [] := by
  unfold sought
  split
  · rfl
  · refine List.flatMap_eq_nil_iff.mpr fun r _ => ?_
    cases hmode : core.sync.mode with
    | documents base => exact absurd hmode (h base)
    | elements => rfl
    | single => rfl

theorem supplies_process (core : QueryCore) (m : Model) :
    m.Supplies (core.awaited m) core.sync.contexts (core.process m).2.1.sync.contexts
      (core.process m).2.2 := by
  cases hsubscription : core.subscription? with
  | none =>
      have hnone : core.awaited m = [] := by
        rw [awaited, follower, Synchronizer.feeds, show core.sync.subscription? = none from
          hsubscription]
        rfl
      rw [hnone, process, hsubscription]
      exact .of_eq rfl (List.Subset.refl _)
  | some subscription =>
      have hone : core.awaited m = (m.store.pending subscription.feed).flatMap
          (Synchronizer.requested core.sync.mode) := by
        rw [awaited, follower, Synchronizer.feeds, show core.sync.subscription? = _ from
          hsubscription]
        exact List.append_nil _
      have hinUse : core.sync.isDestroyed = false := isDestroyed_of_subscription? hsubscription
      have happlied := Synchronizer.supplies_applyAll hinUse
        (m.withStore (m.store.drain subscription.feed).2) (m.store.pending subscription.feed)
      have hdrained : (m.withStore (m.store.drain subscription.feed).2).contexts =
          m.contexts := rfl
      rw [hone]
      simp only [process, hsubscription]
      exact (happlied.start hdrained (List.Subset.refl _)).rest
        (onlyRaises_dispatch core.id _ _).contexts_eq (List.Subset.refl _)

theorem contexts_reset_subset (core : QueryCore) (m : Model) :
    (core.reset m).2.1.sync.contexts ⊆ core.sync.contexts := by
  simp only [reset, Synchronizer.begin]
  split
  · exact List.Subset.refl _
  · exact List.nil_subset _

theorem contexts_attach (s : Synchronizer) (subscription : Subscription) :
    (s.attach subscription).2.contexts = s.contexts := by
  unfold Synchronizer.attach
  split <;> rfl

theorem contexts_abandon (s : Synchronizer) : s.abandon.contexts = s.contexts := by
  unfold Synchronizer.abandon
  split <;> rfl

theorem supplies_run (core : QueryCore) (hsound : m.ledger.Sound) (c : Components)
    (sorters : List Sorter) (filters : List Filter) :
    m.Supplies (core.sought m c sorters filters) core.sync.contexts
      (core.run m c sorters filters).1.sync.contexts
      (core.run m c sorters filters).2 := by
  obtain ⟨hstopped, hfresh, -⟩ := core.reset_eq m
  have hmode := core.mode_reset m
  have hcontexts := core.contexts_reset_subset m
  unfold run
  split
  next notifications fresh o hreset =>
  rw [hreset] at hstopped hfresh hmode hcontexts
  obtain rfl := hstopped
  have hraised := onlyRaises_dispatch fresh.id (m.stopFeeds core.follower.feeds) notifications
  have hcache : (dispatch fresh.id (m.stopFeeds core.follower.feeds) notifications).contexts =
      m.contexts := hraised.contexts_eq
  have hfound := ((Keeps.stopFeeds m core.follower.feeds).trans
    (.of_onlyRaises hraised)).found_eq c sorters filters
  have hasking : (dispatch fresh.id (m.stopFeeds core.follower.feeds)
      notifications).ledger.Sound := by
    rw [hraised.ledger_eq, ledger_stopFeeds]
    exact hsound.stopAll core.follower.feeds
  generalize dispatch fresh.id (m.stopFeeds core.follower.feeds) notifications = asking at *
  have hsubscribe := asking.contexts_subscribe c sorters filters fresh.id
  dsimp only
  split
  · next cursor subscription followed heq =>
      rw [heq] at hsubscribe
      have hpending := pending_of_subscribe hasking heq
      let attached : QueryCore := ⟨fresh.id, (fresh.sync.attach subscription).2, some cursor⟩
      have hawaited : attached.awaited (followed.stopFeeds (fresh.sync.attach subscription).1) =
          core.sought m c sorters filters := by
        obtain ⟨hlet, hkept⟩ := follower_attach hfresh subscription (some cursor)
        have hview : attached.sync.mode = core.sync.mode :=
          (fresh.sync.mode_attach subscription).trans hmode
        rw [awaited, hkept, hlet, hview, sought, ← hfound]
        cases core.isDestroyed with
        | true => rfl
        | false =>
            simp only [Bool.false_eq_true, if_false]
            rw [List.flatMap_singleton]
            show (followed.store.pending subscription.feed).flatMap _ = _
            rw [hpending, List.flatMap_map]
      have hprocess := attached.supplies_process
        (followed.stopFeeds (fresh.sync.attach subscription).1)
      rw [hawaited] at hprocess
      have hbefore : (followed.stopFeeds (fresh.sync.attach subscription).1).contexts =
          m.contexts := hsubscribe.trans hcache
      refine hprocess.start hbefore ?_
      rw [show attached.sync.contexts = _ from contexts_attach fresh.sync subscription]
      exact hcontexts
  · next e failed heq =>
      rw [heq] at hsubscribe
      have hnone : core.sought m c sorters filters = [] := by
        unfold sought
        split
        · rfl
        · rw [← hfound, found_of_subscribe_error heq]
          rfl
      rw [hnone]
      refine .of_eq ?_ ?_
      · exact ((onlyRaises_fail fresh.id failed e).contexts_eq.trans hsubscribe).trans hcache
      · rw [contexts_abandon]
        exact hcontexts

end QueryCore

/-! ## Bindings to values -/

namespace PropertyBinding

/-- The contexts that a binding to a value is led to by a request: those of the documents on
the way to the value, if it is read. -/
def followed (m : Model) : BindingAction → PropertyBinding → List Context
  | .process, b | .refresh _, b | .checkUpdate _, b =>
      if b.destroyed then [] else m.followed b.path b.context
  | .setContext other, b =>
      if Context.areSame b.context other then []
      else if b.destroyed then [] else m.followed b.path other
  | .currentValue, b => m.followed b.path b.context
  | _, _ => []

theorem yields_readAt (m : Model) (path : String) (context : Option Context) :
    m.Yields (m.followed path context) (readAt m path context).2 := by
  have hread := m.yields_getProperty path context
  unfold readAt
  split <;> next heq =>
    rw [heq] at hread
    exact hread

theorem yields_checkUpdate (b : PropertyBinding) (m : Model) (force : Bool) :
    m.Yields (if b.destroyed then [] else m.followed b.path b.context)
      (b.checkUpdate m force).2.2 := by
  have hread : m.Yields (m.followed b.path b.context) (b.currentValue m).2 :=
    yields_readAt m b.path b.context
  unfold checkUpdate
  split
  · exact .refl m
  dsimp only
  split
  · exact hread
  · exact Supplies.rest hread rfl (List.Subset.refl _)

theorem yields_setContext (b : PropertyBinding) (m : Model) (other : Option Context) :
    m.Yields (b.followed m (.setContext other)) (b.setContext m other).2 := by
  by_cases hsame : Context.areSame b.context other = true
  · simp only [setContext, followed, if_pos hsame]
    exact .refl m
  · simp only [setContext, followed, if_neg hsame]
    exact yields_checkUpdate { b with context := other } m false

/-- Whatever is asked of a binding to a value, it asks for the documents on the way. -/
theorem yields_act (b : PropertyBinding) (m : Model) (request : BindingAction) :
    m.Yields (b.followed m request) ((Binding.property b).act m request).2 := by
  cases request with
  | process => exact b.yields_checkUpdate m false
  | refresh force => exact b.yields_checkUpdate m force
  | checkUpdate force => exact b.yields_checkUpdate m force
  | setContext other => exact b.yields_setContext m other
  | currentValue => exact yields_readAt m b.path b.context
  | _ => exact .refl m

end PropertyBinding

/-! ## Bindings to documents -/

namespace ContextBinding

variable {m : Model}

/-- The paths of the documents that the query under another context will list. -/
def soughtUnder (b : ContextBinding) (m : Model) (other : Option Context) : List String :=
  match m.componentsOf b.path other with
  | .ok c => b.core.sought m c [] []
  | .error _ => []

theorem supplies_renewElement (b : ContextBinding) (m : Model) (force : Bool) :
    m.Supplies [m.place b.path b.context] [b.element] [(b.renewElement m force).1.element]
      (b.renewElement m force).2 := by
  have hnew := (Supplies.contextFor m (m.place b.path b.context)).frame [b.element]
  simp only [renewElement]
  split
  · exact hnew.rest rfl (List.subset_append_right _ _)
  · exact hnew.rest rfl (List.subset_append_left _ _)

theorem keeps_requery (b : ContextBinding) (m : Model) : m.Keeps (b.requery m).2 := by
  have hclear : ∀ n : Model, n.Keeps (b.core.clear n).2 := fun n =>
    (Keeps.stopFeeds n b.core.sync.begin.2.1).trans
      (.of_onlyRaises (QueryCore.onlyRaises_dispatch b.core.id _ _))
  cases hcomponents : m.componentsOf b.path b.context with
  | error e =>
      simp only [requery, Model.components, hcomponents]
      exact (Keeps.of_onlyRaises (.report m e none)).trans (hclear _)
  | ok c =>
      simp only [requery, Model.components, hcomponents]
      exact b.core.keeps_run m c [] []

theorem draws_requery (b : ContextBinding) (hsound : m.ledger.Sound) :
    m.Draws (b.soughtUnder m b.context) (b.requery m).2 := by
  unfold soughtUnder
  cases hcomponents : m.componentsOf b.path b.context with
  | error e =>
      simp only [requery, Model.components, hcomponents]
      exact (QueryCore.onlyRaises_dispatch _ _ _).contexts_eq
  | ok c =>
      simp only [requery, Model.components, hcomponents]
      exact (b.core.supplies_run hsound c [] []).draws

theorem supplies_setContext (b : ContextBinding) (hsound : m.ledger.Sound)
    (other : Option Context) :
    m.Supplies
      (if Context.areSame b.context other then []
        else b.soughtUnder m other ++ [m.place b.path other])
      [b.element] [(b.setContext m other).1.element] (b.setContext m other).2 := by
  have hdraws := draws_requery { b with context := other } hsound
  have hkept := keeps_requery { b with context := other } m
  obtain ⟨hsame, -⟩ := requery_eq { b with context := other } m
  have hrenew := supplies_renewElement ({ b with context := other }.requery m).1
    ({ b with context := other }.requery m).2 false
  unfold setContext
  split
  · exact .of_eq rfl (List.Subset.refl _)
  · have hplace : ({ b with context := other }.requery m).2.place
        ({ b with context := other }.requery m).1.path
        ({ b with context := other }.requery m).1.context = m.place b.path other := by
      rw [hsame]
      exact place_eq hkept.config b.path other
    have helement : ({ b with context := other }.requery m).1.element = b.element := by
      rw [hsame]
    rw [hplace, helement] at hrenew
    exact (hdraws.supplies [b.element]).trans hrenew

end ContextBinding

/-! ## Lists -/

namespace DocumentList

theorem supplies_requery (b : DocumentList) {m : Model} (hsound : m.ledger.Sound) :
    m.Supplies (b.core.sought m b.components b.sorters b.filters) b.contexts
      (b.requery m).1.contexts (b.requery m).2 := by
  unfold requery
  split
  · next h =>
      rw [QueryCore.sought, if_pos h]
      exact .of_eq rfl (List.Subset.refl _)
  · exact b.core.supplies_run hsound b.components b.sorters b.filters

end DocumentList

namespace ElementList

/-- The items of a value, which has to be an array. -/
def itemsOf : Option Json → List Json
  | some (.array items) => items
  | _ => []

/-- The items of the array as the store has them now; none, if no array can be read. -/
def items (b : ElementList) (m : Model) : List Json :=
  match b.core.cursor with
  | none => []
  | some cursor =>
      match (m.first cursor).1 with
      | .ok (some document) => itemsOf (valueAt document b.components.property)
      | _ => []

/-- The paths of the items. -/
def itemPaths (b : ElementList) (m : Model) : List String :=
  (List.range (b.items m).length).map (elementPath b.resolved)

theorem contextsOf_eq (b : ElementList) (m : Model) (value : Option Json) :
    (b.contextsOf m value).1 = (m.contexts.getOrCreateAll
        ((List.range (itemsOf value).length).map (elementPath b.resolved))).1 ∧
      (b.contextsOf m value).2.contexts = (m.contexts.getOrCreateAll
        ((List.range (itemsOf value).length).map (elementPath b.resolved))).2 := by
  cases value with
  | none => exact ⟨rfl, rfl⟩
  | some value => cases value <;> exact ⟨rfl, rfl⟩

theorem materialize_eq (b : ElementList) (m : Model) :
    (b.materialize m).1 = (m.contexts.getOrCreateAll (b.itemPaths m)).1 ∧
      (b.materialize m).2.contexts = (m.contexts.getOrCreateAll (b.itemPaths m)).2 := by
  cases hcursor : b.core.cursor with
  | none =>
      simp only [materialize, itemPaths, items, hcursor]
      exact ⟨rfl, rfl⟩
  | some cursor =>
      have hcontexts : (m.first cursor).2.contexts = m.contexts := rfl
      simp only [materialize, itemPaths, items, hcursor]
      rcases hfirst : m.first cursor with ⟨answer, n⟩
      rw [hfirst] at hcontexts
      match answer with
      | .error e => exact ⟨rfl, hcontexts⟩
      | .ok none => exact ⟨rfl, hcontexts⟩
      | .ok (some document) =>
          rw [← hcontexts]
          exact b.contextsOf_eq n _

theorem supplies_materialize (b : ElementList) (m : Model) :
    m.Supplies (b.itemPaths m) [] (b.materialize m).1 (b.materialize m).2 := by
  obtain ⟨hfound, hcontexts⟩ := b.materialize_eq m
  rw [hfound]
  exact (Supplies.getOrCreateAll m (b.itemPaths m)).rest hcontexts (List.Subset.refl _)

theorem supplies_refresh (b : ElementList) {m : Model} (hsound : m.ledger.Sound)
    (force : Bool) :
    m.Supplies (if force && !b.inert then b.core.sought m b.components [] [] else []) b.contexts
      (b.refresh m force).1.contexts (b.refresh m force).2 := by
  have hrun := b.core.supplies_run hsound b.components [] []
  unfold refresh
  cases force && !b.inert with
  | false => exact .of_eq rfl (List.Subset.refl _)
  | true =>
      cases hdestroyed : b.core.isDestroyed with
      | false => exact hrun.draws.supplies b.contexts
      | true =>
          have hnone : b.core.sought m b.components [] [] = [] := if_pos hdestroyed
          rw [hnone]
          exact .of_eq rfl (List.Subset.refl _)

end ElementList

/-! ## All kinds of bindings -/

theorem page_subset (contexts : List Context) (start length : Option Nat) (sizeLimit : Nat) :
    page contexts start length sizeLimit ⊆ contexts :=
  List.Subset.trans (List.take_subset _ _) (List.drop_subset _ _)

namespace Binding

/-- The contexts that a binding shows. -/
def shown : Binding → List Context
  | property _ => []
  | context b => [b.element]
  | list b => b.contexts

/-- The contexts that a request brings: those of the documents on the way to a value, or a
page of a list. -/
def answered (m : Model) : BindingAction → Binding → List Context
  | request, property b => b.followed m request
  | .getContexts start length, list b => (b.getContexts m start length).1
  | _, _ => []

/-- The paths that a binding asks for when something is asked of it. -/
def requested (m : Model) : BindingAction → Binding → List String
  | request, property b => (b.followed m request).map Context.path
  | .process, context b => b.core.awaited m
  | .refresh _, context b | .announce, context b => [m.place b.path b.context]
  | .setContext other, context b =>
      if Context.areSame b.context other then []
      else b.soughtUnder m other ++ [m.place b.path other]
  | .process, list (.documents b) => b.core.awaited m
  | .refresh true, list (.documents b) => b.core.sought m b.components b.sorters b.filters
  | .filter filters, list (.documents b) => b.core.sought m b.components b.sorters filters
  | .sort sorters, list (.documents b) => b.core.sought m b.components sorters b.filters
  | .process, list (.elements b) => b.core.awaited m
  | .refresh force, list (.elements b) =>
      if force && !b.inert then b.core.sought m b.components [] [] else []
  | .getContexts _ _, list (.elements b) => b.itemPaths m
  | _, _ => []

variable {m : Model}

theorem supplies_property (b : PropertyBinding) (m : Model) (request : BindingAction) :
    m.Supplies ((property b).requested m request) (property b).shown
      ((property b).answered m request ++ ((property b).act m request).1.shown)
      ((property b).act m request).2 := by
  have hanswered : (property b).answered m request = b.followed m request := by
    cases request <;> rfl
  have hrequested :
      (property b).requested m request = (b.followed m request).map Context.path := by
    cases request <;> rfl
  have hshown : ((property b).act m request).1.shown = [] := by cases request <;> rfl
  rw [hanswered, hrequested, hshown, List.append_nil]
  exact b.yields_act m request

theorem supplies_context (b : ContextBinding) (hsound : m.ledger.Sound)
    (request : BindingAction) :
    m.Supplies ((context b).requested m request) (context b).shown
      ((context b).answered m request ++ ((context b).act m request).1.shown)
      ((context b).act m request).2 := by
  have hsame : m.Supplies [] [b.element] [b.element] m := .of_eq rfl (List.Subset.refl _)
  cases request with
  | process => exact (b.core.supplies_process m).draws.supplies [b.element]
  | refresh force => exact b.supplies_renewElement m force
  | announce => exact b.supplies_renewElement m true
  | setContext other => exact b.supplies_setContext hsound other
  | destroy => exact .of_eq rfl (List.Subset.refl _)
  | _ => exact hsame

theorem supplies_documents (b : DocumentList) (hsound : m.ledger.Sound)
    (request : BindingAction) :
    m.Supplies ((list (.documents b)).requested m request) (list (.documents b)).shown
      ((list (.documents b)).answered m request ++
        ((list (.documents b)).act m request).1.shown)
      ((list (.documents b)).act m request).2 := by
  have hsame : m.Supplies [] b.contexts b.contexts m := .of_eq rfl (List.Subset.refl _)
  cases request with
  | process => exact b.core.supplies_process m
  | refresh force =>
      cases force with
      | true => exact b.supplies_requery hsound
      | false => exact .of_eq rfl (List.Subset.refl _)
  | filter filters => exact DocumentList.supplies_requery { b with filters := filters } hsound
  | sort sorters => exact DocumentList.supplies_requery { b with sorters := sorters } hsound
  | getContexts start length =>
      exact .of_eq rfl (List.append_subset.mpr ⟨page_subset _ _ _ _, List.Subset.refl _⟩)
  | destroy =>
      refine .of_eq rfl ?_
      show b.core.sync.destroy.2.contexts ⊆ b.core.sync.contexts
      unfold Synchronizer.destroy
      split
      · exact List.Subset.refl _
      · exact List.nil_subset _
  | _ => exact hsame

theorem supplies_elements (b : ElementList) (hsound : m.ledger.Sound)
    (request : BindingAction) :
    m.Supplies ((list (.elements b)).requested m request) (list (.elements b)).shown
      ((list (.elements b)).answered m request ++ ((list (.elements b)).act m request).1.shown)
      ((list (.elements b)).act m request).2 := by
  have hsame : m.Supplies [] b.contexts b.contexts m := .of_eq rfl (List.Subset.refl _)
  cases request with
  | process => exact (b.core.supplies_process m).draws.supplies b.contexts
  | refresh force => exact b.supplies_refresh hsound force
  | filter filters => exact .of_eq rfl (List.Subset.refl _)
  | sort sorters => exact .of_eq rfl (List.Subset.refl _)
  | getContexts start length =>
      exact (b.supplies_materialize m).weaken (List.nil_subset _)
        (List.append_subset.mpr ⟨page_subset _ _ _ _, List.Subset.refl _⟩)
  | destroy => exact .of_eq rfl (List.nil_subset _)
  | _ => exact hsame

/-- Whatever is asked of a binding, what it shows and hands out thereafter is held for the paths
it asked for, or was shown before. -/
theorem supplies_act (b : Binding) (hsound : m.ledger.Sound) (request : BindingAction) :
    m.Supplies (b.requested m request) b.shown
      (b.answered m request ++ (b.act m request).1.shown) (b.act m request).2 := by
  cases b with
  | property b => exact supplies_property b m request
  | context b => exact supplies_context b hsound request
  | list b =>
      cases b with
      | documents b => exact supplies_documents b hsound request
      | elements b => exact supplies_elements b hsound request

theorem contexts_drop (b : Binding) (m : Model) : (b.drop m).contexts = m.contexts := by
  cases b with
  | list b => cases b <;> rfl
  | _ => rfl

end Binding

end LiveDocuments
