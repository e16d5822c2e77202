import LiveDocuments.Proofs.Binding.Instances

/-!
# What a binding leaves to others

A binding stops and drains only what it follows itself. The live queries of others stay as
they are, with all that waits on their feeds, and so do the documents
(`Binding.spares_act`).
-/

namespace LiveDocuments

namespace Model

/-- Between the models no document was touched, and no live query but those of the feeds. -/
structure Spares (feeds : List FeedId) (m n : Model) : Prop extends m.Keeps n where
  live : ∀ q ∈ m.store.live, q.feed ∉ feeds → q ∈ n.store.live

variable {m n k : Model} {feeds : List FeedId}

theorem store_of_subscribe_error {c : Components} {sorters : List Sorter}
    {filters : List Filter} {binding : BindingId} {e : BindingError}
    (h : m.subscribe c sorters filters binding = (.error e, n)) : n.store = m.store := by
  have hquery := OnlyRaises.query m c sorters filters (some binding)
  unfold Model.subscribe at h
  split at h
  · next heq =>
      rw [heq] at hquery
      obtain ⟨_, rfl⟩ := hquery
      cases h
      rfl
  next cursor o heq =>
    rw [heq] at hquery
    obtain ⟨_, rfl⟩ := hquery
    split at h
    · next hobserve =>
        cases h
        simp only [Backend.observe] at hobserve
        split at hobserve
        · cases hobserve
          rfl
        split at hobserve
        · cases hobserve
          rfl
        · cases hobserve
    · cases h

namespace Spares

theorem of_store (hkeeps : m.Keeps n) (hstore : n.store = m.store) : Spares feeds m n :=
  ⟨hkeeps, fun _ hq _ => hstore ▸ hq⟩

theorem refl (m : Model) : Spares feeds m m := .of_store (.refl m) rfl

theorem trans (hmn : Spares feeds m n) (hnk : Spares feeds n k) : Spares feeds m k :=
  ⟨hmn.toKeeps.trans hnk.toKeeps,
    fun q hq hfeed => hnk.live q (hmn.live q hq hfeed) hfeed⟩

theorem of_onlyAsks (h : m.OnlyAsks n) : Spares feeds m n := by
  refine .of_store h.keeps ?_
  rcases h with ⟨_, _, _, rfl⟩
  rfl

theorem of_onlyRaises (h : m.OnlyRaises n) : Spares feeds m n := .of_onlyAsks (.of_onlyRaises h)

theorem register (m : Model) : Spares feeds m m.register.2 :=
  .of_store ⟨rfl, fun h => h, rfl, rfl, rfl, rfl⟩ rfl

theorem mono (h : Spares feeds m n) {more : List FeedId} (hmore : feeds ⊆ more) :
    Spares more m n :=
  ⟨h.toKeeps, fun q hq hfeed => h.live q hq fun hmem => hfeed (hmore hmem)⟩

theorem stopFeeds (m : Model) (feeds : List FeedId) : Spares feeds m (m.stopFeeds feeds) := by
  refine ⟨.stopFeeds m feeds, fun q hq hfeed => ?_⟩
  show q ∈ (m.store.stopAll feeds).live
  generalize m.store = s at hq
  induction feeds generalizing s with
  | nil => exact hq
  | cons feed rest ih =>
      obtain ⟨hne, hrest⟩ := List.ne_and_not_mem_of_not_mem_cons hfeed
      refine ih hrest (s.stop feed) ?_
      unfold Store.stop
      split
      · exact List.mem_filter.mpr ⟨hq, decide_eq_true hne⟩
      · exact hq

theorem drain (m : Model) (feed : FeedId) :
    Spares [feed] m (m.withStore (m.store.drain feed).2) := by
  refine ⟨.drain m feed, fun q hq hfeed => ?_⟩
  have hne : q.feed ≠ feed := fun heq => hfeed (List.mem_singleton.mpr heq)
  exact List.mem_map.mpr ⟨q, hq, if_neg hne⟩

theorem subscribe (m : Model) (c : Components) (sorters : List Sorter) (filters : List Filter)
    (binding : BindingId) : Spares feeds m (m.subscribe c sorters filters binding).2 := by
  refine ⟨.subscribe m c sorters filters binding, fun q hq _ => ?_⟩
  cases hsubscribe : m.subscribe c sorters filters binding with
  | mk result n =>
      cases result with
      | ok opened =>
          obtain ⟨selector, -, -, hstore⟩ := store_of_subscribe hsubscribe
          rw [hstore]
          exact List.mem_append_left _ hq
      | error e => exact store_of_subscribe_error hsubscribe ▸ hq

end Spares

theorem Spares.of_used (h : Spares (feeds ++ [m.store.nextFeed]) m n)
    (hused : ∀ q ∈ m.store.live, q.feed < m.store.nextFeed) : Spares feeds m n := by
  refine ⟨h.toKeeps, fun q hq hfeed => h.live q hq fun hmem => ?_⟩
  rcases List.mem_append.mp hmem with hold | hnew
  · exact hfeed hold
  · exact Nat.ne_of_lt (hused q hq) (List.mem_singleton.mp hnew)

end Model

open Model

namespace QueryCore

variable {m : Model}

theorem spares_process (core : QueryCore) (m : Model) :
    m.Spares core.follower.feeds (core.process m).2.2 := by
  cases hsubscription : core.subscription? with
  | none =>
      simp only [process, hsubscription]
      exact .refl m
  | some subscription =>
      have hfeeds : core.follower.feeds = [subscription.feed] := by
        rw [follower, Synchronizer.feeds, show core.sync.subscription? = _ from hsubscription]
        rfl
      have hdrain := Spares.drain m subscription.feed
      simp only [process, hsubscription, hfeeds]
      refine .trans ?_ (.of_onlyRaises (onlyRaises_dispatch core.id _ _))
      exact ⟨⟨hdrain.collections, hdrain.consistent, rfl, rfl, rfl, rfl⟩, hdrain.live⟩

theorem spares_run (core : QueryCore) (hm : m.store.Consistent) (c : Components)
    (sorters : List Sorter) (filters : List Filter) :
    m.Spares core.follower.feeds (core.run m c sorters filters).2 := by
  obtain ⟨hstopped, hfresh, -⟩ := core.reset_eq m
  unfold run
  split
  next notifications fresh o hreset =>
  rw [hreset] at hstopped hfresh
  obtain rfl := hstopped
  have hraised := onlyRaises_dispatch fresh.id (m.stopFeeds core.follower.feeds) notifications
  have hnext : (dispatch fresh.id (m.stopFeeds core.follower.feeds) notifications).ledger =
      m.ledger.stopAll core.follower.feeds :=
    hraised.ledger_eq.trans (m.ledger_stopFeeds core.follower.feeds)
  have hasking : m.Spares core.follower.feeds
      (dispatch fresh.id (m.stopFeeds core.follower.feeds) notifications) :=
    (Spares.stopFeeds m core.follower.feeds).trans (.of_onlyRaises hraised)
  generalize dispatch fresh.id (m.stopFeeds core.follower.feeds) notifications = asking at *
  have hsubscribe := hasking.trans (.subscribe asking c sorters filters fresh.id)
  dsimp only
  split
  · next cursor subscription followed heq =>
      rw [heq] at hsubscribe
      obtain ⟨selector, -, hfeed, -⟩ := store_of_subscribe heq
      obtain ⟨hlet, hkept⟩ := follower_attach hfresh subscription (some cursor)
      have hnew : subscription.feed = m.store.nextFeed := by
        have hledger := congrArg Ledger.nextFeed hnext
        rw [Ledger.stopAll_eq] at hledger
        exact hfeed.trans hledger
      have hown : [subscription.feed] ⊆ core.follower.feeds ++ [m.store.nextFeed] :=
        hnew ▸ List.subset_append_right _ _
      let attached : QueryCore := ⟨fresh.id, (fresh.sync.attach subscription).2, some cursor⟩
      have hletting : (fresh.sync.attach subscription).1 ⊆
          core.follower.feeds ++ [m.store.nextFeed] := by
        rw [hlet]
        split
        · exact hown
        · exact List.nil_subset _
      have hkeeping : attached.follower.feeds ⊆ core.follower.feeds ++ [m.store.nextFeed] := by
        rw [hkept]
        dsimp only
        split
        · exact List.nil_subset _
        · exact hown
      have hstop := (Spares.stopFeeds followed (fresh.sync.attach subscription).1).mono hletting
      have hprocess := (attached.spares_process
        (followed.stopFeeds (fresh.sync.attach subscription).1)).mono hkeeping
      have hfirst := (hsubscribe.mono (List.subset_append_left _ [m.store.nextFeed])).trans hstop
      exact (hfirst.trans hprocess).of_used hm.used
  · next e failed heq =>
      rw [heq] at hsubscribe
      exact hsubscribe.trans (.of_onlyRaises (onlyRaises_fail fresh.id failed e))

theorem spares_clear (core : QueryCore) (m : Model) :
    m.Spares core.follower.feeds (core.clear m).2 := by
  obtain ⟨hstopped, -, -⟩ := core.reset_eq m
  have hreset : m.Spares core.follower.feeds (core.reset m).2.2 :=
    hstopped ▸ Spares.stopFeeds m core.follower.feeds
  exact hreset.trans (.of_onlyRaises (onlyRaises_dispatch _ _ _))

theorem spares_destroy (core : QueryCore) (m : Model) :
    m.Spares core.follower.feeds (core.destroy m).2 := by
  have hstopped : (core.destroy m).2 = m.stopFeeds core.follower.feeds := by
    obtain ⟨id, ⟨mode, phase, contexts⟩, cursor⟩ := core
    cases phase <;> rfl
  exact hstopped ▸ Spares.stopFeeds m core.follower.feeds

end QueryCore

/-! ## All kinds of bindings -/

variable {m : Model}

namespace ContextBinding

theorem spares_requery (b : ContextBinding) (hm : m.store.Consistent) :
    m.Spares b.core.follower.feeds (b.requery m).2 := by
  cases hcomponents : m.componentsOf b.path b.context with
  | error e =>
      simp only [requery, Model.components, hcomponents]
      exact (Spares.of_onlyRaises (.report m e none)).trans (b.core.spares_clear _)
  | ok c =>
      simp only [requery, Model.components, hcomponents]
      exact b.core.spares_run hm c [] []

theorem spares_setContext (b : ContextBinding) (hm : m.store.Consistent)
    (other : Option Context) : m.Spares b.core.follower.feeds (b.setContext m other).2 := by
  unfold setContext
  split
  · exact .refl m
  · exact (spares_requery { b with context := other } hm).trans
      (.of_onlyAsks (onlyAsks_renewElement _ _ false))

end ContextBinding

theorem DocumentList.spares_requery (b : DocumentList) (hm : m.store.Consistent) :
    m.Spares b.core.follower.feeds (b.requery m).2 := by
  unfold requery
  split
  · exact .refl m
  · exact b.core.spares_run hm b.components b.sorters b.filters

theorem ElementList.spares_refresh (b : ElementList) (hm : m.store.Consistent) (force : Bool) :
    m.Spares b.core.follower.feeds (b.refresh m force).2 := by
  unfold refresh
  split
  · exact b.core.spares_run hm b.components [] []
  · exact .of_onlyRaises (.emit m _)

namespace Binding

theorem onlyAsks_property (b : PropertyBinding) (m : Model) (request : BindingAction) :
    m.OnlyAsks ((property b).act m request).2 := by
  cases request with
  | process => exact b.onlyAsks_checkUpdate m false
  | refresh force => exact b.onlyAsks_checkUpdate m force
  | checkUpdate force => exact b.onlyAsks_checkUpdate m force
  | setContext other => exact b.onlyAsks_setContext m other
  | currentValue => exact PropertyBinding.onlyAsks_readAt m b.path b.context
  | _ => exact .refl m

/-- Whatever is asked of a binding, it touches no live query but its own. -/
theorem spares_act (b : Binding) (hm : m.store.Consistent) (request : BindingAction) :
    m.Spares b.follower.feeds (b.act m request).2 := by
  cases b with
  | property b => exact .of_onlyAsks (onlyAsks_property b m request)
  | context b =>
      cases request with
      | process => exact b.core.spares_process m
      | refresh force => exact .of_onlyAsks (b.onlyAsks_renewElement m force)
      | announce => exact .of_onlyAsks (b.onlyAsks_renewElement m true)
      | setContext other => exact b.spares_setContext hm other
      | destroy => exact b.core.spares_destroy m
      | _ => exact .refl m
  | list b =>
      cases b with
      | documents b =>
          cases request with
          | process => exact b.core.spares_process m
          | refresh force =>
              cases force with
              | true => exact b.spares_requery hm
              | false => exact .of_onlyRaises (.emit m _)
          | filter filters =>
              exact DocumentList.spares_requery { b with filters := filters } hm
          | sort sorters => exact DocumentList.spares_requery { b with sorters := sorters } hm
          | destroy => exact b.core.spares_destroy m
          | _ => exact .refl m
      | elements b =>
          cases request with
          | process => exact b.core.spares_process m
          | refresh force => exact b.spares_refresh hm force
          | filter filters => exact .of_onlyRaises (.emit m _)
          | sort sorters => exact .of_onlyRaises (.emit m _)
          | getContexts start length => exact .of_onlyAsks (b.onlyAsks_materialize m)
          | destroy => exact b.core.spares_destroy m
          | _ => exact .refl m

theorem spares_drop (b : Binding) (hm : m.store.Consistent) :
    m.Spares b.follower.feeds (b.drop m) :=
  (b.spares_act hm .destroy).trans
    (.of_store ⟨rfl, fun h => h, rfl, rfl, rfl, rfl⟩ rfl)

end Binding

/-! ## Making bindings -/

theorem PropertyBinding.spares_create (m : Model) (path : String) (context : Option Context) :
    m.Spares [] (create m path context).2 := by
  have hcheck := onlyAsks_checkPath m path context
  unfold create
  split
  · next heq =>
      rw [heq] at hcheck
      exact .of_onlyAsks hcheck
  · next n heq =>
      rw [heq] at hcheck
      exact ((Spares.of_onlyAsks hcheck).trans (.register n)).trans
        (.of_onlyAsks (onlyAsks_readAt _ path context))

theorem ContextBinding.spares_create (hm : m.store.Consistent) (path : String)
    (context : Option Context) : m.Spares [] (create m path context).2 := by
  cases hcomponents : m.componentsOf path context with
  | error e =>
      simp only [create, Model.components, hcomponents]
      exact .of_onlyRaises (.report m e none)
  | ok c =>
      simp only [create, Model.components, hcomponents]
      have hcreate : m.Spares [] (m.createContext path context).2 :=
        .of_onlyAsks (.createContext m path context)
      have hmade := hcreate.trans (.register _)
      exact hmade.trans
        ((QueryCore.create _ .single).1.spares_run (hmade.consistent hm) c [] [])

theorem DocumentList.spares_create (hm : m.store.Consistent) (path : String)
    (sorters : List Sorter) (filters : List Filter) :
    m.Spares [] (create m path sorters filters).2 := by
  cases hcomponents : m.componentsOf path none with
  | error e =>
      simp only [create, Model.components, hcomponents]
      exact .of_onlyRaises (.report m e none)
  | ok c =>
      have hmade : m.Spares [] (unqueried m path c sorters filters).2 := .register m
      rw [create_of_componentsOf hcomponents]
      exact hmade.trans
        ((unqueried m path c sorters filters).1.spares_requery (hmade.consistent hm))

theorem ElementList.spares_create (hm : m.store.Consistent) (path : String) (parent : Context)
    (sorters : List Sorter) (filters : List Filter) :
    m.Spares [] (create m path parent sorters filters).2 := by
  cases hcomponents : m.componentsOf path (some parent) with
  | error e =>
      simp only [create, Model.components, hcomponents]
      exact .of_onlyRaises (.report m e none)
  | ok c =>
      have hmade : m.Spares [] (QueryCore.create m .elements).2 := .register m
      simp only [create, Model.components, hcomponents]
      split
      · exact hmade.trans
          ((QueryCore.create m .elements).1.spares_run (hmade.consistent hm) c [] [])
      · exact hmade.trans (.of_onlyRaises (.emit _ _))

end LiveDocuments
