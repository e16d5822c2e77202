import LiveDocuments.Binding.Documents
import LiveDocuments.Proofs.Binding.Core

/-!
# Document lists mirror their queries

A document list is used while others write to the store. Whatever the order of writes,
new filters, new sorters, refreshes and processing, the list follows the query made of
what it was given last (`DocumentList.Follows`), and right after a new query or after
processing it lists just what that query finds.
-/

namespace LiveDocuments

open Results

/-- What may happen to a document list and the store it reads. -/
inductive ListAction where
  | store (operation : StoreOperation)
  | filter (filters : List Filter)
  | sort (sorters : List Sorter)
  | refresh (force : Bool)
  | process

/-- Whether the list is up to date after the action. -/
def ListAction.Settles : ListAction → Prop
  | filter _ => True
  | sort _ => True
  | refresh force => force = true
  | process => True
  | store _ => False

/-- The selector made of the filters is one that stores accept. -/
def Components.Accepts (c : Components) (filters : List Filter) : Prop :=
  ∃ selector, Selector.compile (selectorFor c filters).value = .ok selector

namespace DocumentList

/-- The query made of the list's filters and sorters and the size limit of the model. -/
def query (b : DocumentList) (m : Model) : Query :=
  (compileQuery b.components b.sorters b.filters m.config.sizeLimit).value

/-- The list and its model after an action. -/
def act (view : DocumentList × Model) : ListAction → DocumentList × Model
  | .store operation => (view.1, view.2.withStore (view.2.store.step operation))
  | .filter filters => view.1.filter view.2 filters
  | .sort sorters => view.1.sort view.2 sorters
  | .refresh force => view.1.refresh view.2 force
  | .process => (view.1.process view.2).2

/-- The list and its model after several actions. -/
def actAll (view : DocumentList × Model) (actions : List ListAction) : DocumentList × Model :=
  actions.foldl act view

/-- Whether the action takes changes off the feed of the list, or ends it. -/
def Disturbs (b : DocumentList) : ListAction → Prop
  | .store operation =>
      ∃ subscription, b.core.subscription? = some subscription ∧
        (operation.Ends subscription.feed ∨ operation.Polls subscription.feed)
  | _ => False

/-- Nobody but the list takes changes off its feeds, or ends them. -/
def Undisturbed : DocumentList × Model → List ListAction → Prop
  | _, [] => True
  | view, action :: rest => ¬ view.1.Disturbs action ∧ Undisturbed (act view action) rest

/-! ## Following the query -/

/-- The list follows the query made of its filters and sorters. -/
structure Follows (c : Components) (view : DocumentList × Model) : Prop where
  components : view.1.components = c
  ready : view.2.Ready c.collection
  accepted : c.Accepts view.1.filters
  tracks : ∃ subscription held,
    view.1.core.Tracks view.2 c.collection (view.1.query view.2) subscription held

/-- The list shows what the query made of its filters and sorters finds. -/
def Mirrors (view : DocumentList × Model) : Prop :=
  view.1.core.Mirrors view.2 view.1.components.collection (view.1.query view.2)

variable {c : Components} {view : DocumentList × Model}

theorem requery_fst (b : DocumentList) (m : Model) :
    (b.requery m).1 = { b with core := (b.requery m).1.core } := by
  unfold requery
  split <;> rfl

theorem keeps_requery (b : DocumentList) (m : Model) : m.Keeps (b.requery m).2 := by
  unfold requery
  split
  · exact .refl m
  · exact QueryCore.keeps_run b.core m b.components b.sorters b.filters

/-- A list that has not been queried yet, and its model. -/
def unqueried (m : Model) (path : String) (c : Components) (sorters : List Sorter)
    (filters : List Filter) : DocumentList × Model :=
  (⟨path, c, sorters, filters, (QueryCore.create m (.documents ("/" ++ c.collection))).1⟩,
    (QueryCore.create m (.documents ("/" ++ c.collection))).2)

theorem create_of_componentsOf {m : Model} {path : String} {c : Components}
    (hc : m.componentsOf path none = .ok c) (sorters : List Sorter) (filters : List Filter) :
    create m path sorters filters =
      (.ok (requery (unqueried m path c sorters filters).1
          (unqueried m path c sorters filters).2).1,
        (requery (unqueried m path c sorters filters).1
          (unqueried m path c sorters filters).2).2) := by
  simp only [create, Model.components, hc, unqueried]

theorem create_eq_ok {m n : Model} {path : String} {sorters : List Sorter}
    {filters : List Filter} {b : DocumentList}
    (h : create m path sorters filters = (.ok b, n)) :
    ∃ c, m.componentsOf path none = .ok c ∧
      requery (unqueried m path c sorters filters).1 (unqueried m path c sorters filters).2 =
        (b, n) := by
  cases hc : m.componentsOf path none with
  | error e =>
      simp only [create, Model.components, hc] at h
      cases h
  | ok c =>
      rw [create_of_componentsOf hc] at h
      have hpair := Prod.mk.inj h
      exact ⟨c, rfl, Prod.ext (Except.ok.inj hpair.1) hpair.2⟩

theorem keeps_create {m n : Model} {path : String} {sorters : List Sorter}
    {filters : List Filter} {b : DocumentList}
    (h : create m path sorters filters = (.ok b, n)) : m.Keeps n := by
  obtain ⟨c, _, hrequery⟩ := create_eq_ok h
  have hmade : m.Keeps (unqueried m path c sorters filters).2 := ⟨rfl, id, rfl, rfl, rfl, rfl⟩
  have hkeeps := hmade.trans
    (keeps_requery (unqueried m path c sorters filters).1 (unqueried m path c sorters filters).2)
  rwa [hrequery] at hkeeps

theorem follows_requery {b : DocumentList} {m : Model} (hcomponents : b.components = c)
    (hready : m.Ready c.collection) (haccepted : c.Accepts b.filters)
    (hmode : b.core.sync.mode = .documents ("/" ++ c.collection))
    (hphase : b.core.isDestroyed = false) :
    Follows c (b.requery m) ∧ Mirrors (b.requery m) := by
  subst hcomponents
  rcases haccepted with ⟨selector, hselector⟩
  rw [← selector_compileQuery b.components b.sorters b.filters m.config.sizeLimit] at hselector
  obtain ⟨subscription, final, htracks, hpending⟩ :=
    QueryCore.tracks_run hready hmode hphase b.sorters b.filters rfl hselector
  have hkeeps := QueryCore.keeps_run b.core m b.components b.sorters b.filters
  have hrequery : b.requery m =
      ({ b with core := (b.core.run m b.components b.sorters b.filters).1 },
        (b.core.run m b.components b.sorters b.filters).2) := by
    rw [requery, hphase, if_neg Bool.false_ne_true]
  have hquery : (b.requery m).1.query (b.requery m).2 = b.query m := by
    rw [hrequery, query, hkeeps.config]
    rfl
  constructor
  · refine ⟨?_, ?_, ?_, subscription, final, ?_⟩
    · rw [hrequery]
    · rw [hrequery]
      exact hready.of_keeps hkeeps
    · rw [selector_compileQuery] at hselector
      rw [hrequery]
      exact ⟨selector, hselector⟩
    · rw [hquery, hrequery]
      exact htracks
  · rw [Mirrors, hquery, hrequery]
    exact htracks.mirrors (hkeeps.consistent hready.consistent) hpending

namespace Follows

theorem requery (h : Follows c view) (b : DocumentList) (hcore : b.core = view.1.core)
    (hcomponents : b.components = view.1.components) (hfilters : c.Accepts b.filters) :
    Follows c (b.requery view.2) ∧ Mirrors (b.requery view.2) := by
  rcases h.tracks with ⟨subscription, held, htracks⟩
  apply follows_requery (hcomponents.trans h.components) h.ready hfilters
  · rw [hcore]
    exact htracks.mode
  · rw [hcore]
    exact htracks.isDestroyed

theorem process (h : Follows c view) :
    Follows c (view.1.process view.2).2 ∧ Mirrors (view.1.process view.2).2 := by
  obtain ⟨b, m⟩ := view
  rcases h.tracks with ⟨subscription, held, htracks⟩
  obtain ⟨⟨final, hfinal⟩, hpending⟩ := htracks.process h.ready.consistent
  have hkeeps := QueryCore.keeps_process b.core m
  have hquery : (b.process m).2.1.query (b.process m).2.2 = b.query m := by
    show (compileQuery b.components b.sorters b.filters
      (b.core.process m).2.2.config.sizeLimit).value = _
    rw [hkeeps.config]
    rfl
  constructor
  · refine ⟨h.components, h.ready.of_keeps hkeeps, h.accepted, subscription, final, ?_⟩
    rw [hquery]
    exact hfinal
  · rw [Mirrors, hquery]
    have hcollection : (b.process m).2.1.components.collection = c.collection :=
      congrArg Components.collection h.components
    rw [hcollection]
    exact hfinal.mirrors (hkeeps.consistent h.ready.consistent) hpending

/-- The list follows its query over every action, and after some it is up to date. -/
theorem act (h : Follows c view) (action : ListAction)
    (haccepted : ∀ filters, action = .filter filters → c.Accepts filters)
    (hundisturbed : ¬ view.1.Disturbs action) :
    Follows c (act view action) ∧ (action.Settles → Mirrors (act view action)) := by
  cases action with
  | store operation =>
      refine ⟨?_, False.elim⟩
      rcases h.tracks with ⟨subscription, held, htracks⟩
      have hends : ¬ operation.Ends subscription.feed :=
        fun hends => hundisturbed ⟨subscription, htracks.subscription?_eq, .inl hends⟩
      have hpolls : ¬ operation.Polls subscription.feed :=
        fun hpolls => hundisturbed ⟨subscription, htracks.subscription?_eq, .inr hpolls⟩
      exact ⟨h.components, h.ready.step operation, h.accepted, subscription, held,
        htracks.step h.ready.consistent operation hends hpolls⟩
  | filter filters =>
      obtain ⟨hfollows, hmirrors⟩ :=
        h.requery { view.1 with filters := filters } rfl rfl (haccepted filters rfl)
      exact ⟨hfollows, fun _ => hmirrors⟩
  | sort sorters =>
      obtain ⟨hfollows, hmirrors⟩ :=
        h.requery { view.1 with sorters := sorters } rfl rfl h.accepted
      exact ⟨hfollows, fun _ => hmirrors⟩
  | refresh force =>
      cases force with
      | true =>
          obtain ⟨hfollows, hmirrors⟩ := h.requery view.1 rfl rfl h.accepted
          exact ⟨hfollows, fun _ => hmirrors⟩
      | false =>
          refine ⟨?_, fun h => absurd h Bool.false_ne_true⟩
          rcases h.tracks with ⟨subscription, held, htracks⟩
          exact ⟨h.components, h.ready.of_keeps (.of_onlyRaises (.emit _ _)), h.accepted,
            subscription, held, htracks.mode, htracks.phase, htracks.serves, htracks.distinct,
            htracks.lists⟩
  | process =>
      rcases h.process with ⟨hfollows, hmirrors⟩
      exact ⟨hfollows, fun _ => hmirrors⟩

/-- The list follows its query over every undisturbed run. It is up to date at the end if
the last action brings it up to date, or if nothing happened to a list that was. -/
theorem actAll (h : Follows c view) (actions : List ListAction)
    (hmirrors : actions = [] → Mirrors view)
    (haccepted : ∀ filters, .filter filters ∈ actions → c.Accepts filters)
    (hundisturbed : Undisturbed view actions)
    (hsettled : ∀ last ∈ actions.getLast?, last.Settles) :
    Follows c (actAll view actions) ∧ Mirrors (actAll view actions) := by
  induction actions generalizing view with
  | nil => exact ⟨h, hmirrors rfl⟩
  | cons action rest ih =>
      obtain ⟨hnext, hshown⟩ := h.act action
        (fun filters hfilters => haccepted filters (hfilters ▸ List.mem_cons_self))
        hundisturbed.1
      apply ih hnext _ (fun filters hfilters => haccepted filters (List.mem_cons_of_mem _ hfilters))
        hundisturbed.2
      · intro last hlast
        cases rest with
        | nil => cases hlast
        | cons second others => exact hsettled last hlast
      · rintro rfl
        exact hshown (hsettled action rfl)

end Follows

theorem follows_create {m n : Model} {path : String} {sorters : List Sorter}
    {filters : List Filter} {b : DocumentList} (hstore : m.store.Consistent)
    (halive : m.destroyed = false) (hwilling : m.backend.observeRefusal = none)
    (hcreate : create m path sorters filters = (.ok b, n))
    (hcollection : m.store.hasCollection b.components.collection = true)
    (haccepted : b.components.Accepts filters) :
    Follows b.components (b, n) ∧ Mirrors (b, n) := by
  obtain ⟨c, _, hrequery⟩ := create_eq_ok hcreate
  have hcomponents : b.components = c := by
    have := congrArg (fun view => view.1.components) hrequery
    rw [requery_fst] at this
    exact this.symm
  rw [hcomponents] at hcollection haccepted ⊢
  rw [← hrequery]
  exact follows_requery rfl ⟨hstore, hcollection, halive, hwilling⟩ haccepted rfl rfl

/-- Whatever happens to a list and its store, as long as nobody else takes changes off its feed
and the store accepts its filters: when the list has just been made, queried anew, or has
processed its changes, its contexts are in order those of the documents found by its query, each
once. -/
theorem contexts_mirror_query (before : List StoreOperation) (m n last : Model) (path : String)
    (sorters : List Sorter) (filters : List Filter) (b list : DocumentList)
    (actions : List ListAction)
    (hstore : m.store = Store.empty.run before) (halive : m.destroyed = false)
    (hwilling : m.backend.observeRefusal = none)
    (hcreate : create m path sorters filters = (.ok b, n))
    (hcollection : m.store.hasCollection b.components.collection = true)
    (hfilters : b.components.Accepts filters)
    (haccepted : ∀ others, .filter others ∈ actions → b.components.Accepts others)
    (hundisturbed : Undisturbed (b, n) actions)
    (hsettled : ∀ action ∈ actions.getLast?, action.Settles)
    (hrun : actAll (b, n) actions = (list, last)) :
    ∃ documents, ∃ ids : List DocumentId,
      last.store.find list.components.collection (list.query last) = .ok documents ∧
      documents.map idOf? = ids.map some ∧ ids.Nodup ∧
      list.contexts.map Context.path =
        ids.map (Components.pathOf list.components.collection) ∧
      ∀ context ∈ list.contexts, last.contexts.get? context.path = some context := by
  have hconsistent : m.store.Consistent := hstore ▸ Store.consistent_empty.run before
  obtain ⟨hfollows, hshown⟩ :=
    follows_create hconsistent halive hwilling hcreate hcollection hfilters
  obtain ⟨_, hmirrors⟩ :=
    hfollows.actAll actions (fun _ => hshown) haccepted hundisturbed hsettled
  rw [hrun] at hmirrors
  rcases hmirrors with ⟨results, hfind, hids, hnodup, hlists⟩
  refine ⟨results.map Prod.snd, ids results, hfind, ?_, hnodup, hlists.paths, hlists.cached⟩
  rw [ids, List.map_map, List.map_map]
  exact List.map_congr_left hids

/-- A model over a store with one document. -/
def stocked : Model := .new (.ofStore (Store.empty.run Store.stocking)) .default

/-- A run in which the list is filtered while documents come and go. -/
def takeover : List ListAction :=
  [.store (.insert "A" (Store.bare "b")), .filter [⟨"_id", .ne, .string "c", none, false⟩],
    .store (.remove "A" (.plain "a")), .store (.insert "A" (Store.bare "c")), .process]

/-- The list of the takeover ends with the contexts of what its query finds. -/
theorem contexts_mirror_query_takeover :
    ∃ b n list last, create stocked "/A" [] [] = (.ok b, n) ∧
      actAll (b, n) takeover = (list, last) ∧
      ∃ documents, ∃ ids : List DocumentId,
        last.store.find list.components.collection (list.query last) = .ok documents ∧
        documents.map idOf? = ids.map some ∧ ids.Nodup ∧
        list.contexts.map Context.path =
          ids.map (Components.pathOf list.components.collection) ∧
        ∀ context ∈ list.contexts, last.contexts.get? context.path = some context := by
  have hmade : (create stocked "/A" [] []).1.toOption.map components = some ⟨"A", none, ""⟩ := by
    decide +kernel
  cases hcreate : create stocked "/A" [] [] with
  | mk result n =>
      rw [hcreate] at hmade
      cases result with
      | error e => cases hmade
      | ok b =>
          have hcomponents : b.components = ⟨"A", none, ""⟩ := Option.some.inj hmade
          have hundisturbed : Undisturbed (b, n) takeover := by
            simp [takeover, Undisturbed, Disturbs, StoreOperation.Ends, StoreOperation.Polls]
          refine ⟨b, n, _, _, rfl, rfl, ?_⟩
          refine contexts_mirror_query Store.stocking stocked n _ "/A" [] [] b _ takeover rfl rfl
            rfl hcreate ?_ ?_ ?_ hundisturbed ?_ rfl
          · rw [hcomponents]
            rfl
          · rw [hcomponents]
            exact ⟨_, rfl⟩
          · intro others hothers
            simp only [takeover, List.mem_cons, reduceCtorEq, false_or, List.not_mem_nil,
              or_false, ListAction.filter.injEq] at hothers
            rw [hcomponents, hothers]
            exact ⟨_, rfl⟩
          · intro action haction
            obtain rfl := Option.some.inj haction
            trivial

end DocumentList

end LiveDocuments
