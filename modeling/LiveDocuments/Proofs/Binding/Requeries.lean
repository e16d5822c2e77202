import LiveDocuments.Proofs.Binding.Limits
import LiveDocuments.Proofs.Binding.Refreshes

/-!
# What is heard of a new query

A query that a binding issues is answered in one of four ways (`Model.Response`): the model
has been destroyed, it does not know the collection, the store refuses, or the live query
begins with the documents that it finds. The layers below each report some of this and stay
silent on the rest. Here it is put together: what is raised in the course of a new query is
told, event by event, by the answer (`QueryCore.emitted_run`).
-/

namespace LiveDocuments

open Model

/-! ## The answer to a query -/

/-- The documents that a query matches, up to its limit; none if it cannot be read. -/
def Store.matched (s : Store) (name : String) (query : Query) : List Json :=
  (s.find name query).toOption.getD []

namespace Model

/-- How a model and its store answer a query that is issued for a binding. -/
inductive Response where
  | ended
  | unknown
  | refused (error : StoreError)
  | begun (documents : List Json)

/-- What a binding hears of the answer, other than the errors that the model reports. -/
def Response.events : Response → List BindingEvent
  | ended => []
  | unknown => []
  | refused e => [.requestFailed (BindingError.store e).message]
  | begun documents => documents.flatMap fun _ => [.dataReceived, .change .add]

section

variable (m : Model) (c : Components) (sorters : List Sorter) (filters : List Filter)

/-- The answer to a query. -/
def response : Response :=
  let query := (compileQuery c sorters filters m.config.sizeLimit).value
  if m.destroyed then .ended
  else if m.store.hasCollection c.collection then
    match (m.backend.observe c.collection query).1 with
    | .error e => .refused e
    | .ok _ => .begun (m.store.matched c.collection query)
  else .unknown

/-- The errors that a model reports of a query. -/
def complaints : List BindingError :=
  match m.response c sorters filters with
  | .ended => []
  | .unknown => [.unknownCollection c.collection]
  | _ => (compileQuery c sorters filters m.config.sizeLimit).diagnostics

/-- The answer is a matter of the settings and of the documents, not of other live queries. -/
theorem response_eq : m.response c sorters filters =
    let query := (compileQuery c sorters filters m.config.sizeLimit).value
    if m.destroyed then .ended
    else if m.store.hasCollection c.collection then
      match m.backend.observeRefusal, Selector.compile query.selector with
      | some reason, _ => .refused (Backend.refusal reason)
      | none, .error fault => .refused (.invalidSelector fault)
      | none, .ok selector =>
          .begun ((Results.of (m.store.documents c.collection) selector query.sort
            query.limit).map Prod.snd)
    else .unknown := by
  unfold response
  split
  · rfl
  split
  · cases hwilling : m.backend.observeRefusal with
    | some reason => simp only [Backend.observe, hwilling]
    | none =>
        have hstore : m.backend.store = m.store := rfl
        cases hcompile : Selector.compile
            (compileQuery c sorters filters m.config.sizeLimit).value.selector with
        | error fault => simp only [Backend.observe, hwilling, Store.observe, hcompile]
        | ok selector =>
            simp only [Backend.observe, hwilling, Store.observe, Store.matched, Store.find,
              hcompile]
            rfl
  · rfl

end

variable {m n : Model}

theorem Keeps.response_eq (h : m.Keeps n) (c : Components) (sorters : List Sorter)
    (filters : List Filter) : n.response c sorters filters = m.response c sorters filters := by
  simp only [Model.response_eq, Store.hasCollection, Store.documents, h.collections, h.config,
    h.destroyed, h.observeRefusal]
  rfl

theorem Keeps.complaints_eq (h : m.Keeps n) (c : Components) (sorters : List Sorter)
    (filters : List Filter) :
    n.complaints c sorters filters = m.complaints c sorters filters := by
  simp only [complaints, h.response_eq, h.config]

end Model

/-! ## What is raised -/

/-- An error as it is reported on the model and on a binding. -/
def Emission.reports (id : BindingId) (e : BindingError) : List Emission :=
  [.model (.parseError e.message), .binding id (.parseError e.message)]

namespace Model

variable {m n : Model} {c : Components} {sorters : List Sorter} {filters : List Filter}

theorem emitted_report (m : Model) (e : BindingError) (id : BindingId) :
    (m.report e (some id)).emitted = m.emitted ++ Emission.reports id e :=
  List.append_assoc m.emitted [_] [_]

theorem emitted_reportAll (m : Model) (errors : List BindingError) (id : BindingId) :
    (m.reportAll errors (some id)).emitted =
      m.emitted ++ errors.flatMap (Emission.reports id) := by
  induction errors generalizing m with
  | nil => exact (List.append_nil _).symm
  | cons e rest ih =>
      rw [List.flatMap_cons, ← List.append_assoc, ← emitted_report]
      exact ih (m.report e (some id))

theorem fst_observe {b : Backend} {name : String} {query : Query} {feed : FeedId}
    (h : (b.observe name query).1 = .ok feed) : feed = b.store.nextFeed := by
  simp only [Backend.observe] at h
  split at h
  · cases h
  split at h
  · cases h
  next opened s hopened =>
    obtain ⟨-, -, hfeed, -⟩ := Store.observe_eq_ok hopened
    exact (Except.ok.inj h).symm.trans hfeed

theorem subscribe_eq (m : Model) (c : Components) (sorters : List Sorter)
    (filters : List Filter) (id : BindingId) :
    m.subscribe c sorters filters id =
      let compiled := compileQuery c sorters filters m.config.sizeLimit
      let asked := { m.reportAll compiled.diagnostics (some id) with
        backend := (m.backend.observe c.collection compiled.value).2 }
      match m.response c sorters filters with
      | .ended => (.error .modelDestroyed, m)
      | .unknown =>
          (.error (.unknownCollection c.collection),
            m.report (.unknownCollection c.collection) (some id))
      | .refused e => (.error (.store e), asked)
      | .begun _ =>
          (.ok (⟨c.collection, compiled.value⟩,
              ⟨c.collection, compiled.value, m.store.nextFeed⟩),
            { asked with feeds := m.feeds ++ [m.store.nextFeed] }) := by
  unfold subscribe query response
  by_cases halive : m.destroyed = true
  · simp only [if_pos halive]
  by_cases hcollection : m.store.hasCollection c.collection = true
  · obtain ⟨emitted, hreport⟩ := OnlyRaises.reportAll m
      (compileQuery c sorters filters m.config.sizeLimit).diagnostics (some id)
    simp only [if_neg halive, if_pos hcollection, hreport]
    cases hobserve : m.backend.observe c.collection
        (compileQuery c sorters filters m.config.sizeLimit).value with
    | mk result backend =>
        cases result with
        | error e => rfl
        | ok feed =>
            have hfeed : feed = m.store.nextFeed := fst_observe (congrArg Prod.fst hobserve)
            subst hfeed
            rfl
  · simp only [if_neg halive, if_neg hcollection]

theorem emitted_subscribe (m : Model) (c : Components) (sorters : List Sorter)
    (filters : List Filter) (id : BindingId) :
    (m.subscribe c sorters filters id).2.emitted =
      m.emitted ++ (m.complaints c sorters filters).flatMap (Emission.reports id) := by
  rw [subscribe_eq, complaints]
  cases m.response c sorters filters with
  | ended => exact (List.append_nil _).symm
  | unknown =>
      rw [List.flatMap_singleton]
      exact m.emitted_report _ id
  | refused e => exact m.emitted_reportAll _ id
  | begun documents => exact m.emitted_reportAll _ id

theorem emitted_fail_of_subscribe {id : BindingId} {e : BindingError}
    (h : m.subscribe c sorters filters id = (.error e, n)) :
    (QueryCore.fail id n e).emitted =
      n.emitted ++ (m.response c sorters filters).events.map (.binding id) := by
  rw [subscribe_eq] at h
  cases hresponse : m.response c sorters filters with
  | begun documents =>
      rw [hresponse] at h
      cases h
  | refused fault =>
      rw [hresponse] at h
      cases h
      rfl
  | ended =>
      rw [hresponse] at h
      cases h
      exact (List.append_nil _).symm
  | unknown =>
      rw [hresponse] at h
      cases h
      exact (List.append_nil _).symm

/-- A live query that begins holds the additions of the documents on its feed. -/
theorem begun_of_subscribe
    (hused : ∀ feed ∈ m.store.live.map LiveQuery.feed, feed < m.store.nextFeed)
    {id : BindingId} {cursor : Cursor} {subscription : Subscription}
    (h : m.subscribe c sorters filters id = (.ok (cursor, subscription), n)) :
    ∃ results : Results, m.response c sorters filters = .begun (results.map Prod.snd) ∧
      n.store.pending subscription.feed = results.map fun r => .added r.1 r.2 none := by
  obtain ⟨selector, hselector, hfeed, hstore⟩ := store_of_subscribe h
  refine ⟨_, ?_, by rw [hstore, hfeed, Store.pending_opening hused]⟩
  rw [subscribe_eq] at h
  cases hresponse : m.response c sorters filters with
  | begun documents =>
      rw [response_eq] at hresponse
      simp only [hselector] at hresponse
      split at hresponse
      · cases hresponse
      split at hresponse
      · split at hresponse
        · cases hresponse
        · next heq => cases heq
        · next heq =>
            cases heq
            exact hresponse.symm
      · cases hresponse
  | _ =>
      rw [hresponse] at h
      cases h

end Model

namespace QueryCore

variable {core : QueryCore} {m : Model}

/-- Additions are passed on as data that came in, whatever the view shows. -/
theorem emitted_dispatch_received (id : BindingId) (m : Model) (mode : SyncMode)
    (results : Results) :
    (dispatch id m ((results.map fun r => .added r.1 r.2 none).flatMap
      (Synchronizer.notificationsOf mode))).emitted =
        m.emitted ++
          (results.flatMap fun _ => [.dataReceived, .change .add]).map (.binding id) := by
  have hreceived : ∀ r : DocumentId × Json,
      (Synchronizer.notificationsOf mode (.added r.1 r.2 none)).flatMap
        (Notification.raised id m.members) =
          [.binding id .dataReceived, .binding id (.change .add)] := by
    intro r
    cases mode <;> rfl
  rw [emitted_dispatch, List.flatMap_map, List.flatMap_assoc, List.map_flatMap]
  simp only [hreceived]
  rfl

theorem emitted_process {subscription : Subscription} {results : Results}
    (hsubscription : core.subscription? = some subscription)
    (hpending : m.store.pending subscription.feed = results.map fun r => .added r.1 r.2 none) :
    (core.process m).2.2.emitted =
      m.emitted ++
        (results.flatMap fun _ => [.dataReceived, .change .add]).map (.binding core.id) := by
  have hinUse : core.sync.isDestroyed = false := isDestroyed_of_subscription? hsubscription
  have hdrained : (m.store.drain subscription.feed).1 =
      results.map fun r => .added r.1 r.2 none := hpending
  simp only [process, hsubscription, Synchronizer.fst_applyAll hinUse, hdrained]
  exact emitted_dispatch_received core.id _ core.sync.mode results

/-- What is raised in the course of a new query: the old view is gone, what there is to complain
of is reported, and the answer is passed on. -/
theorem emitted_run (hinUse : core.isDestroyed = false) (hm : m.store.Consistent)
    (c : Components) (sorters : List Sorter) (filters : List Filter) :
    (core.run m c sorters filters).2.emitted =
      m.emitted ++ [.binding core.id (.change .remove)] ++
        (m.complaints c sorters filters).flatMap (Emission.reports core.id) ++
        (m.response c sorters filters).events.map (.binding core.id) := by
  have hkeeps := core.keeps_asking m
  have hconsistent := hkeeps.consistent hm
  have hemitted : (core.asking m).emitted = m.emitted ++ [.binding core.id (.change .remove)] :=
    rfl
  have hsubscribe := (core.asking m).emitted_subscribe c sorters filters core.id
  rw [← hkeeps.response_eq, ← hkeeps.complaints_eq, ← hemitted, run_of_inUse hinUse]
  split
  · next cursor subscription n heq =>
      rw [heq] at hsubscribe
      obtain ⟨results, hresponse, hpending⟩ :=
        begun_of_subscribe (List.forall_mem_map.mpr hconsistent.used) heq
      rw [emitted_process rfl hpending, hsubscribe, hresponse, Response.events, List.flatMap_map]
  · next e n heq =>
      rw [heq] at hsubscribe
      rw [emitted_fail_of_subscribe heq, hsubscribe]

theorem run_of_not_begun (hinUse : core.isDestroyed = false) {c : Components}
    {sorters : List Sorter} {filters : List Filter} (hm : m.store.Consistent)
    (h : ∀ documents, m.response c sorters filters ≠ .begun documents) :
    (core.run m c sorters filters).1.sync.contexts = [] ∧
      (core.run m c sorters filters).1.subscription? = none := by
  have hkeeps := core.keeps_asking m
  rw [run_of_inUse hinUse]
  split
  · next cursor subscription n heq =>
      obtain ⟨results, hresponse, -⟩ :=
        begun_of_subscribe (List.forall_mem_map.mpr (hkeeps.consistent hm).used) heq
      exact absurd ((hkeeps.response_eq c sorters filters).symm.trans hresponse) (h _)
  · exact ⟨rfl, rfl⟩

end QueryCore

/-! ## What the two hubs hear -/

/-- What the listeners of the model hear of an event that was raised. -/
def Emission.announced? : Emission → Option ModelEvent
  | .model event => some event
  | .binding _ _ => none

/-- The events raised on the model so far. -/
def Model.announced (m : Model) : List ModelEvent := m.emitted.filterMap Emission.announced?

namespace Emission

variable (id : BindingId)

/-- Whoever hears one event of each report hears as many as there are errors. -/
theorem filterMap_reports {α : Type} {hears : Emission → Option α} {event : BindingError → α}
    (h : ∀ e, (reports id e).filterMap hears = [event e]) (errors : List BindingError) :
    (errors.flatMap (reports id)).filterMap hears = errors.map event := by
  induction errors with
  | nil => rfl
  | cons e rest ih =>
      rw [List.flatMap_cons, List.filterMap_append, ih, h, List.map_cons, List.singleton_append]

theorem heardBy?_reports (errors : List BindingError) :
    (errors.flatMap (reports id)).filterMap (heardBy? id) =
      errors.map fun e => .parseError e.message :=
  filterMap_reports id (fun e => by simp [reports, List.filterMap_cons, heardBy?]) errors

theorem announced?_reports (errors : List BindingError) :
    (errors.flatMap (reports id)).filterMap announced? =
      errors.map fun e => .parseError e.message :=
  filterMap_reports id (fun _ => rfl) errors

theorem heardBy?_binding (events : List BindingEvent) :
    (events.map (binding id)).filterMap (heardBy? id) = events := by
  simp [List.filterMap_map, Function.comp_def, heardBy?]

theorem announced?_binding (events : List BindingEvent) :
    (events.map (binding id)).filterMap announced? = [] := by
  simp [List.filterMap_map, Function.comp_def, announced?]

end Emission

theorem QueryCore.heardOn_run {core : QueryCore} {m : Model} (hinUse : core.isDestroyed = false)
    (hm : m.store.Consistent) (c : Components) (sorters : List Sorter) (filters : List Filter) :
    (core.run m c sorters filters).2.heardOn core.id =
      m.heardOn core.id ++ .change .remove ::
        ((m.complaints c sorters filters).map (fun e => .parseError e.message) ++
          (m.response c sorters filters).events) := by
  rw [heardOn, emitted_run hinUse hm]
  simp only [List.filterMap_append, Emission.heardBy?_reports, Emission.heardBy?_binding,
    List.append_assoc]
  simp [heardOn, Emission.heardBy?]

theorem QueryCore.announced_run {core : QueryCore} {m : Model}
    (hinUse : core.isDestroyed = false) (hm : m.store.Consistent) (c : Components)
    (sorters : List Sorter) (filters : List Filter) :
    (core.run m c sorters filters).2.announced =
      m.announced ++ (m.complaints c sorters filters).map fun e => .parseError e.message := by
  rw [announced, emitted_run hinUse hm]
  simp only [List.filterMap_append, Emission.announced?_reports, Emission.announced?_binding,
    List.append_nil]
  simp [announced, List.filterMap_cons, Emission.announced?]

/-! ## Lists of documents -/

/-- Whether the action has a list of documents queried anew. -/
def ListAction.Requeries : ListAction → Prop
  | filter _ => True
  | sort _ => True
  | refresh force => force = true
  | _ => False

namespace DocumentList

/-- The list as it is to be queried. -/
def given (b : DocumentList) : ListAction → DocumentList
  | .filter filters => { b with filters := filters }
  | .sort sorters => { b with sorters := sorters }
  | _ => b

theorem act_of_requeries {b : DocumentList} (hinUse : b.core.isDestroyed = false) (m : Model)
    {action : ListAction} (haction : action.Requeries) :
    act (b, m) action =
      ({ b.given action with
        core := (b.core.run m b.components (b.given action).sorters (b.given action).filters).1 },
        (b.core.run m b.components (b.given action).sorters (b.given action).filters).2) := by
  have hrequery : ∀ other : DocumentList, other.core = b.core → other.requery m =
      ({ other with core := (b.core.run m other.components other.sorters other.filters).1 },
        (b.core.run m other.components other.sorters other.filters).2) := by
    intro other hother
    rw [requery, hother, hinUse]
    rfl
  cases action with
  | store operation => exact absurd haction not_false
  | filter filters => exact hrequery { b with filters := filters } rfl
  | sort sorters => exact hrequery { b with sorters := sorters } rfl
  | refresh force =>
      obtain rfl : force = true := haction
      exact hrequery b rfl
  | process => exact absurd haction not_false

/-- What is heard of a list that is queried anew, be it with other filters, with other sorters or
by force: its documents are gone, then come the complaints one by one, and then the answer. The
listeners of the model hear the same complaints and nothing else. A list whose query did not begin
shows nothing and follows nothing. -/
theorem heard_of_requery (b : DocumentList) (m : Model) (action : ListAction)
    (hstore : m.store.Reachable) (hinUse : b.core.isDestroyed = false)
    (haction : action.Requeries) :
    let asked := b.given action
    let complaints := m.complaints b.components asked.sorters asked.filters
    let response := m.response b.components asked.sorters asked.filters
    let after := act (b, m) action
    after.2.heardOn b.core.id = m.heardOn b.core.id ++
        .change .remove :: (complaints.map (fun e => .parseError e.message) ++ response.events) ∧
      after.2.announced = m.announced ++ complaints.map (fun e => .parseError e.message) ∧
      ((∀ documents, response ≠ .begun documents) →
        after.1.contexts = [] ∧ after.1.core.subscription? = none) ∧
      (compileQuery b.components asked.sorters asked.filters m.config.sizeLimit).diagnostics =
        (if b.components.documentId.isSome then []
          else asked.filters.filterMap Filter.rejection?) ++
          asked.sorters.filterMap Sorter.rejection? := by
  intro asked complaints response after
  have hafter : after = _ := act_of_requeries hinUse m haction
  refine ⟨?_, ?_, fun hnot => ?_, diagnostics_compileQuery _ _ _ _⟩
  · rw [hafter]
    exact QueryCore.heardOn_run hinUse hstore.consistent b.components asked.sorters asked.filters
  · rw [hafter]
    exact QueryCore.announced_run hinUse hstore.consistent b.components asked.sorters
      asked.filters
  · rw [hafter]
    exact QueryCore.run_of_not_begun hinUse hstore.consistent hnot

/-- A list of documents that has never been queried. -/
def unread : DocumentList :=
  ⟨"/A", ⟨"A", none, ""⟩, [], [], ⟨0, .start (.documents "/A"), none⟩⟩

/-- The stocked model with a store that follows no query. -/
def unwilling : Model :=
  { stocked with backend := { stocked.backend with observeRefusal := some "busy" } }

/-- A filter that cannot be used, next to one that can. -/
def halfUsable : ListAction :=
  .filter [⟨"size", .other "~", .null, none, false⟩, ⟨"_id", .ne, .string "c", none, false⟩]

/-- The filter that cannot be used is told on both hubs, and the document that the other one
lets through is told on the list. If the store refuses, that is told instead. -/
theorem heard_of_requery_halfUsable :
    (act (unread, stocked) halfUsable).2.heardOn 0 =
        [.change .remove, .parseError "filter operator ~ not supported", .dataReceived,
          .change .add] ∧
      (act (unread, stocked) halfUsable).2.announced =
        [.parseError "filter operator ~ not supported"] ∧
      (act (unread, unwilling) halfUsable).2.heardOn 0 =
        [.change .remove, .parseError "filter operator ~ not supported",
          .requestFailed "document store error: invalid selector: busy"] ∧
      (act (unread, unwilling) halfUsable).1.contexts = [] := by
  obtain ⟨hheard, hannounced, -, -⟩ :=
    heard_of_requery unread stocked halfUsable ⟨Store.stocking, rfl⟩ rfl trivial
  obtain ⟨hrefused, -, hempty, -⟩ :=
    heard_of_requery unread unwilling halfUsable ⟨Store.stocking, rfl⟩ rfl trivial
  have hresponse : unwilling.response unread.components (unread.given halfUsable).sorters
      (unread.given halfUsable).filters = .refused (Backend.refusal "busy") := rfl
  refine ⟨hheard.trans (by decide +kernel), hannounced.trans (by decide +kernel),
    hrefused.trans (by decide +kernel), (hempty fun documents => ?_).1⟩
  rw [hresponse]
  exact nofun

end DocumentList

end LiveDocuments
