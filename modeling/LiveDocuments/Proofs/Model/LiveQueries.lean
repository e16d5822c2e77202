import LiveDocuments.Proofs.Model.Asking
import LiveDocuments.Proofs.Session.Ledger
import LiveDocuments.Proofs.Session.Run

/-!
# The ledger of a model

A model keeps the ledger of the live queries it opened. What the operations of the model and
of its store do to the ledger is told here, and when a query that is asked for will be
granted (`Model.grants`).
-/

namespace LiveDocuments

namespace Model

/-- What the ledger has to know of a model. -/
def ledger (m : Model) : Ledger where
  live := m.store.live.map LiveQuery.feed
  known := m.feeds
  nextFeed := m.store.nextFeed
  stopped := m.store.stopped
  nextBinding := m.nextBinding
  destroyed := m.destroyed

theorem OnlyAsks.ledger_eq {m n : Model} (h : m.OnlyAsks n) : n.ledger = m.ledger := by
  rcases h with ⟨_, _, _, rfl⟩
  rfl

theorem OnlyRaises.ledger_eq {m n : Model} (h : m.OnlyRaises n) : n.ledger = m.ledger :=
  (OnlyAsks.of_onlyRaises h).ledger_eq

theorem ledger_write (m : Model) (write : Write) :
    (m.withStore (m.store.step write.operation)).ledger = m.ledger := by
  obtain ⟨hlive, hfeed, hstopped⟩ := m.store.write_operation_eq write
  show Ledger.mk _ m.feeds _ _ m.nextBinding m.destroyed = _
  rw [ledger, ← hlive, ← hfeed, ← hstopped]
  rfl

theorem ledger_drain (m : Model) (feed : FeedId) :
    (m.withStore (m.store.drain feed).2).ledger = m.ledger := by
  show Ledger.mk ((m.store.requeue feed fun _ => []).live.map LiveQuery.feed) _ _ _ _ _ = _
  rw [Store.map_feed_requeue]
  rfl

theorem ledger_stop (m : Model) (feed : FeedId) :
    (m.withStore (m.store.stop feed)).ledger = m.ledger.stop feed := by
  unfold Store.stop Ledger.stop
  by_cases h : m.store.isActive feed
  · have hlive : feed ∈ m.ledger.live := (m.store.isActive_iff feed).mp h
    rw [if_pos h, if_pos hlive]
    show Ledger.mk ((m.store.drop feed).live.map LiveQuery.feed) _ _ _ _ _ = _
    rw [Store.map_feed_drop]
    rfl
  · have hlive : feed ∉ m.ledger.live := mt (m.store.isActive_iff feed).mpr h
    rw [if_neg h, if_neg hlive]
    rfl

theorem ledger_stopFeeds (m : Model) (feeds : List FeedId) :
    (m.stopFeeds feeds).ledger = m.ledger.stopAll feeds := by
  induction feeds generalizing m with
  | nil => rfl
  | cons feed rest ih =>
      rw [Ledger.stopAll_cons, ← ledger_stop]
      exact ih (m.withStore (m.store.stop feed))

theorem ledger_destroy (m : Model) : m.destroy.ledger = m.ledger.closing := by
  have hstopped := ledger_stopFeeds m m.feeds
  unfold destroy Ledger.closing
  split
  · next h => exact (if_pos h).symm
  · next h =>
      refine Eq.trans ?_ (if_neg h).symm
      show { (m.stopFeeds m.feeds).ledger with known := [], destroyed := true } = _
      rw [hstopped]
      rfl

/-! ## Attempts that are granted -/

/-- Whether the store will be asked for a live query, and will agree. -/
def grants (m : Model) (c : Components) (sorters : List Sorter) (filters : List Filter) : Bool :=
  !m.destroyed && m.store.hasCollection c.collection && m.backend.observeRefusal.isNone &&
    (Selector.compile (compileQuery c sorters filters m.config.sizeLimit).value.selector).isOk

variable {m n : Model} {c : Components} {sorters : List Sorter} {filters : List Filter}

theorem Keeps.grants_eq (h : m.Keeps n) (c : Components) (sorters : List Sorter)
    (filters : List Filter) : n.grants c sorters filters = m.grants c sorters filters := by
  simp only [grants, Store.hasCollection, h.collections, h.config, h.destroyed,
    h.observeRefusal]

theorem alive_of_grants (h : m.grants c sorters filters = true) : m.ledger.destroyed = false := by
  simp only [grants, Bool.and_eq_true, Bool.not_eq_true'] at h
  exact h.1.1.1

theorem subscribe_of_grants (h : m.grants c sorters filters = true) (binding : BindingId) :
    ∃ cursor subscription n, m.subscribe c sorters filters binding =
        (.ok (cursor, subscription), n) ∧
      subscription.feed = m.ledger.nextFeed ∧ n.ledger = m.ledger.opening := by
  simp only [grants, Bool.and_eq_true, Bool.not_eq_true', Option.isNone_iff_eq_none] at h
  obtain ⟨⟨⟨halive, hcollection⟩, hwilling⟩, hselector⟩ := h
  have hquery := query_of_known halive hcollection sorters filters (some binding)
  obtain ⟨emitted, hreport⟩ := OnlyRaises.reportAll m
    (compileQuery c sorters filters m.config.sizeLimit).diagnostics (some binding)
  cases hcompile :
      Selector.compile (compileQuery c sorters filters m.config.sizeLimit).value.selector with
  | error fault =>
      rw [hcompile] at hselector
      cases hselector
  | ok selector =>
      have hobserve : m.backend.store.observe c.collection
          (compileQuery c sorters filters m.config.sizeLimit).value =
            .ok (m.store.nextFeed, m.store.opening (m.store.opened c.collection
              (compileQuery c sorters filters m.config.sizeLimit).value selector)) := by
        simp only [Store.observe, hcompile]
        rfl
      simp only [subscribe, hquery, hreport, Backend.observe, hwilling, hobserve]
      exact ⟨_, _, _, rfl, rfl, by simp [ledger, store, Store.opening, Store.opened,
        Ledger.opening]⟩

theorem subscribe_of_not_grants (h : m.grants c sorters filters = false) (binding : BindingId) :
    ∃ e n, m.subscribe c sorters filters binding = (.error e, n) ∧ n.ledger = m.ledger := by
  cases halive : m.destroyed with
  | true =>
      simp only [subscribe, query, if_pos halive]
      exact ⟨_, _, rfl, rfl⟩
  | false =>
      cases hcollection : m.store.hasCollection c.collection with
      | false =>
          simp only [subscribe, query_of_unknown halive hcollection]
          exact ⟨_, _, rfl, (OnlyRaises.report m _ (some binding)).ledger_eq⟩
      | true =>
          have hquery := query_of_known halive hcollection sorters filters (some binding)
          obtain ⟨emitted, hreport⟩ := OnlyRaises.reportAll m
            (compileQuery c sorters filters m.config.sizeLimit).diagnostics (some binding)
          cases hwilling : m.backend.observeRefusal with
          | some reason =>
              simp only [subscribe, hquery, hreport, Backend.observe, hwilling]
              exact ⟨_, _, rfl, rfl⟩
          | none =>
              cases hcompile : Selector.compile
                  (compileQuery c sorters filters m.config.sizeLimit).value.selector with
              | ok selector =>
                  rw [grants, halive, hcollection, hwilling, hcompile] at h
                  cases h
              | error fault =>
                  have hobserve : m.backend.store.observe c.collection
                      (compileQuery c sorters filters m.config.sizeLimit).value =
                        .error (.invalidSelector fault) := by
                    simp only [Store.observe, hcompile]
                  simp only [subscribe, hquery, hreport, Backend.observe, hwilling, hobserve]
                  exact ⟨_, _, rfl, rfl⟩

end Model

end LiveDocuments
