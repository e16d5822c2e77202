import LiveDocuments.Proofs.Binding.Turns
import LiveDocuments.Proofs.Model.Course

/-!
# The courses that bindings take

Whatever is asked of a binding, it takes its model through a course of steps on its own
behalf (`Binding.course_act`), and so does making a binding. Only processing tells all
bindings to read again, once for each change on the feed that calls for it
(`Binding.requests`): a feed that has just been opened holds nothing but additions.
-/

namespace LiveDocuments

open Model

/-! ## The part that follows a query -/

namespace Synchronizer

/-- Whether a change is passed on as a refresh of the model. -/
def callsForRefresh (mode : SyncMode) (event : ChangeEvent) : Bool :=
  (notificationsOf mode event).contains .refreshRequested

/-- The contexts that a view takes from the cache are for paths with the property. -/
def Hands (P : String → Prop) (s : Synchronizer) : Prop :=
  ∀ base, s.mode = .documents base → ∀ id, P (documentPath base id)

theorem count_notificationsOf (mode : SyncMode) (event : ChangeEvent) :
    (notificationsOf mode event).count .refreshRequested =
      (callsForRefresh mode event).toNat := by
  cases mode <;> cases event <;> rfl

theorem fst_applyAll {s : Synchronizer} (h : s.isDestroyed = false) (cache : ContextCache)
    (events : List ChangeEvent) :
    (s.applyAll cache events).1 = events.flatMap (notificationsOf s.mode) := by
  induction events generalizing s cache with
  | nil => rfl
  | cons event rest ih =>
      have hnotes : (s.apply cache event).1 = notificationsOf s.mode event := by
        rw [apply, h]
        rfl
      have hnext : (s.apply cache event).2.1.isDestroyed = false := by
        rw [isDestroyed, phase_apply]
        exact h
      show (s.apply cache event).1 ++ ((s.apply cache event).2.1.applyAll _ rest).1 = _
      rw [hnotes, ih hnext, mode_apply, List.flatMap_cons]

/-- A view that is in use asks for as many refreshes as there are changes that call for
one. -/
theorem count_applyAll {s : Synchronizer} (h : s.isDestroyed = false) (cache : ContextCache)
    (events : List ChangeEvent) :
    (s.applyAll cache events).1.count .refreshRequested =
      events.countP (callsForRefresh s.mode) := by
  rw [fst_applyAll h]
  induction events with
  | nil => rfl
  | cons event rest ih =>
      rw [List.flatMap_cons, List.count_append, count_notificationsOf, ih, List.countP_cons,
        Nat.add_comm]
      cases callsForRefresh s.mode event <;> rfl

end Synchronizer

namespace QueryCore

/-- How often processing tells all bindings to read again. -/
def requests (core : QueryCore) (m : Model) : Nat :=
  match core.subscription? with
  | none => 0
  | some subscription =>
      (m.store.pending subscription.feed).countP (Synchronizer.callsForRefresh core.sync.mode)

theorem isDestroyed_of_subscription? {core : QueryCore} {subscription : Subscription}
    (h : core.subscription? = some subscription) : core.isDestroyed = false := by
  obtain ⟨id, ⟨mode, phase, contexts⟩, cursor⟩ := core
  cases phase with
  | subscribed held => rfl
  | _ => cases h

theorem requests_of_added {core : QueryCore} {m : Model}
    (h : ∀ subscription, core.subscription? = some subscription →
      ∀ event ∈ m.store.pending subscription.feed, ∃ id fields, event = .added id fields none) :
    core.requests m = 0 := by
  unfold requests
  split
  · rfl
  · next subscription hsubscription =>
      rw [List.countP_eq_zero]
      intro event hevent
      obtain ⟨id, fields, rfl⟩ := h subscription hsubscription event hevent
      cases core.sync.mode <;> exact Bool.false_ne_true

end QueryCore

/-- A feed that has just been opened holds the additions of what was found. -/
theorem Store.pending_opening {s : Store}
    (hused : ∀ feed ∈ s.live.map LiveQuery.feed, feed < s.nextFeed) (name : String)
    (query : Query) (selector : Selector) :
    (s.opening (s.opened name query selector)).pending s.nextFeed =
      (s.opened name query selector).results.map fun r => .added r.1 r.2 none := by
  rw [pending, find?_opening hused rfl]
  rfl

namespace Model

variable {l : Licence} {m n : Model} {k : Nat}

/-- What is subscribed to has just been opened, for the query that was made. -/
theorem store_of_subscribe {c : Components} {sorters : List Sorter} {filters : List Filter}
    {binding : BindingId} {cursor : Cursor} {subscription : Subscription}
    (h : m.subscribe c sorters filters binding = (.ok (cursor, subscription), n)) :
    let query := (compileQuery c sorters filters m.config.sizeLimit).value
    ∃ selector, Selector.compile query.selector = .ok selector ∧
      subscription.feed = m.store.nextFeed ∧
      n.store = m.store.opening (m.store.opened c.collection query selector) := by
  have hquery := OnlyRaises.query m c sorters filters (some binding)
  unfold subscribe at h
  split at h
  · cases h
  next made o heq =>
    obtain rfl := cursor_of_query heq
    rw [heq] at hquery
    obtain ⟨emitted, rfl⟩ := hquery
    split at h
    · cases h
    next feed backend hobserve =>
      cases h
      simp only [Backend.observe] at hobserve
      split at hobserve
      · cases hobserve
      split at hobserve
      · cases hobserve
      next opened s hopened =>
        cases hobserve
        obtain ⟨selector, hselector, hfeed, hstore⟩ := Store.observe_eq_ok hopened
        exact ⟨selector, hselector, hfeed, hstore⟩

namespace Course

theorem withStore (h : Course l m k n) (store : Store) : Course l m k (n.withStore store) :=
  h.settle { n.backend with store := store } n.feeds rfl

theorem stopFeeds (h : Course l m k n) (feeds : List FeedId) :
    Course l m k (n.stopFeeds feeds) := h.withStore _

theorem applyAll (h : Course l m k n) {s : Synchronizer} (hs : s.Hands l.hands)
    (events : List ChangeEvent) :
    Course l m k { n with contexts := (s.applyAll n.contexts events).2.2 } := by
  induction events generalizing n s with
  | nil => exact h
  | cons event rest ih =>
      have happly : Course l m k { n with contexts := (s.apply n.contexts event).2.2 } := by
        unfold Synchronizer.apply Synchronizer.contextsAfter
        split
        · exact h
        cases event with
        | added id fields before =>
            cases hmode : s.mode with
            | documents base => exact h.handOut (hs base hmode id)
            | elements => exact h
            | single => exact h
        | changed id fields => exact h
        | removed id => cases s.mode <;> exact h
      have hnext : (s.apply n.contexts event).2.1.Hands l.hands := by
        intro base hmode
        rw [Synchronizer.mode_apply] at hmode
        exact hs base hmode
      exact ih happly hnext

theorem dispatch (h : Course l m k n) {id : BindingId} (hid : id = l.binding)
    (notifications : List Notification) :
    Course l m (k + notifications.count .refreshRequested)
      (QueryCore.dispatch id n notifications) := by
  subst hid
  induction notifications generalizing n k with
  | nil => exact h
  | cons notification rest ih =>
      rw [List.count_cons, Nat.add_comm (rest.count _), ← Nat.add_assoc]
      cases notification with
      | dataReceived => exact ih (h.tell _)
      | change reason => exact ih (h.tell _)
      | refreshRequested => exact ih h.refresh

theorem process (h : Course l m k n) {core : QueryCore} (hid : core.id = l.binding)
    (hs : core.sync.Hands l.hands) : Course l m (k + core.requests n) (core.process n).2.2 := by
  unfold QueryCore.process QueryCore.requests
  cases hsubscription : core.subscription? with
  | none => exact h
  | some subscription =>
      have hinUse : core.sync.isDestroyed = false :=
        QueryCore.isDestroyed_of_subscription? hsubscription
      have happlied := (h.withStore (n.store.drain subscription.feed).2).applyAll hs
        (n.store.drain subscription.feed).1
      have hdispatched := happlied.dispatch hid
        (core.sync.applyAll n.contexts (n.store.drain subscription.feed).1).1
      rw [Synchronizer.count_applyAll hinUse] at hdispatched
      exact hdispatched

theorem fail (h : Course l m k n) {id : BindingId} (hid : id = l.binding)
    (error : BindingError) : Course l m k (QueryCore.fail id n error) := by
  subst hid
  unfold QueryCore.fail
  split
  · exact h
  · exact h
  · exact h
  · exact h.tell _

theorem reset (h : Course l m k n) (core : QueryCore) {id : BindingId} (hid : id = l.binding) :
    Course l m k (QueryCore.dispatch id (core.reset n).2.2 (core.reset n).1) := by
  have hstopped : Course l m k (core.reset n).2.2 := h.stopFeeds core.sync.begin.2.1
  have hnone : (core.reset n).1.count .refreshRequested = 0 := by
    simp only [QueryCore.reset, Synchronizer.begin]
    split <;> rfl
  have hdispatched := hstopped.dispatch hid (core.reset n).1
  rwa [hnone] at hdispatched

end Course

end Model

namespace QueryCore

theorem mode_reset (core : QueryCore) (m : Model) :
    (core.reset m).2.1.sync.mode = core.sync.mode := core.sync.mode_begin

theorem mode_process (core : QueryCore) (m : Model) :
    (core.process m).2.1.sync.mode = core.sync.mode := by
  unfold process
  split
  · rfl
  · exact core.sync.mode_applyAll _ _

theorem mode_run (core : QueryCore) (m : Model) (c : Components) (sorters : List Sorter)
    (filters : List Filter) : (core.run m c sorters filters).1.sync.mode = core.sync.mode := by
  have hreset := core.mode_reset m
  unfold run
  split
  next notifications fresh n heq =>
  rw [heq] at hreset
  dsimp only
  split
  · next subscription followed _ =>
      exact (mode_process _ _).trans ((fresh.sync.mode_attach subscription).trans hreset)
  · exact fresh.sync.mode_abandon.trans hreset

theorem mode_clear (core : QueryCore) (m : Model) :
    (core.clear m).1.sync.mode = core.sync.mode :=
  (Synchronizer.mode_abandon _).trans (core.mode_reset m)

theorem attach_of_subscription? {core fresh : QueryCore}
    (hfresh : fresh.follower = ⟨[], core.isDestroyed⟩) {subscription other : Subscription}
    (h : (fresh.sync.attach subscription).2.subscription? = some other) :
    (fresh.sync.attach subscription).1 = [] ∧ other = subscription := by
  obtain ⟨id, ⟨mode, phase, contexts⟩, cursor⟩ := fresh
  cases phase with
  | subscribed held => cases hfresh
  | destroyed => cases h
  | idle => exact ⟨rfl, (Option.some.inj h).symm⟩
  | querying => exact ⟨rfl, (Option.some.inj h).symm⟩

end QueryCore

namespace Model

variable {l : Licence} {m n : Model} {k : Nat}

namespace Course

/-- A new query, whatever comes of it, makes nobody read again: its feed holds nothing but
additions. -/
theorem run (h : Course l m k n) (hl : l.Covers m) {core : QueryCore}
    (hid : core.id = l.binding) (hs : core.sync.Hands l.hands) (hsound : n.ledger.Sound)
    (c : Components) (sorters : List Sorter) (filters : List Filter) :
    Course l m k (core.run n c sorters filters).2 := by
  obtain ⟨hstopped, hfresh, hsame⟩ := core.reset_eq n
  have hmode := core.mode_reset n
  have hreset := h.reset core (hsame.trans hid)
  have hasking : (QueryCore.dispatch (core.reset n).2.1.id (core.reset n).2.2
      (core.reset n).1).ledger.Sound := by
    rw [(QueryCore.onlyRaises_dispatch _ _ _).ledger_eq, ← hstopped, ledger_stopFeeds]
    exact hsound.stopAll core.follower.feeds
  unfold QueryCore.run
  split
  next notifications fresh o heq =>
  rw [heq] at hreset hfresh hsame hmode hasking
  dsimp only at hreset hfresh hsame hmode hasking ⊢
  generalize QueryCore.dispatch fresh.id o notifications = asking at *
  have hnumber : fresh.id = l.binding := hsame.trans hid
  have hsubscribe := hreset.subscribe hl c sorters filters
  rw [← hnumber] at hsubscribe
  split
  · next cursor subscription followed hfound =>
      rw [hfound] at hsubscribe
      obtain ⟨selector, -, hfeed, hstore⟩ := store_of_subscribe hfound
      have hpending := Store.pending_opening hasking.used c.collection
        (compileQuery c sorters filters asking.config.sizeLimit).value selector
      have hhands : (fresh.sync.attach subscription).2.Hands l.hands := by
        intro base hbase
        rw [Synchronizer.mode_attach, hmode] at hbase
        exact hs base hbase
      let attached : QueryCore := ⟨fresh.id, (fresh.sync.attach subscription).2, some cursor⟩
      have hrequests :
          attached.requests (followed.stopFeeds (fresh.sync.attach subscription).1) = 0 := by
        refine QueryCore.requests_of_added fun other hother => ?_
        obtain ⟨hnone, rfl⟩ := QueryCore.attach_of_subscription? hfresh hother
        rw [← hstore, ← hfeed] at hpending
        rw [hnone]
        intro event hevent
        rcases List.mem_map.mp (hpending ▸ hevent) with ⟨result, _, rfl⟩
        exact ⟨result.1, result.2, rfl⟩
      have hprocess := (hsubscribe.stopFeeds (fresh.sync.attach subscription).1).process
        (show attached.id = l.binding from hnumber) hhands
      rw [hrequests] at hprocess
      exact hprocess
  · next e failed hfailed =>
      rw [hfailed] at hsubscribe
      exact hsubscribe.fail hnumber e

end Course

end Model

end LiveDocuments
