import LiveDocuments.Synchronizer.Record
import LiveDocuments.Synchronizer.Script
import Mathlib.Data.List.Basic
import Mathlib.Data.List.Perm.Basic

/-!
# The life of a view

A view can be told to begin, to attach a feed, to abandon its query, to take a change, to
pump its feed and to end, in any order. A `Viewing` is a view with all it has to do with:
the cache it draws from, the feeds it was ever offered, and the stops it called. Others use
the same cache and the same feeds meanwhile, so that nothing is known of what a feed will
yield.

The stops it called and the feed it is attached to are together the feeds it was offered,
each of them once (`Viewing.Sound`). Every action keeps that, whatever came before.
-/

namespace LiveDocuments

namespace SyncPhase

theorem isSome_subscription?_iff (phase : SyncPhase) :
    phase.subscription?.isSome ↔ ∃ subscription, phase = .subscribed subscription := by
  cases phase <;> simp [subscription?]

/-- A phase taken apart. -/
def record : SyncPhase → SyncRecord
  | idle => ⟨.idle, none⟩
  | querying => ⟨.querying, none⟩
  | subscribed subscription => ⟨.subscribed, some subscription⟩
  | destroyed => ⟨.destroyed, none⟩

theorem isSome_subscription_record_iff (phase : SyncPhase) :
    phase.record.subscription.isSome ↔ phase.record.stage = .subscribed := by
  cases phase <;> simp [record]

end SyncPhase

namespace Synchronizer

/-! ## Changes leave the phase and the mode alone -/

theorem phase_apply (s : Synchronizer) (cache : ContextCache) (event : ChangeEvent) :
    (s.apply cache event).2.1.phase = s.phase := by
  unfold apply
  split <;> rfl

theorem phase_applyAll (s : Synchronizer) (cache : ContextCache) (events : List ChangeEvent) :
    (s.applyAll cache events).2.1.phase = s.phase := by
  induction events generalizing s cache with
  | nil => rfl
  | cons event rest ih => exact (ih _ _).trans (s.phase_apply cache event)

theorem mode_apply (s : Synchronizer) (cache : ContextCache) (event : ChangeEvent) :
    (s.apply cache event).2.1.mode = s.mode := by
  unfold apply
  split <;> rfl

theorem mode_applyAll (s : Synchronizer) (cache : ContextCache) (events : List ChangeEvent) :
    (s.applyAll cache events).2.1.mode = s.mode := by
  induction events generalizing s cache with
  | nil => rfl
  | cons event rest ih => exact (ih _ _).trans (s.mode_apply cache event)

/-! ## What a view is told to do -/

theorem mode_begin (s : Synchronizer) : s.begin.2.2.mode = s.mode := by
  unfold begin
  split <;> rfl

theorem mode_attach (s : Synchronizer) (subscription : Subscription) :
    (s.attach subscription).2.mode = s.mode := by
  unfold attach
  split <;> rfl

theorem mode_abandon (s : Synchronizer) : s.abandon.mode = s.mode := by
  unfold abandon
  split <;> rfl

theorem mode_destroy (s : Synchronizer) : s.destroy.2.mode = s.mode := by
  unfold destroy
  split <;> rfl

theorem isDestroyed_iff (s : Synchronizer) : s.isDestroyed = true ↔ s.phase = .destroyed :=
  beq_iff_eq

theorem isDestroyed_begin (s : Synchronizer) : s.begin.2.2.isDestroyed = s.isDestroyed := by
  unfold begin
  split
  next => rfl
  next hdestroyed => exact (Bool.of_not_eq_true hdestroyed).symm

theorem isDestroyed_attach (s : Synchronizer) (subscription : Subscription) :
    (s.attach subscription).2.isDestroyed = s.isDestroyed := by
  unfold attach
  split
  next => rfl
  next hdestroyed => exact (Bool.of_not_eq_true hdestroyed).symm

theorem isDestroyed_abandon (s : Synchronizer) : s.abandon.isDestroyed = s.isDestroyed := by
  unfold abandon
  split
  next hquerying =>
    rw [isDestroyed, isDestroyed, hquerying]
    rfl
  next => rfl

theorem isDestroyed_destroy (s : Synchronizer) : s.destroy.2.isDestroyed = true := by
  unfold destroy
  split
  next hdestroyed => exact hdestroyed
  next => rfl

/-! ## The record of a view -/

/-- The state of a view and its subscription. -/
def record (s : Synchronizer) : SyncRecord := s.phase.record

theorem record_begin (s : Synchronizer) : s.record.begin = (s.begin.2.1, s.begin.2.2.record) := by
  obtain ⟨mode, phase, contexts⟩ := s
  cases phase <;> rfl

theorem record_attach (s : Synchronizer) (subscription : Subscription) :
    s.record.attach subscription =
      ((s.attach subscription).1, (s.attach subscription).2.record) := by
  obtain ⟨mode, phase, contexts⟩ := s
  cases phase <;> rfl

theorem record_abandon (s : Synchronizer) : s.record.abandon = s.abandon.record := by
  obtain ⟨mode, phase, contexts⟩ := s
  cases phase <;> rfl

theorem record_destroy (s : Synchronizer) :
    s.record.destroy = (s.destroy.1, s.destroy.2.record) := by
  obtain ⟨mode, phase, contexts⟩ := s
  cases phase <;> rfl

/-! ## What a view shows -/

/-- A view has no contexts unless it shows documents, and none once it was destroyed. -/
structure Bare (s : Synchronizer) : Prop where
  plain : (∀ path, s.mode ≠ .documents path) → s.contexts = []
  ended : s.isDestroyed = true → s.contexts = []

namespace Bare

variable {s : Synchronizer}

theorem apply (h : s.Bare) (cache : ContextCache) (event : ChangeEvent) :
    (s.apply cache event).2.1.Bare := by
  unfold Synchronizer.apply
  split
  next => exact h
  next hdestroyed =>
    refine ⟨fun hmode => ?_, fun hended => absurd hended hdestroyed⟩
    have hnone := h.plain hmode
    cases hs : s.mode with
    | documents path => exact absurd hs (hmode path)
    | elements => cases event <;> exact hnone
    | single => cases event <;> exact hnone

theorem applyAll (h : s.Bare) (cache : ContextCache) (events : List ChangeEvent) :
    (s.applyAll cache events).2.1.Bare := by
  induction events generalizing s cache with
  | nil => exact h
  | cons event rest ih => exact ih (h.apply cache event) _

theorem contexts_begin (h : s.Bare) : s.begin.2.2.contexts = [] := by
  unfold begin
  split
  next hdestroyed => exact h.ended hdestroyed
  next => rfl

end Bare

theorem apply_of_isDestroyed {s : Synchronizer} (h : s.isDestroyed = true)
    (cache : ContextCache) (event : ChangeEvent) : (s.apply cache event).1 = [] := by
  rw [apply, if_pos h]

theorem applyAll_of_isDestroyed {s : Synchronizer} (h : s.isDestroyed = true)
    (cache : ContextCache) (events : List ChangeEvent) : (s.applyAll cache events).1 = [] := by
  induction events generalizing s cache with
  | nil => rfl
  | cons event rest ih =>
      have hnext : (s.apply cache event).2.1.isDestroyed = true := by
        rw [isDestroyed, phase_apply]
        exact h
      exact List.append_eq_nil_iff.mpr ⟨apply_of_isDestroyed h cache event, ih hnext _⟩

end Synchronizer

/-! ## A view with its feeds -/

/-- A view, the cache it draws from, the feeds it was offered and the stops it called. A feed
is known by its place among those that were offered, so every offer is of a fresh feed. -/
structure Viewing where
  view : Synchronizer
  cache : ContextCache
  feeds : List ScriptedFeed
  stopped : List Nat

/-- What may happen to a view, and to the cache and the feeds it shares with others. -/
inductive ViewAction where
  | begin
  | attach (collection : String) (query : Query) (feed : ScriptedFeed)
  | abandon
  | apply (event : ChangeEvent)
  | pump
  | destroy
  | ask (path : String)
  | disturb (feed : Nat) (next : ScriptedFeed)

/-- Whether an action offers a feed. -/
def ViewAction.offers : ViewAction → Bool
  | attach .. => true
  | _ => false

namespace SyncRecord

/-- What an action does to a record, and the feeds to stop. A feed that is offered gets the
number. -/
def act (r : SyncRecord) (fresh : Nat) : ViewAction → List Nat × SyncRecord
  | .begin => r.begin
  | .attach collection query _ => r.attach ⟨collection, query, fresh⟩
  | .abandon => ([], r.abandon)
  | .destroy => r.destroy
  | _ => ([], r)

/-- What several actions do to a record. Feeds that are offered are numbered on. -/
def run (r : SyncRecord) (fresh : Nat) : List ViewAction → List Nat × SyncRecord
  | [] => ([], r)
  | action :: rest =>
      let (first, r) := r.act fresh action
      let (others, r) := r.run (fresh + if action.offers then 1 else 0) rest
      (first ++ others, r)

end SyncRecord

namespace Viewing

/-- A new view, offered nothing yet. -/
def start (mode : SyncMode) (cache : ContextCache) : Viewing := ⟨.start mode, cache, [], []⟩

/-- The feed the view is attached to. -/
def attached? (v : Viewing) : Option Nat := v.view.subscription?.map Subscription.feed

/-- Some feeds stopped on behalf of the view. -/
def stop (v : Viewing) (feeds : List Nat) : Viewing :=
  { v with
    feeds := feeds.foldl (fun scripts feed => scripts.modify feed .stop) v.feeds
    stopped := v.stopped ++ feeds }

/-- All that the attached feed yields, taken off it. -/
def drain (v : Viewing) : List ChangeEvent × Viewing :=
  match v.attached? with
  | none => ([], v)
  | some feed =>
      match v.feeds[feed]? with
      | none => ([], v)
      | some script => (script.drain.1, { v with feeds := v.feeds.set feed script.drain.2 })

/-- What the owner of the view is told by an action, and what there is after it. -/
def act (v : Viewing) : ViewAction → List Notification × Viewing
  | .begin =>
      let (told, stops, view) := v.view.begin
      (told, { v with view }.stop stops)
  | .attach collection query feed =>
      let (stops, view) := v.view.attach ⟨collection, query, v.feeds.length⟩
      ([], { v with view, feeds := v.feeds ++ [feed] }.stop stops)
  | .abandon => ([], { v with view := v.view.abandon })
  | .apply event =>
      let (told, view, cache) := v.view.apply v.cache event
      (told, { v with view, cache })
  | .pump =>
      let (events, v) := v.drain
      let (told, view, cache) := v.view.applyAll v.cache events
      (told, { v with view, cache })
  | .destroy =>
      let (stops, view) := v.view.destroy
      ([], { v with view }.stop stops)
  | .ask path => ([], { v with cache := (v.cache.getOrCreate path).2 })
  | .disturb feed next => ([], { v with feeds := v.feeds.set feed next })

/-- What there is after several actions. -/
def run (v : Viewing) (actions : List ViewAction) : Viewing :=
  actions.foldl (fun v action => (v.act action).2) v

@[simp] theorem run_nil (v : Viewing) : v.run [] = v := rfl

theorem run_cons (v : Viewing) (action : ViewAction) (rest : List ViewAction) :
    v.run (action :: rest) = (v.act action).2.run rest := rfl

theorem run_append (v : Viewing) (before after : List ViewAction) :
    v.run (before ++ after) = (v.run before).run after := List.foldl_append

/-! ## One action -/

variable {v : Viewing}

@[simp] theorem view_stop (v : Viewing) (feeds : List Nat) : (v.stop feeds).view = v.view := rfl

@[simp] theorem stopped_stop (v : Viewing) (feeds : List Nat) :
    (v.stop feeds).stopped = v.stopped ++ feeds := rfl

@[simp] theorem stop_nil (v : Viewing) : v.stop [] = v := by
  rw [stop, List.append_nil, List.foldl_nil]

@[simp] theorem length_feeds_stop (v : Viewing) (feeds : List Nat) :
    (v.stop feeds).feeds.length = v.feeds.length := by
  have hstop : ∀ (scripts : List ScriptedFeed),
      (feeds.foldl (fun scripts feed => scripts.modify feed .stop) scripts).length =
        scripts.length := by
    induction feeds with
    | nil => exact fun _ => rfl
    | cons feed rest ih => exact fun scripts => (ih _).trans (List.length_modify ..)
  exact hstop v.feeds

/-- Taking changes off a feed leaves the view, the stops and the count of feeds alone. -/
theorem drain_keeps (v : Viewing) :
    v.drain.2.view = v.view ∧ v.drain.2.stopped = v.stopped ∧
      v.drain.2.feeds.length = v.feeds.length := by
  unfold drain
  split
  · exact ⟨rfl, rfl, rfl⟩
  · split
    · exact ⟨rfl, rfl, rfl⟩
    · exact ⟨rfl, rfl, List.length_set⟩

theorem begin_of_isDestroyed (h : v.view.isDestroyed = true) : v.act .begin = ([], v) := by
  rw [act, Synchronizer.begin, if_pos h]
  exact Prod.ext rfl v.stop_nil

theorem begin_of_not_isDestroyed (h : v.view.isDestroyed ≠ true) :
    v.act .begin = ([.change .remove],
      { v with view := { v.view with phase := .querying, contexts := [] } }.stop
        v.view.feeds) := by
  rw [act, Synchronizer.begin, if_neg h]

theorem destroy_of_isDestroyed (h : v.view.isDestroyed = true) : v.act .destroy = ([], v) := by
  rw [act, Synchronizer.destroy, if_pos h]
  exact Prod.ext rfl v.stop_nil

theorem destroy_of_not_isDestroyed (h : v.view.isDestroyed ≠ true) :
    v.act .destroy = ([],
      { v with view := { v.view with phase := .destroyed, contexts := [] } }.stop
        v.view.feeds) := by
  rw [act, Synchronizer.destroy, if_neg h]

theorem attach_of_isDestroyed (h : v.view.isDestroyed = true) (collection : String)
    (query : Query) (feed : ScriptedFeed) :
    v.act (.attach collection query feed) =
      ([], { v with feeds := v.feeds ++ [feed] }.stop [v.feeds.length]) := by
  rw [act, Synchronizer.attach, if_pos h]

theorem attach_of_not_isDestroyed (h : v.view.isDestroyed ≠ true) (collection : String)
    (query : Query) (feed : ScriptedFeed) :
    v.act (.attach collection query feed) =
      ([], { v with
        view := { v.view with phase := .subscribed ⟨collection, query, v.feeds.length⟩ }
        feeds := v.feeds ++ [feed] }.stop v.view.feeds) := by
  rw [act, Synchronizer.attach, if_neg h]

/-! ## The feeds a view was offered -/

/-- The stops of the view and its attached feed are together the feeds it was offered, each
of them once, and it has no more contexts than it may. -/
structure Sound (v : Viewing) : Prop where
  accounted : (v.stopped ++ v.attached?.toList).Perm (List.range v.feeds.length)
  bare : v.view.Bare

theorem sound_start (mode : SyncMode) (cache : ContextCache) : (start mode cache).Sound :=
  ⟨.refl _, fun _ => rfl, fun _ => rfl⟩

theorem attached?_of_phase {w : Viewing} (h : w.view.phase = v.view.phase) :
    w.attached? = v.attached? := by
  rw [attached?, attached?, Synchronizer.subscription?, Synchronizer.subscription?, h]

theorem subscription?_of_isDestroyed (h : v.view.isDestroyed = true) :
    v.view.subscription? = none := by
  rw [Synchronizer.subscription?, v.view.isDestroyed_iff.mp h]
  rfl

namespace Sound

/-- What neither stops nor offers a feed leaves all feeds accounted for. -/
theorem keep {w : Viewing} (h : v.Sound) (hphase : w.view.phase = v.view.phase)
    (hstopped : w.stopped = v.stopped) (hfeeds : w.feeds.length = v.feeds.length)
    (hbare : w.view.Bare) : w.Sound where
  accounted := by
    rw [hstopped, hfeeds, attached?_of_phase hphase]
    exact h.accounted
  bare := hbare

theorem release (h : v.Sound) {view : Synchronizer} (hnone : view.subscription? = none)
    (hcontexts : view.contexts = []) : ({ v with view }.stop v.view.feeds).Sound where
  accounted := by
    have hattached : ({ v with view }.stop v.view.feeds).attached? = none := by
      rw [attached?, view_stop, hnone]
      rfl
    rw [hattached, stopped_stop, length_feeds_stop, Option.toList_none, List.append_nil]
    exact h.accounted
  bare := ⟨fun _ => hcontexts, fun _ => hcontexts⟩

/-- A fresh feed is taken in place of the attached one, or stopped at once. -/
theorem attach (h : v.Sound) (collection : String) (query : Query) (feed : ScriptedFeed) :
    (v.act (.attach collection query feed)).2.Sound := by
  have hoffer : (v.stopped ++ v.attached?.toList ++ [v.feeds.length]).Perm
      (List.range (v.feeds ++ [feed]).length) := by
    rw [List.length_append, List.length_singleton, List.range_succ]
    exact h.accounted.append_right _
  by_cases hdestroyed : v.view.isDestroyed = true
  · have hnone := subscription?_of_isDestroyed hdestroyed
    rw [attached?, hnone, Option.map_none, Option.toList_none, List.append_nil] at hoffer
    rw [attach_of_isDestroyed hdestroyed]
    refine ⟨?_, h.bare⟩
    rw [attached?, view_stop, hnone, stopped_stop, length_feeds_stop]
    rw [Option.map_none, Option.toList_none, List.append_nil]
    exact hoffer
  · rw [attach_of_not_isDestroyed hdestroyed]
    refine ⟨?_, h.bare.plain, fun hended => by cases hended⟩
    rw [stopped_stop, length_feeds_stop]
    exact hoffer

/-- Whatever happens, all feeds stay accounted for. -/
theorem act (h : v.Sound) (action : ViewAction) : (v.act action).2.Sound := by
  cases action with
  | begin =>
      by_cases hdestroyed : v.view.isDestroyed = true
      · rw [begin_of_isDestroyed hdestroyed]
        exact h
      · rw [begin_of_not_isDestroyed hdestroyed]
        exact h.release rfl rfl
  | attach collection query feed => exact h.attach collection query feed
  | abandon =>
      rw [Viewing.act, Synchronizer.abandon]
      split
      next hquerying =>
        have haccounted := h.accounted
        rw [attached?, Synchronizer.subscription?, hquerying] at haccounted
        exact ⟨haccounted, h.bare.plain, fun hended => by cases hended⟩
      next => exact h
  | apply event =>
      exact h.keep (v.view.phase_apply v.cache event) rfl rfl (h.bare.apply v.cache event)
  | pump =>
      obtain ⟨hview, hstopped, hfeeds⟩ := v.drain_keeps
      have hphase := v.drain.2.view.phase_applyAll v.drain.2.cache v.drain.1
      have hbare : v.drain.2.view.Bare := hview.symm ▸ h.bare
      exact h.keep (hphase.trans (congrArg _ hview)) hstopped hfeeds (hbare.applyAll _ _)
  | destroy =>
      by_cases hdestroyed : v.view.isDestroyed = true
      · rw [destroy_of_isDestroyed hdestroyed]
        exact h
      · rw [destroy_of_not_isDestroyed hdestroyed]
        exact h.release rfl rfl
  | ask path => exact h.keep rfl rfl rfl h.bare
  | disturb feed next => exact h.keep rfl rfl List.length_set h.bare

theorem run (h : v.Sound) (actions : List ViewAction) : (v.run actions).Sound := by
  induction actions generalizing v with
  | nil => exact h
  | cons action rest ih => exact ih (h.act action)

/-- A feed that was offered has been stopped once, unless it is the attached one. -/
theorem count_stopped (h : v.Sound) {feed : Nat} (hfeed : feed < v.feeds.length) :
    v.stopped.count feed = if v.attached? = some feed then 0 else 1 := by
  have hcount := h.accounted.count_eq feed
  rw [List.count_append, List.count_range, if_pos hfeed] at hcount
  have hattached : v.attached?.toList.count feed = if v.attached? = some feed then 1 else 0 := by
    cases v.attached? with
    | none => rfl
    | some other => simp [List.count_singleton]
  rw [hattached] at hcount
  split at hcount <;> simp_all

theorem lt_of_attached? (h : v.Sound) {feed : Nat} (hfeed : v.attached? = some feed) :
    feed < v.feeds.length := by
  refine List.mem_range.mp (h.accounted.mem_iff.mp (List.mem_append_right _ ?_))
  rw [hfeed]
  exact List.mem_singleton_self feed

end Sound

/-! ## What actions add up to -/

theorem mode_act (v : Viewing) (action : ViewAction) :
    (v.act action).2.view.mode = v.view.mode := by
  cases action with
  | begin => exact v.view.mode_begin
  | attach collection query feed => exact v.view.mode_attach _
  | abandon => exact v.view.mode_abandon
  | apply event => exact v.view.mode_apply v.cache event
  | pump => exact (v.drain.2.view.mode_applyAll _ _).trans (congrArg _ v.drain_keeps.1)
  | destroy => exact v.view.mode_destroy
  | ask path => rfl
  | disturb feed next => rfl

theorem mode_run (v : Viewing) (actions : List ViewAction) :
    (v.run actions).view.mode = v.view.mode := by
  induction actions generalizing v with
  | nil => rfl
  | cons action rest ih => exact (ih _).trans (v.mode_act action)

theorem isDestroyed_act (v : Viewing) (action : ViewAction) :
    (v.act action).2.view.isDestroyed = true ↔
      action = .destroy ∨ v.view.isDestroyed = true := by
  have hother : action ≠ .destroy →
      (v.act action).2.view.isDestroyed = v.view.isDestroyed := by
    intro hne
    cases action with
    | begin => exact v.view.isDestroyed_begin
    | attach collection query feed => exact v.view.isDestroyed_attach _
    | abandon => exact v.view.isDestroyed_abandon
    | apply event => exact congrArg (· == _) (v.view.phase_apply v.cache event)
    | pump =>
        have hphase := v.drain.2.view.phase_applyAll v.drain.2.cache v.drain.1
        exact congrArg (· == _) (hphase.trans (congrArg _ v.drain_keeps.1))
    | destroy => exact absurd rfl hne
    | ask path => rfl
    | disturb feed next => rfl
  by_cases haction : action = .destroy
  · subst haction
    exact iff_of_true v.view.isDestroyed_destroy (.inl rfl)
  · rw [hother haction, or_iff_right haction]

theorem isDestroyed_run (v : Viewing) (actions : List ViewAction) :
    (v.run actions).view.isDestroyed = true ↔
      .destroy ∈ actions ∨ v.view.isDestroyed = true := by
  induction actions generalizing v with
  | nil => simp
  | cons action rest ih =>
      rw [run_cons, ih, isDestroyed_act, List.mem_cons, or_left_comm, or_assoc, eq_comm]

theorem act_of_isDestroyed (h : v.view.isDestroyed = true) (action : ViewAction) :
    (v.act action).1 = [] := by
  cases action with
  | begin => rw [begin_of_isDestroyed h]
  | apply event => exact Synchronizer.apply_of_isDestroyed h v.cache event
  | pump => exact Synchronizer.applyAll_of_isDestroyed (v.drain_keeps.1.symm ▸ h) _ _
  | _ => rfl

theorem length_feeds_act (v : Viewing) (action : ViewAction) :
    (v.act action).2.feeds.length = v.feeds.length + if action.offers then 1 else 0 := by
  cases action with
  | begin => exact length_feeds_stop _ _
  | attach collection query feed =>
      exact (length_feeds_stop _ _).trans (List.length_append.trans rfl)
  | abandon => rfl
  | apply event => rfl
  | pump => exact v.drain_keeps.2.2
  | destroy => exact length_feeds_stop _ _
  | ask path => rfl
  | disturb feed next => exact List.length_set

theorem length_feeds_run (v : Viewing) (actions : List ViewAction) :
    (v.run actions).feeds.length = v.feeds.length + actions.countP ViewAction.offers := by
  induction actions generalizing v with
  | nil => rfl
  | cons action rest ih =>
      rw [run_cons, ih, length_feeds_act, List.countP_cons]
      omega

/-- An action does to a view what it does to its record. -/
theorem record_act (v : Viewing) (action : ViewAction) :
    v.stopped ++ (v.view.record.act v.feeds.length action).1 = (v.act action).2.stopped ∧
      (v.view.record.act v.feeds.length action).2 = (v.act action).2.view.record := by
  cases action with
  | begin =>
      rw [SyncRecord.act, v.view.record_begin]
      exact ⟨rfl, rfl⟩
  | attach collection query feed =>
      rw [SyncRecord.act, v.view.record_attach]
      exact ⟨rfl, rfl⟩
  | abandon => exact ⟨List.append_nil _, v.view.record_abandon⟩
  | apply event =>
      exact ⟨List.append_nil _, congrArg SyncPhase.record (v.view.phase_apply v.cache event).symm⟩
  | pump =>
      obtain ⟨hview, hstopped, -⟩ := v.drain_keeps
      have hphase := v.drain.2.view.phase_applyAll v.drain.2.cache v.drain.1
      exact ⟨(List.append_nil _).trans hstopped.symm,
        congrArg SyncPhase.record (hphase.trans (congrArg _ hview)).symm⟩
  | destroy =>
      rw [SyncRecord.act, v.view.record_destroy]
      exact ⟨rfl, rfl⟩
  | ask path => exact ⟨List.append_nil _, rfl⟩
  | disturb feed next => exact ⟨List.append_nil _, rfl⟩

theorem record_run (v : Viewing) (actions : List ViewAction) :
    v.stopped ++ (v.view.record.run v.feeds.length actions).1 = (v.run actions).stopped ∧
      (v.view.record.run v.feeds.length actions).2 = (v.run actions).view.record := by
  induction actions generalizing v with
  | nil => exact ⟨List.append_nil _, rfl⟩
  | cons action rest ih =>
      obtain ⟨hstopped, hrecord⟩ := v.record_act action
      obtain ⟨hothers, hlast⟩ := ih (v.act action).2
      rw [length_feeds_act, ← hrecord] at hothers hlast
      exact ⟨by rw [run_cons, ← hothers, ← hstopped, List.append_assoc]; rfl, hlast⟩

/-- After any actions on a view: a record that keeps state and subscription apart has called the
same stops and come to the same, and in it there is a subscription exactly in the subscribed
state; the view is attached to a feed exactly when it is subscribed; of the feeds it was offered,
as many as it was told to attach, the view has stopped each one once, except that it has not
stopped the attached one; without documents to show there are no contexts, and there are none
after it begins anew; and it is destroyed exactly when it was told to be, for good, with no
contexts and no subscription, and then nothing that happens tells its owner anything. -/
theorem stopped_once_unless_attached (mode : SyncMode) (cache : ContextCache)
    (actions : List ViewAction) :
    let v := (start mode cache).run actions
    let kept := SyncRecord.start.run 0 actions
    kept = (v.stopped, v.view.record) ∧
      (kept.2.subscription.isSome ↔ kept.2.stage = .subscribed) ∧
      (v.view.subscription?.isSome ↔ ∃ subscription, v.view.phase = .subscribed subscription) ∧
      v.feeds.length = actions.countP ViewAction.offers ∧
      (∀ feed < v.feeds.length,
        v.stopped.count feed = if v.attached? = some feed then 0 else 1) ∧
      (∀ feed, v.attached? = some feed → feed < v.feeds.length) ∧
      ((∀ path, mode ≠ .documents path) → v.view.contexts = []) ∧
      (v.act .begin).2.view.contexts = [] ∧
      (v.view.phase = .destroyed ↔ .destroy ∈ actions) ∧
      (.destroy ∈ actions → v.view.contexts = [] ∧ v.view.subscription? = none ∧
        ∀ action, (v.act action).1 = []) := by
  intro v kept
  have hsound : v.Sound := (sound_start mode cache).run actions
  have hkept : kept = (v.stopped, v.view.record) := by
    obtain ⟨hstopped, hrecord⟩ := (start mode cache).record_run actions
    exact Prod.ext hstopped hrecord
  have hended : v.view.isDestroyed = true ↔ .destroy ∈ actions := by
    rw [isDestroyed_run]
    exact or_iff_left Bool.false_ne_true
  refine ⟨hkept, ?_, ?_, ?_, fun feed hfeed => hsound.count_stopped hfeed,
    fun feed hfeed => hsound.lt_of_attached? hfeed, fun hmode => ?_, ?_, ?_, fun hdestroy => ?_⟩
  · rw [hkept]
    exact v.view.phase.isSome_subscription_record_iff
  · exact v.view.phase.isSome_subscription?_iff
  · exact (length_feeds_run _ _).trans (Nat.zero_add _)
  · exact hsound.bare.plain fun path => (mode_run _ actions).trans_ne (hmode path)
  · exact hsound.bare.contexts_begin
  · rw [← v.view.isDestroyed_iff]
    exact hended
  · have hdestroyed := hended.mpr hdestroy
    exact ⟨hsound.bare.ended hdestroyed, subscription?_of_isDestroyed hdestroyed,
      fun action => act_of_isDestroyed hdestroyed action⟩

/-- One feed after another is offered to a view; the last one comes too late. -/
example (query : Query) (feed : ScriptedFeed) :
    ((start .single .empty).run [.attach "C" query feed, .begin, .attach "C" query feed,
      .attach "C" query feed, .destroy, .attach "C" query feed]).stopped = [0, 1, 2, 3] := rfl

end Viewing

end LiveDocuments
