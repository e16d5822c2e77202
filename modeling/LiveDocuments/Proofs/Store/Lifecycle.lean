import LiveDocuments.Proofs.Store.Feed
import LiveDocuments.Proofs.Store.Shelves

/-!
# How feeds come and go

A store counts its live queries and the stops that ended one. It keeps no account of the
feeds that are gone, so what the two counts mean is told by the history: each feed that an
accepted query opened, together with the operations that came after it (`Store.openings`).

One operation ends the feeds that it names and opens at most one (`Store.feeds_step`), and it
counts the live feed that it stops (`Store.stopped_step`). The accounts of a run follow by
induction on its operations, for the feeds that are live at its beginning as for those that it
opens.
-/

namespace LiveDocuments

namespace StoreOperation

theorem ends_iff (feed : FeedId) (operation : StoreOperation) :
    operation.Ends feed ↔ operation.Stops feed ∨ operation.Drops feed := by
  cases operation <;> simp [Ends, Stops, Drops]

theorem not_drops_of_stops {feed : FeedId} {operation : StoreOperation}
    (h : operation.Stops feed) : ¬ operation.Drops feed := by
  cases operation with
  | stop other => exact not_false
  | _ => exact absurd h not_false

end StoreOperation

/-- A feed that was opened, and the operations that came after. -/
structure Opening where
  feed : FeedId
  later : List StoreOperation

namespace Opening

/-- The feed was neither stopped nor dropped. -/
def IsLive (o : Opening) : Prop := ∀ operation ∈ o.later, ¬ operation.Ends o.feed

/-- The feed was stopped at least once before it was dropped, if it was. -/
def IsStopped (o : Opening) : Prop :=
  ∃ operation ∈ o.later.takeWhile fun operation => ¬ operation.Drops o.feed,
    operation.Stops o.feed

instance (o : Opening) : Decidable o.IsLive := by
  unfold IsLive
  infer_instance

instance (o : Opening) : Decidable o.IsStopped := by
  unfold IsStopped
  infer_instance

variable {feed : FeedId} {operation : StoreOperation} {rest : List StoreOperation}

theorem isLive_cons :
    IsLive ⟨feed, operation :: rest⟩ ↔ ¬ operation.Ends feed ∧ IsLive ⟨feed, rest⟩ :=
  List.forall_mem_cons

theorem isStopped_cons :
    IsStopped ⟨feed, operation :: rest⟩ ↔
      operation.Stops feed ∨ ¬ operation.Ends feed ∧ IsStopped ⟨feed, rest⟩ := by
  by_cases hdrops : operation.Drops feed
  · have hstops : ¬ operation.Stops feed := fun h =>
      StoreOperation.not_drops_of_stops h hdrops
    simp [IsStopped, StoreOperation.ends_iff, hdrops, hstops]
  · simp only [IsStopped, StoreOperation.ends_iff, hdrops, List.takeWhile_cons, not_false_eq_true,
      decide_true, if_true, List.exists_mem_cons_iff, or_false]
    by_cases hstops : operation.Stops feed <;> simp [hstops]

/-- Of some feeds, those that one operation stops, and those that it leaves and that are
stopped later on. -/
theorem countP_isStopped_cons (feeds : List FeedId) (operation : StoreOperation)
    (rest : List StoreOperation) :
    feeds.countP (fun feed => IsStopped ⟨feed, operation :: rest⟩) =
      feeds.countP (fun feed => operation.Stops feed) +
        (feeds.filter fun feed => ¬ operation.Ends feed).countP
          fun feed => IsStopped ⟨feed, rest⟩ := by
  induction feeds with
  | nil => rfl
  | cons feed others ih =>
      rw [List.countP_cons, List.countP_cons, List.filter_cons, ih]
      have hfirst : IsStopped ⟨feed, operation :: rest⟩ ↔ _ := isStopped_cons
      by_cases hstops : operation.Stops feed
      · have hends : operation.Ends feed :=
          (StoreOperation.ends_iff feed operation).mpr (.inl hstops)
        simp only [hfirst, hstops, hends]
        exact Nat.add_right_comm _ _ _
      · by_cases hends : operation.Ends feed
        · simp [hfirst, hstops, hends]
        · simp [hfirst, hstops, hends, List.countP_cons, Nat.add_assoc]

end Opening

namespace Store

/-- The feed that an operation opens. -/
def openedBy? (s : Store) : StoreOperation → Option FeedId
  | .observe name query => (s.observe name query).toOption.map Prod.fst
  | _ => none

/-- The feeds that a run opens, each with what came after. -/
def openings : Store → List StoreOperation → List Opening
  | _, [] => []
  | s, operation :: rest =>
      ((s.openedBy? operation).map (⟨·, rest⟩)).toList ++ (s.step operation).openings rest

theorem openings_cons (s : Store) (operation : StoreOperation) (rest : List StoreOperation) :
    s.openings (operation :: rest) =
      ((s.openedBy? operation).map (⟨·, rest⟩)).toList ++ (s.step operation).openings rest := rfl

/-! ## One operation -/

theorem feeds_kept {s next : Store} {operation : StoreOperation}
    (hlive : next.live.map LiveQuery.feed = s.live.map LiveQuery.feed)
    (hends : ∀ feed, ¬ operation.Ends feed) :
    next.live.map LiveQuery.feed =
      (s.live.map LiveQuery.feed).filter (fun feed => ¬ operation.Ends feed) ++ [] := by
  simp [hlive, hends]

theorem feeds_dropped (s : Store) {feed : FeedId} {operation : StoreOperation}
    (hends : ∀ other, operation.Ends other ↔ feed = other) :
    (s.drop feed).live.map LiveQuery.feed =
      (s.live.map LiveQuery.feed).filter (fun feed => ¬ operation.Ends feed) ++ [] := by
  simp only [map_feed_drop, hends, List.append_nil, ne_comm]

/-- The live feeds after an operation are those that it does not end, and the one that it
opens. -/
theorem feeds_step (s : Store) (operation : StoreOperation) :
    (s.step operation).live.map LiveQuery.feed =
      (s.live.map LiveQuery.feed).filter (fun feed => ¬ operation.Ends feed) ++
        (s.openedBy? operation).toList := by
  cases operation with
  | create name =>
      exact feeds_kept (s.write_operation_eq (.create name)).1 fun _ => not_false
  | insert name document =>
      exact feeds_kept (s.write_operation_eq (.insert name document)).1 fun _ => not_false
  | update name id fields =>
      exact feeds_kept (s.write_operation_eq (.update name id fields)).1 fun _ => not_false
  | remove name id =>
      exact feeds_kept (s.write_operation_eq (.remove name id)).1 fun _ => not_false
  | observe name query =>
      have hnone : ∀ feed, ¬ (StoreOperation.observe name query).Ends feed := fun _ => not_false
      simp only [step, openedBy?]
      cases hobserve : s.observe name query with
      | error _ => exact feeds_kept rfl hnone
      | ok opened =>
          obtain ⟨feed, next⟩ := opened
          obtain ⟨selector, -, rfl, rfl⟩ := observe_eq_ok hobserve
          simp [opening, Store.opened, hnone, Except.toOption]
  | poll feed => exact feeds_kept (s.map_feed_requeue feed _) fun _ => not_false
  | stop feed =>
      rw [step, live_stop]
      exact feeds_dropped s fun other => Iff.rfl
  | drop feed => exact feeds_dropped s fun other => Iff.rfl

theorem nextFeed_step (s : Store) (operation : StoreOperation) :
    (s.step operation).nextFeed = s.nextFeed + (s.openedBy? operation).toList.length ∧
      ∀ feed ∈ s.openedBy? operation, feed = s.nextFeed := by
  have hnone : ∀ feed ∈ (none : Option FeedId), feed = s.nextFeed := fun feed h =>
    absurd h (Option.not_mem_none feed)
  cases operation with
  | create name => exact ⟨(s.write_operation_eq (.create name)).2.1, hnone⟩
  | insert name document => exact ⟨(s.write_operation_eq (.insert name document)).2.1, hnone⟩
  | update name id fields => exact ⟨(s.write_operation_eq (.update name id fields)).2.1, hnone⟩
  | remove name id => exact ⟨(s.write_operation_eq (.remove name id)).2.1, hnone⟩
  | observe name query =>
      simp only [step, openedBy?]
      cases hobserve : s.observe name query with
      | error _ => exact ⟨rfl, hnone⟩
      | ok opened =>
          obtain ⟨feed, next⟩ := opened
          obtain ⟨selector, -, rfl, rfl⟩ := observe_eq_ok hobserve
          exact ⟨rfl, fun feed hfeed => (Option.some.inj hfeed).symm⟩
  | poll feed => exact ⟨rfl, hnone⟩
  | stop feed =>
      refine ⟨?_, hnone⟩
      simp only [step, stop]
      split <;> rfl
  | drop feed => exact ⟨rfl, hnone⟩

/-- An operation counts the stop of a feed that is live, and nothing else. -/
theorem stopped_step {s : Store} (h : s.Consistent) (operation : StoreOperation) :
    (s.step operation).stopped =
      s.stopped + (s.live.map LiveQuery.feed).countP (fun feed => operation.Stops feed) := by
  have hnone : ∀ {next : Store}, (∀ feed, ¬ operation.Stops feed) → next.stopped = s.stopped →
      next.stopped =
        s.stopped + (s.live.map LiveQuery.feed).countP fun feed => operation.Stops feed := by
    intro next hstops hstopped
    simp [hstops, hstopped]
  cases operation with
  | create name =>
      exact hnone (fun _ => not_false) (s.write_operation_eq (.create name)).2.2
  | insert name document =>
      exact hnone (fun _ => not_false) (s.write_operation_eq (.insert name document)).2.2
  | update name id fields =>
      exact hnone (fun _ => not_false) (s.write_operation_eq (.update name id fields)).2.2
  | remove name id =>
      exact hnone (fun _ => not_false) (s.write_operation_eq (.remove name id)).2.2
  | observe name query =>
      refine hnone (fun _ => not_false) ?_
      simp only [step]
      cases hobserve : s.observe name query with
      | error _ => rfl
      | ok opened =>
          obtain ⟨feed, next⟩ := opened
          obtain ⟨selector, -, rfl, rfl⟩ := observe_eq_ok hobserve
          rfl
  | poll feed => exact hnone (fun _ => not_false) rfl
  | drop feed => exact hnone (fun _ => not_false) rfl
  | stop feed =>
      have hcount : (s.live.map LiveQuery.feed).countP (fun other => feed = other) =
          if feed ∈ s.live.map LiveQuery.feed then 1 else 0 := by
        rw [← h.feeds.count, List.count_eq_countP]
        refine List.countP_congr fun other _ => ?_
        rw [decide_eq_true_eq, beq_iff_eq]
        exact eq_comm
      simp only [step, stop, isActive_iff]
      refine Eq.trans ?_ (congrArg (s.stopped + ·) hcount.symm)
      split <;> rfl

/-! ## A run -/

/-- The feeds that are live after a run are those that nothing ended, among the feeds that
were live before and those that the run opened. -/
theorem feeds_run (s : Store) (operations : List StoreOperation) :
    (s.run operations).live.map LiveQuery.feed =
      (s.live.map LiveQuery.feed).filter (fun feed => Opening.IsLive ⟨feed, operations⟩) ++
        ((s.openings operations).filter (·.IsLive)).map Opening.feed := by
  induction operations generalizing s with
  | nil => simp [openings, Opening.IsLive]
  | cons operation rest ih =>
      have hopened : (s.openedBy? operation).toList.filter
          (fun feed => Opening.IsLive ⟨feed, rest⟩) =
            (((s.openedBy? operation).map (Opening.mk · rest)).toList.filter
              (·.IsLive)).map Opening.feed := by
        cases s.openedBy? operation with
        | none => rfl
        | some feed => by_cases hlive : Opening.IsLive ⟨feed, rest⟩ <;> simp [hlive]
      rw [run_cons, ih, feeds_step, openings_cons, List.filter_append, List.filter_append,
        List.map_append, List.filter_filter, hopened, List.append_assoc]
      refine congrArg (· ++ _) (List.filter_congr fun feed _ => ?_)
      simp [Opening.isLive_cons, Bool.and_comm]

/-- A run counts the feeds on which a stop was called before any drop, among the feeds that
were live before and those that the run opened. -/
theorem stopped_run {s : Store} (h : s.Consistent) (operations : List StoreOperation) :
    (s.run operations).stopped =
      s.stopped +
        (s.live.map LiveQuery.feed).countP (fun feed => Opening.IsStopped ⟨feed, operations⟩) +
          (s.openings operations).countP (·.IsStopped) := by
  induction operations generalizing s with
  | nil => simp [openings, Opening.IsStopped]
  | cons operation rest ih =>
      have hopened : (s.openedBy? operation).toList.countP
          (fun feed => Opening.IsStopped ⟨feed, rest⟩) =
            ((s.openedBy? operation).map (Opening.mk · rest)).toList.countP (·.IsStopped) := by
        cases s.openedBy? operation with
        | none => rfl
        | some feed => rfl
      rw [run_cons, ih (h.step operation), stopped_step h, feeds_step, openings_cons,
        List.countP_append, List.countP_append, Opening.countP_isStopped_cons, hopened]
      omega

theorem map_feed_openings (s : Store) (operations : List StoreOperation) :
    (s.openings operations).map Opening.feed =
        List.range' s.nextFeed (s.openings operations).length ∧
      (s.run operations).nextFeed = s.nextFeed + (s.openings operations).length := by
  induction operations generalizing s with
  | nil => exact ⟨rfl, rfl⟩
  | cons operation rest ih =>
      obtain ⟨hnumbers, hlast⟩ := ih (s.step operation)
      obtain ⟨hnext, hfeed⟩ := nextFeed_step s operation
      rw [openings_cons, run_cons]
      cases hopened : s.openedBy? operation with
      | none =>
          rw [hopened, Option.toList_none, List.length_nil, Nat.add_zero] at hnext
          rw [hnext] at hnumbers hlast
          exact ⟨hnumbers, hlast⟩
      | some feed =>
          obtain rfl : feed = s.nextFeed := hfeed feed hopened
          rw [hopened, Option.toList_some, List.length_singleton] at hnext
          rw [hnext] at hnumbers hlast
          simp only [Option.map_some, Option.toList_some, List.singleton_append, List.map_cons,
            List.length_cons, List.range'_succ, hnumbers, hlast, true_and]
          exact Nat.add_right_comm _ _ _

theorem pending_of_not_live {s : Store} {feed : FeedId}
    (hlive : feed ∉ s.live.map LiveQuery.feed) : s.pending feed = [] := by
  have hnone : s.live.find? (fun q => q.feed = feed) = none := by
    simpa [List.find?_eq_none] using hlive
  rw [pending, hnone]

/-- A feed that is no longer live is not opened again, and its polls return nothing. -/
theorem polled_of_not_live {s : Store} {feed : FeedId} (hused : feed < s.nextFeed)
    (hlive : feed ∉ s.live.map LiveQuery.feed) (operations : List StoreOperation) :
    s.polled feed operations = [] := by
  induction operations generalizing s with
  | nil => rfl
  | cons operation rest ih =>
      obtain ⟨hnext, hopened⟩ := nextFeed_step s operation
      have hpending : s.pending feed = [] := pending_of_not_live hlive
      have hrest : feed ∉ (s.step operation).live.map LiveQuery.feed := by
        rw [feeds_step, List.mem_append]
        rintro (hkept | hnew)
        · exact hlive (List.mem_filter.mp hkept).1
        · exact Nat.ne_of_lt hused (hopened feed (Option.mem_toList.mp hnew))
      rw [polled_cons, ih (hnext ▸ Nat.lt_add_right _ hused) hrest]
      simp [poll, hpending]

/-- In every history of a store, the active subscriptions are the feeds that were opened and
neither stopped nor dropped, and the stopped ones are those that were stopped at least once
before being dropped. No two feeds are one, and a feed that is stopped returns nothing any more,
whatever was queued for it and whatever comes later. -/
theorem subscriptions_accounted (operations : List StoreOperation) :
    (empty.run operations).activeSubscriptions = (empty.openings operations).countP (·.IsLive) ∧
    (empty.run operations).stoppedSubscriptions =
      (empty.openings operations).countP (·.IsStopped) ∧
    ((empty.openings operations).map Opening.feed).Nodup ∧
    ∀ o ∈ empty.openings operations, ∀ later,
      ((empty.run operations).stop o.feed).polled o.feed later = [] := by
  obtain ⟨hnumbers, hlast⟩ := map_feed_openings empty operations
  refine ⟨?_, ?_, ?_, fun o ho later => ?_⟩
  · have hlive := congrArg List.length (feeds_run empty operations)
    simpa [activeSubscriptions, List.countP_eq_length_filter, empty] using hlive
  · have hstopped := stopped_run consistent_empty operations
    simpa [stoppedSubscriptions, empty] using hstopped
  · rw [hnumbers]
    exact List.nodup_range'
  · have hmem : o.feed ∈ (empty.openings operations).map Opening.feed :=
      List.mem_map_of_mem ho
    rw [hnumbers, List.mem_range'_1, ← hlast] at hmem
    refine polled_of_not_live ?_ ?_ later
    · exact (nextFeed_step _ (.stop o.feed)).1 ▸ hmem.2
    · rw [live_stop, map_feed_drop]
      simp

end Store

end LiveDocuments
