import LiveDocuments.Proofs.Binding.Turns

/-!
# Live queries in a session

However a model and its bindings are used, no live query is lost sight of: each one that was
opened is either followed by a binding or was stopped, once. A binding follows a live query
exactly if its last attempt to query was granted and it has not been destroyed or let go,
and after the model is destroyed nothing is followed at all.
-/

namespace LiveDocuments

namespace Session

/-- The attempts to query that an action makes. A new binding has the next number. -/
def attemptsIn (s : Session) : SessionAction → List Attempt
  | .bindContext path context =>
      attemptsOf s.model.nextBinding (s.model.attemptAt? path context [] [])
  | .bindList path none sorters filters =>
      attemptsOf s.model.nextBinding (s.model.attemptAt? path none sorters filters)
  | .bindList path (some parent) sorters filters =>
      attemptsOf s.model.nextBinding
        (if sorters.isEmpty && filters.isEmpty then s.model.attemptAt? path (some parent) [] []
          else none)
  | .on id action =>
      match s.binding? id with
      | none => []
      | some b => attemptsOf id (b.attempt? s.model action)
  | _ => []

/-- The attempts made in the course of a run. -/
def attempts : Session → List SessionAction → List Attempt
  | _, [] => []
  | s, action :: rest => s.attemptsIn action ++ (s.act action).attempts rest

/-- How many bindings are in use whose last attempt was granted. A binding to a value, and a
list of elements that was asked to sort or filter, never try. -/
def following (s : Session) (attempts : List Attempt) : Nat :=
  s.bindings.countP fun entry => !entry.2.isDestroyed && lastSucceeded attempts entry.1

/-- What is held by the bindings. -/
def followers (s : Session) : Followers :=
  s.bindings.map fun entry => (entry.1, entry.2.follower)

theorem map_fst_followers (s : Session) :
    s.followers.map Prod.fst = s.bindings.map Prod.fst := by
  rw [followers, List.map_map]
  rfl

theorem following_followers (s : Session) (attempts : List Attempt) :
    s.followers.following attempts = s.following attempts := by
  rw [Followers.following, followers, List.countP_map]
  rfl

/-! ## One action -/

/-- A session and the one an action makes of it. -/
def Moves (s : Session) (made : List Attempt) (t : Session) : Prop :=
  Move s.model.ledger s.followers made t.model.ledger t.followers

theorem moves_withModel (s : Session) {n : Model} (h : n.ledger = s.model.ledger) :
    s.Moves [] (s.withModel n) := by
  show Move _ _ _ n.ledger _
  rw [h]
  exact .rest

theorem moves_bind (s : Session) {attempt : Option Bool}
    {made : Except BindingError Binding × Model} (h : Binding.IsMade s.model attempt made) :
    s.Moves (attemptsOf s.model.nextBinding attempt) (s.bind made).2 := by
  obtain ⟨result, n⟩ := made
  cases result with
  | error e =>
      obtain ⟨rfl, hledger⟩ := h
      exact s.moves_withModel hledger
  | ok b =>
      obtain ⟨hid, hturn⟩ := h
      have hfollowers : (s.bind (.ok b, n)).2.followers =
          s.followers ++ [(s.model.nextBinding, b.follower)] := by
        simp [bind, add, followers, hid]
      rw [Moves, hfollowers]
      exact .made hturn

theorem moves_on {s : Session} (hdistinct : (s.bindings.map Prod.fst).Nodup) (id : BindingId)
    (action : BindingAction) :
    s.Moves (s.attemptsIn (.on id action)) (s.act (.on id action)) := by
  cases hbinding : s.binding? id with
  | none =>
      simp only [attemptsIn, act, hbinding]
      exact .rest
  | some b =>
      obtain ⟨before, after, hsplit, hothers⟩ := split_of_binding? hbinding hdistinct
      simp only [attemptsIn, act, hbinding, put_of_split hsplit hothers, Moves, followers,
        hsplit, List.map_append, List.map_cons]
      exact .asked (b.turn_act s.model action)

theorem moves_drop {s : Session} (hdistinct : (s.bindings.map Prod.fst).Nodup)
    (id : BindingId) : s.Moves [] (s.drop id) := by
  cases hbinding : s.binding? id with
  | none =>
      simp only [drop, hbinding]
      exact .rest
  | some b =>
      obtain ⟨before, after, hsplit, hothers⟩ := split_of_binding? hbinding hdistinct
      obtain ⟨hledger, hnone⟩ := Binding.drop_eq s.model b
      have hturn := Binding.turn_act s.model .destroy b
      simp only [drop_of_split hbinding hsplit hothers, Moves, followers, hsplit,
        List.map_append, List.map_cons, hledger]
      exact .dropped hturn hnone

/-- Whatever is done short of destroying the model, its ledger and bindings make a move. -/
theorem moves_act {s : Session} (hdistinct : (s.bindings.map Prod.fst).Nodup)
    {action : SessionAction} (h : action ≠ .destroy) :
    s.Moves (s.attemptsIn action) (s.act action) := by
  cases action with
  | write write => exact s.moves_withModel (s.model.ledger_write write)
  | refuse find observe => exact .rest
  | getContext path => exact s.moves_withModel (Model.OnlyAsks.getContext s.model path).ledger_eq
  | createContext path context =>
      exact s.moves_withModel (Model.OnlyAsks.createContext s.model path context).ledger_eq
  | read path context =>
      exact s.moves_withModel (Model.OnlyAsks.getProperty s.model path context).ledger_eq
  | query path context sorters filters =>
      have hquery := Model.OnlyAsks.runQuery s.model path context sorters filters
      simp only [act]
      split
      · next heq =>
          rw [heq] at hquery
          exact s.moves_withModel hquery.ledger_eq
      · next cursor n heq =>
          rw [heq] at hquery
          exact s.moves_withModel (hquery.trans (.fetch n cursor)).ledger_eq
  | refresh => exact s.moves_withModel (Model.OnlyRaises.refresh s.model).ledger_eq
  | destroy => exact absurd rfl h
  | bindProperty path context => exact s.moves_bind (PropertyBinding.isMade s.model path context)
  | bindContext path context => exact s.moves_bind (ContextBinding.isMade s.model path context)
  | bindList path parent sorters filters =>
      cases parent with
      | none =>
          have hmade := s.moves_bind (DocumentList.isMade s.model path sorters filters)
          rw [← Binding.map_map_list] at hmade
          exact hmade
      | some parent =>
          have hmade := s.moves_bind (ElementList.isMade s.model path parent sorters filters)
          rw [← Binding.map_map_list] at hmade
          exact hmade
  | on id action => exact moves_on hdistinct id action
  | drop id => exact moves_drop hdistinct id

/-! ## A run -/

/-- The accounts of a session after the attempts. -/
def Accounted (s : Session) (attempts : List Attempt) : Prop :=
  Accounts s.model.ledger s.followers attempts

theorem accounted_start (config : Config) : (start .empty config).Accounted [] where
  distinct := List.nodup_nil
  numbered := fun _ h => absurd h List.not_mem_nil
  past := fun _ h => absurd h List.not_mem_nil
  balanced := ⟨⟨List.nodup_nil, fun _ h => absurd h List.not_mem_nil,
    fun _ h => absurd h List.not_mem_nil, rfl⟩, .nil⟩
  settled := fun _ h => absurd h List.not_mem_nil
  opened := rfl

theorem Accounted.distinct_bindings {s : Session} {attempts : List Attempt}
    (h : s.Accounted attempts) : (s.bindings.map Prod.fst).Nodup := by
  rw [← map_fst_followers]
  exact h.distinct

/-- An action keeps the accounts, and only one destroys the model. -/
theorem Accounted.act {s : Session} {past : List Attempt} (h : s.Accounted past)
    (action : SessionAction) :
    (s.act action).Accounted (past ++ s.attemptsIn action) ∧
      ((s.act action).model.destroyed = true ↔
        s.model.destroyed = true ∨ action = .destroy) := by
  by_cases hdestroy : action = .destroy
  · subst hdestroy
    have hledger : (s.act .destroy).model.ledger = s.model.ledger.closing :=
      s.model.ledger_destroy
    have hdestroyed : (s.act .destroy).model.ledger.destroyed = true := by
      rw [hledger]
      exact s.model.ledger.closing_eq.1
    refine ⟨?_, iff_of_true hdestroyed (.inr rfl)⟩
    rw [Accounted, hledger]
    exact (List.append_nil past).symm ▸ h.closing
  · have hmoves := moves_act h.distinct_bindings hdestroy
    have hdestroyed : (s.act action).model.destroyed = s.model.destroyed := hmoves.destroyed_eq
    refine ⟨h.move hmoves, ?_⟩
    rw [hdestroyed, or_iff_left hdestroy]

theorem Accounted.run {s : Session} {past : List Attempt} (h : s.Accounted past)
    (actions : List SessionAction) :
    (s.run actions).Accounted (past ++ s.attempts actions) ∧
      ((s.run actions).model.destroyed = true ↔
        s.model.destroyed = true ∨ .destroy ∈ actions) := by
  induction actions generalizing s past with
  | nil =>
      rw [run_nil, attempts, List.append_nil]
      exact ⟨h, by simp⟩
  | cons action rest ih =>
      obtain ⟨hact, hdestroyed⟩ := h.act action
      obtain ⟨hrest, hlast⟩ := ih hact
      rw [run_cons, attempts, ← List.append_assoc]
      refine ⟨hrest, hlast.trans ?_⟩
      rw [hdestroyed, List.mem_cons, or_assoc, eq_comm (a := action)]

theorem Accounted.following_eq_one {s : Session} {attempts : List Attempt}
    (h : s.Accounted attempts) {id : BindingId} {b : Binding}
    (honly : ∀ attempt ∈ attempts, attempt.granted = true → attempt.binding = id)
    (hlast : lastSucceeded attempts id = true) (hbinding : s.binding? id = some b)
    (hb : b.isDestroyed = false) : s.following attempts = 1 := by
  obtain ⟨before, after, hsplit, hothers⟩ := split_of_binding? hbinding h.distinct_bindings
  have hnone : ∀ entry ∈ before ++ after,
      ¬ (!entry.2.isDestroyed && lastSucceeded attempts entry.1) = true := by
    intro entry hentry hfollows
    rw [Bool.and_eq_true] at hfollows
    obtain ⟨attempt, hattempt, hid, hgranted⟩ := exists_of_lastSucceeded hfollows.2
    exact hothers entry hentry (hid.symm.trans (honly attempt hattempt hgranted))
  have hrest := List.countP_eq_zero.mpr hnone
  rw [List.countP_append] at hrest
  rw [following, hsplit, List.countP_append, List.countP_cons]
  simp only [hb, hlast, Bool.not_false, Bool.and_self, if_true]
  omega

/-- In every state between two actions of any run of a session, the model is destroyed exactly if
that was ever asked. There are as many live queries as bindings in use whose last attempt was
granted, and none once the model is destroyed. They are those the bindings hold, at most one each.
Those that were opened, one for each attempt that was granted, are live or were stopped. So if all
of them were opened for one binding, which is in use and whose last attempt was granted, all but
one were stopped. -/
theorem live_queries_accounted (config : Config) (actions : List SessionAction) :
    let s := (start .empty config).run actions
    let attempts := (start .empty config).attempts actions
    (s.model.destroyed = true ↔ .destroy ∈ actions) ∧
      s.store.activeSubscriptions = (if s.model.destroyed then 0 else s.following attempts) ∧
      s.store.stoppedSubscriptions + s.store.activeSubscriptions = s.store.nextFeed ∧
      s.store.nextFeed = attempts.countP Attempt.granted ∧
      (s.model.destroyed = false → (s.store.live.map LiveQuery.feed).Perm
        (s.bindings.flatMap fun entry => entry.2.follower.feeds)) ∧
      (∀ entry ∈ s.bindings, entry.2.follower.feeds.length =
        if entry.2.isDestroyed then 0 else (lastSucceeded attempts entry.1).toNat) ∧
      (∀ id b, s.binding? id = some b → b.isDestroyed = false → s.model.destroyed = false →
        (∀ attempt ∈ attempts, attempt.granted = true → attempt.binding = id) →
        lastSucceeded attempts id = true →
          s.store.activeSubscriptions = 1 ∧
          s.store.stoppedSubscriptions = attempts.countP Attempt.granted - 1) := by
  intro s attempts
  obtain ⟨haccounts, hdestroyed⟩ := (accounted_start config).run actions
  have haccounts : s.Accounted attempts := haccounts
  have hlive : s.store.activeSubscriptions =
      if s.model.destroyed then 0 else s.following attempts := by
    have hlength := haccounts.length_live
    rw [following_followers] at hlength
    exact (List.length_map LiveQuery.feed).symm.trans hlength
  have hbalance : s.store.stoppedSubscriptions + s.store.activeSubscriptions =
      s.store.nextFeed := by
    have hledger := haccounts.balanced.accounted
    exact (congrArg (s.store.stopped + ·) (List.length_map LiveQuery.feed).symm).trans hledger
  have hopened : s.store.nextFeed = attempts.countP Attempt.granted := haccounts.opened
  refine ⟨hdestroyed.trans (or_iff_right Bool.false_ne_true), hlive, hbalance, hopened, ?_, ?_,
    ?_⟩
  · intro halive
    have hperm := haccounts.balanced.live_perm
    have hledger : s.model.ledger.destroyed = false := halive
    rw [hledger, Followers.held, followers, List.flatMap_map] at hperm
    exact hperm
  · intro entry hentry
    exact haccounts.settled (entry.1, entry.2.follower)
      (List.mem_map_of_mem (f := fun entry => (entry.1, entry.2.follower)) hentry)
  · intro id b hbinding hb halive honly hlast
    have hone := haccounts.following_eq_one honly hlast hbinding hb
    rw [halive, hone] at hlive
    have hactive : s.store.activeSubscriptions = 1 := hlive
    rw [hopened] at hbalance
    exact ⟨hactive, by omega⟩

/-- A list that is made, filtered and refreshed: three queries one after the other. -/
def requeried : List SessionAction :=
  [.write (.create "A"), .bindList "/A" none [] [], .on 0 (.filter []), .on 0 (.refresh true)]

theorem live_queries_accounted_requeried :
    ((start .empty .default).run requeried).store.activeSubscriptions = 1 ∧
      ((start .empty .default).run requeried).store.stoppedSubscriptions = 2 := by
  obtain ⟨-, -, -, -, -, -, hone⟩ := live_queries_accounted .default requeried
  have hbinding : (((start .empty .default).run requeried).binding? 0).any
      (fun b => !b.isDestroyed) = true := by decide +kernel
  have halive : ((start .empty .default).run requeried).model.destroyed = false := by
    decide +kernel
  have honly : ∀ attempt ∈ (start .empty .default).attempts requeried,
      attempt.granted = true → attempt.binding = 0 := by decide +kernel
  have hlast : lastSucceeded ((start .empty .default).attempts requeried) 0 = true := by
    decide +kernel
  have hcount : ((start .empty .default).attempts requeried).countP Attempt.granted = 3 := by
    decide +kernel
  cases hb : ((start .empty .default).run requeried).binding? 0 with
  | none =>
      rw [hb] at hbinding
      cases hbinding
  | some b =>
      rw [hb] at hbinding
      obtain ⟨hactive, hstopped⟩ := hone 0 b hb (by simpa using hbinding) halive honly hlast
      rw [hcount] at hstopped
      exact ⟨hactive, hstopped⟩

end Session

end LiveDocuments
