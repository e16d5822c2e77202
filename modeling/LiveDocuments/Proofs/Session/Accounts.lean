import LiveDocuments.Proofs.Session.Ledger

/-!
# Accounts of bindings

Every attempt of a binding to query is written down. What a binding holds is told by its
last attempt (`lastSucceeded`), and how many live queries were ever opened by the count of
those that were granted. `Accounts` ties a ledger, its bindings and their attempts
together; it is kept whatever the bindings do and however they come and go (`Move`).
-/

namespace LiveDocuments

/-! ## Attempts -/

/-- An attempt of a binding to query or to be bound anew, and whether a live query was
opened. -/
structure Attempt where
  binding : BindingId
  granted : Bool

/-- Whether the latest attempt of a binding succeeded. -/
def lastSucceeded (attempts : List Attempt) (id : BindingId) : Bool :=
  (attempts.reverse.find? fun attempt => attempt.binding = id).any Attempt.granted

theorem lastSucceeded_eq_false {attempts : List Attempt} {id : BindingId}
    (h : ∀ attempt ∈ attempts, attempt.binding ≠ id) : lastSucceeded attempts id = false := by
  have hnone : attempts.reverse.find? (fun attempt => attempt.binding = id) = none := by
    rw [List.find?_eq_none]
    intro attempt hattempt
    simpa using h attempt (List.mem_reverse.mp hattempt)
  rw [lastSucceeded, hnone]
  rfl

theorem exists_of_lastSucceeded {attempts : List Attempt} {id : BindingId}
    (h : lastSucceeded attempts id = true) :
    ∃ attempt ∈ attempts, attempt.binding = id ∧ attempt.granted = true := by
  unfold lastSucceeded at h
  cases hfind : attempts.reverse.find? fun attempt => attempt.binding = id with
  | none =>
      rw [hfind] at h
      cases h
  | some attempt =>
      rw [hfind] at h
      have hid : attempt.binding = id := by simpa using List.find?_some hfind
      exact ⟨attempt, List.mem_reverse.mp (List.mem_of_find?_eq_some hfind), hid, h⟩

/-- The attempts that one operation on a binding makes. -/
def attemptsOf (id : BindingId) (attempt : Option Bool) : List Attempt :=
  (attempt.map fun granted => ⟨id, granted⟩).toList

theorem lastSucceeded_append_self (attempts : List Attempt) (id : BindingId)
    (attempt : Option Bool) :
    lastSucceeded (attempts ++ attemptsOf id attempt) id =
      attempt.getD (lastSucceeded attempts id) := by
  cases attempt <;> simp [attemptsOf, lastSucceeded]

theorem lastSucceeded_append_of_ne (attempts : List Attempt) {id other : BindingId}
    (h : other ≠ id) (attempt : Option Bool) :
    lastSucceeded (attempts ++ attemptsOf other attempt) id = lastSucceeded attempts id := by
  cases attempt <;> simp [attemptsOf, lastSucceeded, h]

theorem countP_attemptsOf (id : BindingId) (attempt : Option Bool) :
    (attemptsOf id attempt).countP Attempt.granted = (attempt.getD false).toNat := by
  cases attempt with
  | none => rfl
  | some granted => cases granted <;> rfl

/-! ## All bindings together -/

/-- Bindings by their numbers. -/
abbrev Followers := List (BindingId × Follower)

/-- What all of them hold. -/
def Followers.held (followers : Followers) : List FeedId :=
  followers.flatMap fun entry => entry.2.feeds

/-- The bindings that ought to hold a live query. -/
def Followers.following (followers : Followers) (attempts : List Attempt) : Nat :=
  followers.countP fun entry => !entry.2.destroyed && lastSucceeded attempts entry.1

/-- The ledger of a model, its bindings, and the attempts they have made so far. -/
structure Accounts (l : Ledger) (followers : Followers) (attempts : List Attempt) : Prop where
  distinct : (followers.map Prod.fst).Nodup
  numbered : ∀ entry ∈ followers, entry.1 < l.nextBinding
  past : ∀ attempt ∈ attempts, attempt.binding < l.nextBinding
  balanced : l.Balanced followers.held
  settled : ∀ entry ∈ followers, entry.2.Settled (lastSucceeded attempts entry.1)
  opened : l.nextFeed = attempts.countP Attempt.granted

/-- What one operation on a model may do to its ledger and its bindings, short of destroying
the model: a binding is made, or makes a turn, or makes its last turn and is gone. -/
inductive Move (l : Ledger) : Followers → List Attempt → Ledger → Followers → Prop where
  | rest {followers : Followers} : Move l followers [] l followers
  | made {followers : Followers} {l' : Ledger} {f : Follower} {attempt : Option Bool}
      (hturn : Turn l.registering .fresh attempt l' f) :
      Move l followers (attemptsOf l.nextBinding attempt) l'
        (followers ++ [(l.nextBinding, f)])
  | asked {before after : Followers} {id : BindingId} {l' : Ledger} {f f' : Follower}
      {attempt : Option Bool} (hturn : Turn l f attempt l' f') :
      Move l (before ++ (id, f) :: after) (attemptsOf id attempt) l'
        (before ++ (id, f') :: after)
  | dropped {before after : Followers} {id : BindingId} {l' : Ledger} {f f' : Follower}
      (hturn : Turn l f none l' f') (hnone : f'.feeds = []) :
      Move l (before ++ (id, f) :: after) [] l' (before ++ after)

theorem Move.destroyed_eq {l l' : Ledger} {followers others : Followers}
    {made : List Attempt} (h : Move l followers made l' others) : l'.destroyed = l.destroyed := by
  cases h with
  | rest => rfl
  | made hturn => exact hturn.ledger_eq.1
  | asked hturn => exact hturn.ledger_eq.1
  | dropped hturn _ => exact hturn.ledger_eq.1

namespace Accounts

variable {l l' : Ledger} {followers before after : Followers} {attempts : List Attempt}
  {id : BindingId} {f f' : Follower} {attempt : Option Bool}

theorem registering (h : Accounts l followers attempts) :
    Accounts l.registering (followers ++ [(l.nextBinding, .fresh)]) attempts where
  distinct := by
    rw [List.map_append]
    refine List.nodup_append.mpr ⟨h.distinct, List.nodup_singleton _, ?_⟩
    intro id hid other hother
    obtain rfl := List.mem_singleton.mp hother
    rcases List.mem_map.mp hid with ⟨entry, hentry, rfl⟩
    exact Nat.ne_of_lt (h.numbered entry hentry)
  numbered := by
    intro entry hentry
    rcases List.mem_append.mp hentry with hentry | hentry
    · exact Nat.lt_succ_of_lt (h.numbered entry hentry)
    · obtain rfl := List.mem_singleton.mp hentry
      exact Nat.lt_succ_self _
  past := fun attempt hattempt => Nat.lt_succ_of_lt (h.past attempt hattempt)
  balanced := by
    have hheld : Followers.held (followers ++ [(l.nextBinding, .fresh)]) = followers.held := by
      simp [Followers.held, Follower.fresh]
    rw [hheld]
    exact h.balanced.registering
  settled := by
    intro entry hentry
    rcases List.mem_append.mp hentry with hentry | hentry
    · exact h.settled entry hentry
    · obtain rfl := List.mem_singleton.mp hentry
      rw [lastSucceeded_eq_false fun attempt hattempt => Nat.ne_of_lt (h.past attempt hattempt)]
      exact Follower.settled_fresh
  opened := h.opened

theorem held_perm (before after : Followers) (id : BindingId) (f : Follower) :
    (Followers.held (before ++ (id, f) :: after)).Perm
      (f.feeds ++ Followers.held (before ++ after)) := by
  simp only [Followers.held, List.flatMap_append, List.flatMap_cons]
  rw [← List.append_assoc, ← List.append_assoc]
  exact List.perm_append_comm.append_right _

theorem turn (h : Accounts l (before ++ (id, f) :: after) attempts)
    (hturn : Turn l f attempt l' f') :
    Accounts l' (before ++ (id, f') :: after) (attempts ++ attemptsOf id attempt) := by
  obtain ⟨-, hnumber, hfeed⟩ := hturn.ledger_eq
  have hid : (id, f) ∈ before ++ (id, f) :: after :=
    List.mem_append_right _ List.mem_cons_self
  have hothers : ∀ entry ∈ before ++ after, entry ∈ before ++ (id, f) :: after ∧ id ≠ entry.1 := by
    intro entry hentry
    have hperm : (before ++ (id, f) :: after).Perm ((id, f) :: (before ++ after)) :=
      List.perm_middle
    have hnodup := (hperm.map Prod.fst).nodup_iff.mp h.distinct
    rw [List.map_cons, List.nodup_cons] at hnodup
    have hnumber : entry.1 ∈ (before ++ after).map Prod.fst := List.mem_map_of_mem hentry
    exact ⟨hperm.mem_iff.mpr (List.mem_cons_of_mem _ hentry), fun heq => hnodup.1 (heq ▸ hnumber)⟩
  have hentries : ∀ entry ∈ before ++ (id, f') :: after,
      entry = (id, f') ∨ entry ∈ before ++ after := by
    intro entry hentry
    exact List.mem_cons.mp (List.perm_middle.mem_iff.mp hentry)
  refine ⟨?_, ?_, ?_, ?_, ?_, ?_⟩
  · simpa using h.distinct
  · intro entry hentry
    rw [hnumber]
    rcases hentries entry hentry with rfl | hentry
    · exact h.numbered (id, f) hid
    · exact h.numbered entry (hothers entry hentry).1
  · intro other hother
    rw [hnumber]
    rcases List.mem_append.mp hother with hother | hother
    · exact h.past other hother
    · rcases Option.map_eq_some_iff.mp (Option.mem_toList.mp hother) with ⟨_, _, rfl⟩
      exact h.numbered (id, f) hid
  · have hbalanced := hturn.balanced (h.balanced.perm (held_perm before after id f))
    exact hbalanced.perm (held_perm before after id f').symm
  · intro entry hentry
    rcases hentries entry hentry with rfl | hentry
    · rw [lastSucceeded_append_self]
      exact hturn.settled (h.settled (id, f) hid)
    · obtain ⟨hmem, hne⟩ := hothers entry hentry
      rw [lastSucceeded_append_of_ne attempts hne]
      exact h.settled entry hmem
  · rw [hfeed, h.opened, List.countP_append, countP_attemptsOf]

theorem leaving (h : Accounts l (before ++ (id, f) :: after) attempts) (hf : f.feeds = []) :
    Accounts l (before ++ after) attempts := by
  have hsub : (before ++ after).Sublist (before ++ (id, f) :: after) :=
    (List.Sublist.refl before).append (List.sublist_cons_self _ after)
  refine ⟨h.distinct.sublist (hsub.map Prod.fst), fun entry hentry =>
    h.numbered entry (hsub.subset hentry), h.past, ?_, fun entry hentry =>
    h.settled entry (hsub.subset hentry), h.opened⟩
  have hperm := held_perm before after id f
  rw [hf, List.nil_append] at hperm
  exact h.balanced.perm hperm

theorem closing (h : Accounts l followers attempts) : Accounts l.closing followers attempts := by
  obtain ⟨-, hnumber, hfeed⟩ := l.closing_eq
  refine ⟨h.distinct, ?_, ?_, h.balanced.closing, h.settled, ?_⟩
  · rw [hnumber]
    exact h.numbered
  · rw [hnumber]
    exact h.past
  · rw [hfeed]
    exact h.opened

/-- However bindings come, act and go, the accounts are kept. -/
theorem move (h : Accounts l followers attempts) {others : Followers} {made : List Attempt}
    (hmove : Move l followers made l' others) : Accounts l' others (attempts ++ made) := by
  cases hmove with
  | rest =>
      rw [List.append_nil]
      exact h
  | made hturn => exact h.registering.turn hturn
  | asked hturn => exact h.turn hturn
  | dropped hturn hnone =>
      have hlast := (h.turn hturn).leaving hnone
      exact hlast

theorem length_held (h : Accounts l followers attempts) :
    followers.held.length = followers.following attempts := by
  have hsettled := h.settled
  unfold Followers.held Followers.following
  clear h
  induction followers with
  | nil => rfl
  | cons entry rest ih =>
      have hrest := ih fun other hother => hsettled other (List.mem_cons_of_mem entry hother)
      have hfirst : entry.2.feeds.length =
          (!entry.2.destroyed && lastSucceeded attempts entry.1).toNat := by
        rw [hsettled entry List.mem_cons_self]
        cases entry.2.destroyed <;> rfl
      rw [List.flatMap_cons, List.length_append, hrest, hfirst, List.countP_cons]
      cases !entry.2.destroyed && lastSucceeded attempts entry.1 <;> simp [Nat.add_comm]

/-- The live queries are as many as the bindings that ought to hold one, none if the model
is destroyed. -/
theorem length_live (h : Accounts l followers attempts) :
    l.live.length = if l.destroyed then 0 else followers.following attempts := by
  rw [h.balanced.live_perm.length_eq]
  split
  · rfl
  · exact h.length_held

end Accounts

end LiveDocuments
