import LiveDocuments.Model.Basic
import Mathlib.Data.List.Perm.Basic
import Mathlib.Data.List.Nodup

/-!
# Ledgers of live queries

A model opens live queries for its bindings and stops them again. A `Ledger` is what has
to be known of the model to tell which queries are live and how many were stopped, and a
`Follower` is what has to be known of a binding. A ledger is balanced if the live queries
are those the bindings hold and every query that was opened is live or counted as stopped.

All that a binding ever does is one of five things (`Turn`), and each of them keeps the
balance.
-/

namespace LiveDocuments

/-! ## Ledgers -/

/-- The live queries of a store and what a model knows of them. -/
structure Ledger where
  live : List FeedId
  known : List FeedId
  nextFeed : FeedId
  stopped : Nat
  nextBinding : BindingId
  destroyed : Bool

namespace Ledger

/-- A live query stopped; nothing happens if it is not live. -/
def stop (l : Ledger) (feed : FeedId) : Ledger :=
  if feed ∈ l.live then
    { l with live := l.live.filter (· ≠ feed), stopped := l.stopped + 1 }
  else l

/-- Several live queries stopped. -/
def stopAll (l : Ledger) (feeds : List FeedId) : Ledger := feeds.foldl stop l

/-- A live query opened. -/
def opening (l : Ledger) : Ledger :=
  { l with
    live := l.live ++ [l.nextFeed]
    known := l.known ++ [l.nextFeed]
    nextFeed := l.nextFeed + 1 }

/-- A number given to a new binding. -/
def registering (l : Ledger) : Ledger := { l with nextBinding := l.nextBinding + 1 }

/-- All live queries that the model knows of stopped, and no more opened. -/
def closing (l : Ledger) : Ledger :=
  if l.destroyed then l else { l.stopAll l.known with known := [], destroyed := true }

@[simp] theorem stopAll_nil (l : Ledger) : l.stopAll [] = l := rfl

theorem stopAll_cons (l : Ledger) (feed : FeedId) (rest : List FeedId) :
    l.stopAll (feed :: rest) = (l.stop feed).stopAll rest := rfl

theorem stop_eq (l : Ledger) (feed : FeedId) :
    l.stop feed = { l with live := (l.stop feed).live, stopped := (l.stop feed).stopped } := by
  unfold stop
  split <;> rfl

theorem stopAll_eq (l : Ledger) (feeds : List FeedId) :
    l.stopAll feeds =
      { l with live := (l.stopAll feeds).live, stopped := (l.stopAll feeds).stopped } := by
  induction feeds generalizing l with
  | nil => rfl
  | cons feed rest ih => rw [stopAll_cons, ih, stop_eq]

theorem closing_eq (l : Ledger) :
    l.closing.destroyed = true ∧ l.closing.nextBinding = l.nextBinding ∧
      l.closing.nextFeed = l.nextFeed := by
  unfold closing
  split
  · next h => exact ⟨h, rfl, rfl⟩
  · rw [stopAll_eq]
    exact ⟨rfl, rfl, rfl⟩

theorem live_stop (l : Ledger) (feed : FeedId) :
    (l.stop feed).live = l.live.filter (· ≠ feed) := by
  unfold stop
  split
  · rfl
  · next h =>
      refine (List.filter_eq_self.mpr fun other hother => ?_).symm
      exact decide_eq_true fun heq => h (heq ▸ hother)

theorem live_stopAll (l : Ledger) (feeds : List FeedId) :
    (l.stopAll feeds).live = l.live.filter (· ∉ feeds) := by
  induction feeds generalizing l with
  | nil => simp
  | cons feed rest ih =>
      rw [stopAll_cons, ih, live_stop, List.filter_filter]
      exact List.filter_congr fun other _ => by simp [Bool.and_comm]

/-! ## Ledgers in order -/

/-- Every query that was opened is live or stopped, and the model knows of the live ones. -/
structure Sound (l : Ledger) : Prop where
  distinct : l.live.Nodup
  used : ∀ feed ∈ l.live, feed < l.nextFeed
  known : ∀ feed ∈ l.live, feed ∈ l.known
  accounted : l.stopped + l.live.length = l.nextFeed

namespace Sound

variable {l : Ledger}

theorem live_stop (h : l.Sound) (feed : FeedId) : (l.stop feed).live = l.live.erase feed := by
  rw [Ledger.live_stop, h.distinct.erase_eq_filter]
  refine List.filter_congr fun other _ => ?_
  rw [decide_not, bne, beq_eq_decide]

theorem stop (h : l.Sound) (feed : FeedId) : (l.stop feed).Sound := by
  have hsub : ∀ other ∈ (l.stop feed).live, other ∈ l.live := by
    intro other hother
    rw [h.live_stop] at hother
    exact List.mem_of_mem_erase hother
  have haccounted : (l.stop feed).stopped + (l.stop feed).live.length = l.nextFeed := by
    have hbefore := h.accounted
    rw [h.live_stop]
    unfold Ledger.stop
    split
    · next hlive =>
        have hlength := List.length_erase_add_one hlive
        show l.stopped + 1 + (l.live.erase feed).length = l.nextFeed
        omega
    · next hlive => rwa [List.erase_of_not_mem hlive]
  rw [stop_eq]
  refine ⟨?_, fun other hother => h.used other (hsub other hother),
    fun other hother => h.known other (hsub other hother), haccounted⟩
  rw [h.live_stop]
  exact h.distinct.erase feed

theorem stopAll (h : l.Sound) (feeds : List FeedId) : (l.stopAll feeds).Sound := by
  induction feeds generalizing l with
  | nil => exact h
  | cons feed rest ih => exact ih (h.stop feed)

theorem registering (h : l.Sound) : l.registering.Sound :=
  ⟨h.distinct, h.used, h.known, h.accounted⟩

theorem opening (h : l.Sound) : l.opening.Sound where
  distinct := by
    refine List.nodup_append.mpr ⟨h.distinct, List.nodup_singleton _, ?_⟩
    intro feed hfeed other hother
    obtain rfl := List.mem_singleton.mp hother
    exact Nat.ne_of_lt (h.used feed hfeed)
  used := by
    intro feed hfeed
    rcases List.mem_append.mp hfeed with hfeed | hfeed
    · exact Nat.lt_succ_of_lt (h.used feed hfeed)
    · obtain rfl := List.mem_singleton.mp hfeed
      exact Nat.lt_succ_self _
  known := by
    intro feed hfeed
    exact List.mem_append.mpr ((List.mem_append.mp hfeed).imp_left (h.known feed))
  accounted := by
    have := h.accounted
    simp only [Ledger.opening, List.length_append, List.length_singleton]
    omega

end Sound

/-- The live queries are those held, none if the model is destroyed. -/
structure Balanced (l : Ledger) (held : List FeedId) : Prop extends l.Sound where
  live_perm : l.live.Perm (if l.destroyed then [] else held)

namespace Balanced

variable {l : Ledger} {held others feeds : List FeedId}

theorem perm (h : l.Balanced held) (hperm : held.Perm others) : l.Balanced others where
  toSound := h.toSound
  live_perm := by
    refine h.live_perm.trans ?_
    split
    · exact .refl _
    · exact hperm

theorem stop {feed : FeedId} (h : l.Balanced (feed :: held)) : (l.stop feed).Balanced held where
  toSound := h.toSound.stop feed
  live_perm := by
    have hdestroyed : (l.stop feed).destroyed = l.destroyed := by rw [stop_eq]
    have herase := h.live_perm.erase feed
    rw [hdestroyed, h.live_stop]
    refine herase.trans ?_
    split
    · exact .refl _
    · rw [List.erase_cons_head]

theorem stopAll (h : l.Balanced (feeds ++ held)) : (l.stopAll feeds).Balanced held := by
  induction feeds generalizing l with
  | nil => exact h
  | cons feed rest ih => exact ih h.stop

theorem opening (h : l.Balanced held) (halive : l.destroyed = false) :
    l.opening.Balanced (l.nextFeed :: held) where
  toSound := h.toSound.opening
  live_perm := by
    have hperm := h.live_perm
    rw [halive] at hperm
    show (l.live ++ [l.nextFeed]).Perm (if l.destroyed then [] else l.nextFeed :: held)
    rw [halive]
    exact (hperm.append_right _).trans (List.perm_append_singleton _ _)

theorem registering (h : l.Balanced held) : l.registering.Balanced held :=
  ⟨h.toSound.registering, h.live_perm⟩

theorem closing (h : l.Balanced held) : l.closing.Balanced held := by
  unfold Ledger.closing
  split
  · exact h
  have hlive : (l.stopAll l.known).live = [] := by
    rw [live_stopAll, List.filter_eq_nil_iff]
    intro feed hfeed
    simpa using h.known feed hfeed
  have hsound := h.toSound.stopAll l.known
  have haccounted := hsound.accounted
  refine ⟨⟨hsound.distinct, hsound.used, ?_, haccounted⟩, ?_⟩
  · intro feed hfeed
    rw [hlive] at hfeed
    cases hfeed
  · show (l.stopAll l.known).live.Perm []
    rw [hlive]

end Balanced

end Ledger

/-! ## What a binding does -/

/-- What a binding holds, and whether it has been destroyed. -/
structure Follower where
  feeds : List FeedId
  destroyed : Bool

namespace Follower

/-- A binding that has just been made. -/
def fresh : Follower := ⟨[], false⟩

/-- The binding holds one live query if its last attempt succeeded, and none otherwise or
once it is destroyed. -/
def Settled (f : Follower) (succeeded : Bool) : Prop :=
  f.feeds.length = if f.destroyed then 0 else succeeded.toNat

theorem settled_fresh : fresh.Settled false := rfl

theorem Settled.feeds_eq_nil {f : Follower} {succeeded : Bool} (h : f.Settled succeeded)
    (hdestroyed : f.destroyed = true) : f.feeds = [] := by
  rw [Settled, if_pos hdestroyed] at h
  exact List.length_eq_zero_iff.mp h

end Follower

/-- What one operation on a binding does to the ledger and the binding, and how the attempt
to query ended if there was one. A destroyed binding may still try, but keeps nothing. -/
inductive Turn (l : Ledger) (f : Follower) : Option Bool → Ledger → Follower → Prop where
  | rest : Turn l f none l f
  | refused : Turn l f (some false) (l.stopAll f.feeds) ⟨[], f.destroyed⟩
  | renewed (hmodel : l.destroyed = false) (hbinding : f.destroyed = false) :
      Turn l f (some true) (l.stopAll f.feeds).opening ⟨[l.nextFeed], false⟩
  | vain (hmodel : l.destroyed = false) (hbinding : f.destroyed = true) :
      Turn l f (some true) (l.opening.stopAll [l.nextFeed]) f
  | ended : Turn l f none (l.stopAll f.feeds) ⟨[], true⟩

namespace Turn

variable {l l' : Ledger} {f f' : Follower} {attempt : Option Bool}

theorem of_eq (hl : l' = l) (hf : f' = f) : Turn l f none l' f' := by
  rw [hl, hf]
  exact .rest

theorem of_ended (hl : l' = l.stopAll f.feeds) (hf : f' = ⟨[], true⟩) :
    Turn l f none l' f' := by
  rw [hl, hf]
  exact .ended

/-- Nothing but live queries is touched, and one is opened for each success. -/
theorem ledger_eq (h : Turn l f attempt l' f') :
    l'.destroyed = l.destroyed ∧ l'.nextBinding = l.nextBinding ∧
      l'.nextFeed = l.nextFeed + (attempt.getD false).toNat := by
  cases h with
  | rest => exact ⟨rfl, rfl, rfl⟩
  | refused =>
      rw [Ledger.stopAll_eq]
      exact ⟨rfl, rfl, rfl⟩
  | renewed _ _ =>
      rw [Ledger.stopAll_eq]
      exact ⟨rfl, rfl, rfl⟩
  | vain _ _ =>
      rw [Ledger.stopAll_eq]
      exact ⟨rfl, rfl, rfl⟩
  | ended =>
      rw [Ledger.stopAll_eq]
      exact ⟨rfl, rfl, rfl⟩

theorem balanced (h : Turn l f attempt l' f') {held : List FeedId}
    (hl : l.Balanced (f.feeds ++ held)) : l'.Balanced (f'.feeds ++ held) := by
  cases h with
  | rest => exact hl
  | refused => exact hl.stopAll
  | renewed hmodel _ =>
      have hopened := hl.stopAll.opening (by rw [Ledger.stopAll_eq, hmodel])
      rw [Ledger.stopAll_eq] at hopened ⊢
      exact hopened
  | vain hmodel _ => exact (hl.opening hmodel).stop
  | ended => exact hl.stopAll

theorem destroyed_eq (h : Turn l f attempt l' f') (hf : f.destroyed = true) :
    f'.destroyed = true := by
  cases h with
  | rest => exact hf
  | refused => exact hf
  | renewed _ hbinding => exact absurd (hbinding.symm.trans hf) Bool.false_ne_true
  | vain _ _ => exact hf
  | ended => rfl

theorem destroyed_of_attempt {granted : Bool} (h : Turn l f (some granted) l' f') :
    f'.destroyed = f.destroyed := by
  cases h with
  | refused => rfl
  | renewed _ hbinding => exact hbinding.symm
  | vain _ _ => rfl

theorem settled (h : Turn l f attempt l' f') {succeeded : Bool} (hf : f.Settled succeeded) :
    f'.Settled (attempt.getD succeeded) := by
  cases h with
  | rest => exact hf
  | refused => simp [Follower.Settled]
  | renewed _ _ => rfl
  | vain _ hbinding =>
      have hnil := hf.feeds_eq_nil hbinding
      simp [Follower.Settled, hnil, hbinding]
  | ended => rfl

end Turn

end LiveDocuments
