import LiveDocuments.Store.Diff
import Mathlib.Data.List.Forall2
import Mathlib.Data.List.Nodup

/-!
# A strict reader of changes

A reader holds a list of documents and takes the changes of a feed one at a time.
It is strict: a document may only be added if it is not held, and only at the end
or directly before one that is held; only a document that is held may be changed
or removed. `replay?` is the list held after several changes, and nothing as soon
as one of them is not legal.

`Replays limit held events final` says more, in the form in which the induction
over a run needs it: every change on the way is legal, and the reader never holds
more than `limit` documents, neither before, nor between, nor after them.
-/

namespace LiveDocuments

namespace Results

/-- The list with an entry directly before the one of that id; nothing if there is
no such entry. -/
def placeBefore? (next : DocumentId) (entry : DocumentId × Json) : Results → Option Results
  | [] => none
  | held :: rest =>
      if held.1 = next then some (entry :: held :: rest)
      else (placeBefore? next entry rest).map fun rest => held :: rest

@[simp] theorem placeBefore?_nil (next : DocumentId) (entry : DocumentId × Json) :
    placeBefore? next entry [] = none := rfl

theorem placeBefore?_cons (next : DocumentId) (entry held : DocumentId × Json)
    (rest : Results) :
    placeBefore? next entry (held :: rest) =
      if held.1 = next then some (entry :: held :: rest)
      else (placeBefore? next entry rest).map fun rest => held :: rest := rfl

/-- The list with an entry at its end, or directly before another one. -/
def place? (before : Option DocumentId) (entry : DocumentId × Json) (held : Results) :
    Option Results :=
  match before with
  | none => some (held ++ [entry])
  | some next => placeBefore? next entry held

/-- The list with the document of an id replaced. -/
def revise (id : DocumentId) (document : Json) (held : Results) : Results :=
  held.map fun entry => if entry.1 = id then (id, document) else entry

/-- The list without the document of an id. -/
def discard (id : DocumentId) (held : Results) : Results :=
  held.filter fun entry => entry.1 ≠ id

/-- What a strict reader holds after one change, if the change is legal. -/
def receive? (held : Results) : ChangeEvent → Option Results
  | .added id document before =>
      if id ∈ ids held then none else place? before (id, document) held
  | .changed id document => if id ∈ ids held then some (revise id document held) else none
  | .removed id => if id ∈ ids held then some (discard id held) else none

/-- What a strict reader holds after several changes, if all of them are legal. -/
def replay? (held : Results) : List ChangeEvent → Option Results
  | [] => some held
  | event :: rest => (receive? held event).bind fun next => replay? next rest

@[simp] theorem replay?_nil (held : Results) : replay? held [] = some held := rfl

theorem replay?_cons (held : Results) (event : ChangeEvent) (rest : List ChangeEvent) :
    replay? held (event :: rest) =
      (receive? held event).bind fun next => replay? next rest := rfl

/-! ## The ids held -/

@[simp] theorem ids_nil : ids [] = [] := rfl

@[simp] theorem ids_cons (entry : DocumentId × Json) (rest : Results) :
    ids (entry :: rest) = entry.1 :: ids rest := rfl

@[simp] theorem ids_append (front back : Results) :
    ids (front ++ back) = ids front ++ ids back := List.map_append

theorem ids_filter (keep : DocumentId → Bool) (held : Results) :
    ids (held.filter fun entry => keep entry.1) = (ids held).filter keep := by
  simp only [ids, List.filter_map]
  rfl

@[simp] theorem ids_revise (id : DocumentId) (document : Json) (held : Results) :
    ids (revise id document held) = ids held := by
  simp only [ids, revise, List.map_map]
  apply List.map_congr_left
  intro entry _
  by_cases h : entry.1 = id <;> simp [h]

theorem ids_discard (id : DocumentId) (held : Results) :
    ids (discard id held) = (ids held).filter fun other => other ≠ id :=
  ids_filter (fun other => other ≠ id) held

theorem placeBefore?_perm {next : DocumentId} {entry : DocumentId × Json}
    {held placed : Results} (h : placeBefore? next entry held = some placed) :
    placed.Perm (entry :: held) := by
  induction held generalizing placed with
  | nil => cases h
  | cons first rest ih =>
      rw [placeBefore?_cons] at h
      split at h
      · obtain rfl := Option.some.inj h
        exact .refl _
      · rcases Option.map_eq_some_iff.mp h with ⟨more, hmore, rfl⟩
        exact ((ih hmore).cons first).trans (.swap entry first rest)

theorem nodup_receive? {held next : Results} {event : ChangeEvent} (hheld : (ids held).Nodup)
    (hlegal : receive? held event = some next) : (ids next).Nodup := by
  cases event with
  | added id document before =>
      simp only [receive?] at hlegal
      split at hlegal
      · cases hlegal
      · next hnew =>
          have hperm : next.Perm ((id, document) :: held) := by
            cases before with
            | none =>
                obtain rfl := Option.some.inj hlegal
                exact List.perm_append_singleton _ _
            | some other => exact placeBefore?_perm hlegal
          have hids : (ids next).Perm (id :: ids held) := hperm.map Prod.fst
          exact hids.nodup_iff.mpr (List.nodup_cons.mpr ⟨hnew, hheld⟩)
  | changed id document =>
      simp only [receive?] at hlegal
      split at hlegal
      · obtain rfl := Option.some.inj hlegal
        rw [ids_revise]
        exact hheld
      · cases hlegal
  | removed id =>
      simp only [receive?] at hlegal
      split at hlegal
      · obtain rfl := Option.some.inj hlegal
        rw [ids_discard]
        exact hheld.filter _
      · cases hlegal

/-! ## Replaying within a limit -/

/-- All changes are legal in their turn and lead from one list to the other, and no
list on the way is longer than the limit. -/
inductive Replays (limit : Nat) : Results → List ChangeEvent → Results → Prop where
  | nil {held : Results} (hroom : held.length ≤ limit) : Replays limit held [] held
  | cons {held next final : Results} {event : ChangeEvent} {rest : List ChangeEvent}
      (hroom : held.length ≤ limit) (hlegal : receive? held event = some next)
      (hrest : Replays limit next rest final) : Replays limit held (event :: rest) final

namespace Replays

theorem single {limit : Nat} {held next : Results} {event : ChangeEvent}
    (hroom : held.length ≤ limit) (hroom' : next.length ≤ limit)
    (hlegal : receive? held event = some next) : Replays limit held [event] next :=
  .cons hroom hlegal (.nil hroom')

theorem append {limit : Nat} {held middle final : Results} {first others : List ChangeEvent}
    (hfirst : Replays limit held first middle) (hothers : Replays limit middle others final) :
    Replays limit held (first ++ others) final := by
  induction hfirst with
  | nil _ => exact hothers
  | cons hroom hlegal _ ih => exact .cons hroom hlegal (ih hothers)

theorem room {limit : Nat} {held final : Results} {events : List ChangeEvent}
    (h : Replays limit held events final) : held.length ≤ limit := by
  cases h with
  | nil hroom => exact hroom
  | cons hroom _ _ => exact hroom

theorem of_nil {limit : Nat} {held final : Results} (h : Replays limit held [] final) :
    final = held := by
  cases h with
  | nil _ => rfl

theorem length_le {limit : Nat} {held final : Results} {events : List ChangeEvent}
    (h : Replays limit held events final) : final.length ≤ limit := by
  induction h with
  | nil hroom => exact hroom
  | cons _ _ _ ih => exact ih

theorem nodup {limit : Nat} {held final : Results} {events : List ChangeEvent}
    (h : Replays limit held events final) (hheld : (ids held).Nodup) : (ids final).Nodup := by
  induction h with
  | nil _ => exact hheld
  | cons _ hlegal _ ih => exact ih (nodup_receive? hheld hlegal)

theorem replay?_eq {limit : Nat} {held final : Results} {events : List ChangeEvent}
    (h : Replays limit held events final) : replay? held events = some final := by
  induction h with
  | nil _ => rfl
  | cons _ hlegal _ ih => rw [replay?_cons, hlegal, Option.bind_some, ih]

theorem of_prefix {limit : Nat} {held final : Results} {events earlier : List ChangeEvent}
    (h : Replays limit held events final) (hearlier : earlier <+: events) :
    ∃ view, Replays limit held earlier view := by
  induction h generalizing earlier with
  | nil hroom =>
      obtain rfl := List.prefix_nil.mp hearlier
      exact ⟨_, .nil hroom⟩
  | cons hroom hlegal _ ih =>
      cases earlier with
      | nil => exact ⟨_, .nil hroom⟩
      | cons event rest =>
          rcases List.cons_prefix_cons.mp hearlier with ⟨rfl, hrest⟩
          obtain ⟨view, hview⟩ := ih hrest
          exact ⟨view, .cons hroom hlegal hview⟩

end Replays

/-! ## Lists that hold the same documents -/

/-- The same ids in the same order, with the same documents. -/
def Agrees (a b : Results) : Prop :=
  List.Forall₂ (fun x y : DocumentId × Json => x.1 = y.1 ∧ x.2.same y.2 = true) a b

namespace Agrees

theorem refl (a : Results) : Agrees a a :=
  List.forall₂_same.2 fun x _ => ⟨rfl, Json.same_refl x.2⟩

theorem symm {a b : Results} (h : Agrees a b) : Agrees b a := by
  refine List.Forall₂.flip (List.Forall₂.imp (fun x y hxy => ⟨hxy.1.symm, ?_⟩) h)
  rw [Json.same_comm]
  exact hxy.2

theorem trans {a b c : Results} (hab : Agrees a b) (hbc : Agrees b c) : Agrees a c := by
  induction hab generalizing c with
  | nil => exact hbc
  | cons hxy _ ih =>
      cases hbc with
      | cons hyz hrest =>
          exact .cons ⟨hxy.1.trans hyz.1, Json.same_trans hxy.2 hyz.2⟩ (ih hrest)

theorem ids_eq {a b : Results} (h : Agrees a b) : ids a = ids b := by
  induction h with
  | nil => rfl
  | cons hxy _ ih => rw [ids_cons, ids_cons, hxy.1, ih]

theorem length_eq {a b : Results} (h : Agrees a b) : a.length = b.length :=
  List.Forall₂.length_eq h

theorem filter {a b : Results} (h : Agrees a b) (keep : DocumentId → Bool) :
    Agrees (a.filter fun x => keep x.1) (b.filter fun x => keep x.1) := by
  induction h with
  | nil => exact .nil
  | @cons x y _ _ hxy _ ih =>
      have hkeep : keep x.1 = keep y.1 := by rw [hxy.1]
      rw [List.filter_cons, List.filter_cons, hkeep]
      split
      · exact .cons hxy ih
      · exact ih

end Agrees

end Results

end LiveDocuments
