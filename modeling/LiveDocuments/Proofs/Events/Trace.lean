import LiveDocuments.Events.Hub
import Mathlib.Data.List.Basic
import Mathlib.Data.List.Induction
import Mathlib.Data.List.Nodup

/-!
# What the trace of a hub tells

A trace is read without the hub: which ids were given out and which were taken back, which
of them stand at a moment, which dispatches have begun, with the listeners they were begun
for, and whom each of them called. `IsTruthful` says that every answer in a trace is the one
that the trace before it calls for.
-/

namespace LiveDocuments

variable {E K : Type}

namespace Occurrence

/-- The id that was given out. -/
def joined? : Occurrence E K → Option ListenerId
  | joined id => some id
  | _ => none

/-- The id that was taken back. -/
def removed? : Occurrence E K → Option ListenerId
  | left id true => some id
  | _ => none

/-- The event whose dispatch began, with the ids it began for. -/
def begun? : Occurrence E K → Option (E × List ListenerId)
  | began _ event ids => some (event, ids)
  | _ => none

/-- The id that was called in the dispatch of a number, with the event it was called for. -/
def call? (n : Nat) : Occurrence E K → Option (ListenerId × E)
  | called dispatch id event => if dispatch = n then some (id, event) else none
  | _ => none

end Occurrence

namespace Trace

variable {trace before after : List (Occurrence E K)} {o : Occurrence E K} {n : Nat}
  {event : E} {ids : List ListenerId}

/-! ## Reading a trace -/

/-- The ids given out, in order. -/
def joined (trace : List (Occurrence E K)) : List ListenerId :=
  trace.filterMap Occurrence.joined?

/-- The ids taken back. -/
def removed (trace : List (Occurrence E K)) : List ListenerId :=
  trace.filterMap Occurrence.removed?

/-- The ids given out and not taken back, in order. -/
def standing (trace : List (Occurrence E K)) : List ListenerId :=
  (joined trace).filter (· ∉ removed trace)

/-- The dispatches that have begun, in order. -/
def begun (trace : List (Occurrence E K)) : List (E × List ListenerId) :=
  trace.filterMap Occurrence.begun?

/-- The calls made in the dispatch of a number, in order. -/
def calls (n : Nat) (trace : List (Occurrence E K)) : List (ListenerId × E) :=
  trace.filterMap (Occurrence.call? n)

/-- The calls that the dispatch of a number has to make. -/
def due (n : Nat) (trace : List (Occurrence E K)) : List (ListenerId × E) :=
  match (begun trace)[n]? with
  | some (event, ids) => ids.map (·, event)
  | none => []

@[simp] theorem joined_append : joined (before ++ after) = joined before ++ joined after :=
  List.filterMap_append

@[simp] theorem removed_append : removed (before ++ after) = removed before ++ removed after :=
  List.filterMap_append

@[simp] theorem begun_append : begun (before ++ after) = begun before ++ begun after :=
  List.filterMap_append

@[simp] theorem calls_append : calls n (before ++ after) = calls n before ++ calls n after :=
  List.filterMap_append

theorem joined_other (h : o.joined? = none) : joined (trace ++ [o]) = joined trace := by
  rw [joined_append, joined, joined, List.filterMap_cons_none h]
  exact List.append_nil _

theorem removed_other (h : o.removed? = none) : removed (trace ++ [o]) = removed trace := by
  rw [removed_append, removed, removed, List.filterMap_cons_none h]
  exact List.append_nil _

theorem begun_other (h : o.begun? = none) : begun (trace ++ [o]) = begun trace := by
  rw [begun_append, begun, begun, List.filterMap_cons_none h]
  exact List.append_nil _

theorem calls_other (h : o.call? n = none) : calls n (trace ++ [o]) = calls n trace := by
  rw [calls_append, calls, calls, List.filterMap_cons_none h]
  exact List.append_nil _

theorem calls_called (id : ListenerId) (event : E) :
    calls n (trace ++ [.called n id event]) = calls n trace ++ [(id, event)] := by
  have hcall : calls n [(.called n id event : Occurrence E K)] = [(id, event)] :=
    List.filterMap_cons_some (if_pos rfl)
  rw [calls_append, hcall]

theorem calls_called_of_ne {m : Nat} (h : m ≠ n) (id : ListenerId) (event : E) :
    calls m (trace ++ [.called n id event]) = calls m trace :=
  calls_other (if_neg h.symm)

theorem due_of_prefix (h : before <+: trace) (hn : n < (begun before).length) :
    due n trace = due n before := by
  obtain ⟨after, rfl⟩ := h
  rw [due, due, begun_append, List.getElem?_append_left hn]

theorem due_eq_nil (hn : (begun trace).length ≤ n) : due n trace = [] := by
  rw [due, List.getElem?_eq_none hn]

theorem mem_standing {id : ListenerId} :
    id ∈ standing trace ↔ id ∈ joined trace ∧ id ∉ removed trace := by
  rw [standing, List.mem_filter, decide_eq_true_iff]

/-- What neither gives out ids nor takes them back leaves those that stand. -/
theorem standing_other (hjoined : o.joined? = none) (hremoved : o.removed? = none) :
    standing (trace ++ [o]) = standing trace := by
  rw [standing, joined_other hjoined, removed_other hremoved, standing]

theorem standing_joined {id : ListenerId} (hnew : id ∉ removed trace) :
    standing (trace ++ [.joined id]) = standing trace ++ [id] := by
  rw [standing, joined_append, removed_other rfl, List.filter_append, standing]
  exact congrArg _ (List.filter_cons_of_pos (decide_eq_true hnew))

theorem standing_left {id : ListenerId} {known : Bool}
    (hknown : known = true ↔ id ∈ standing trace) :
    standing (trace ++ [.left id known]) = (standing trace).filter (· ≠ id) := by
  have hremoved : removed [(.left id known : Occurrence E K)] = if known then [id] else [] := by
    cases known <;> rfl
  rw [standing, joined_other rfl, removed_append, hremoved, standing, List.filter_filter]
  apply List.filter_congr
  intro other hother
  cases known with
  | true => simp [not_or, and_comm]
  | false =>
      have hgone : other = id → other ∈ removed trace := by
        rintro rfl
        by_contra hnot
        exact Bool.false_ne_true (hknown.mpr (mem_standing.mpr ⟨hother, hnot⟩))
      simpa using fun hnot hid => hnot (hgone hid)

/-! ## Traces that tell the truth -/

/-- An answer is the one that what was before it calls for. -/
def Fits (before : List (Occurrence E K)) : Occurrence E K → Prop
  | .joined id => id = (joined before).length + 1
  | .left id known => known = true ↔ id ∈ standing before
  | .counted count => count = (standing before).length
  | .began dispatch _ ids => dispatch = (begun before).length ∧ ids = standing before
  | .called dispatch _ _ => dispatch < (begun before).length
  | .heard .. => True

/-- Every occurrence fits what was before it. -/
def IsTruthful (trace : List (Occurrence E K)) : Prop :=
  ∀ before o after, trace = before ++ o :: after → Fits before o

theorem isTruthful_nil : IsTruthful ([] : List (Occurrence E K)) := by
  intro before o after h
  cases before <;> cases h

theorem isTruthful_append_singleton :
    IsTruthful (trace ++ [o]) ↔ IsTruthful trace ∧ Fits trace o := by
  constructor
  · intro h
    refine ⟨fun before other after heq => h before other (after ++ [o]) ?_, h trace o [] rfl⟩
    rw [heq, List.append_assoc, List.cons_append]
  · rintro ⟨h, hfits⟩ before other after heq
    rcases List.eq_nil_or_concat after with rfl | ⟨init, last, rfl⟩
    · obtain ⟨rfl, hlast⟩ := List.append_inj' heq rfl
      obtain rfl := List.singleton_inj.mp hlast
      exact hfits
    · have hsplit : trace ++ [o] = (before ++ other :: init) ++ [last] := by
        rw [heq]
        simp
      exact h before other init (List.append_inj_left' hsplit rfl)

namespace IsTruthful

theorem of_append (h : IsTruthful (before ++ after)) : IsTruthful before := by
  intro earlier o later heq
  refine h earlier o (later ++ after) ?_
  rw [heq, List.append_assoc, List.cons_append]

theorem joined_eq (h : IsTruthful trace) :
    joined trace = List.range' 1 (joined trace).length := by
  induction trace using List.reverseRecOn with
  | nil => rfl
  | append_singleton trace o ih =>
      obtain ⟨hbefore, hfits⟩ := isTruthful_append_singleton.mp h
      cases o with
      | joined id =>
          have hid : joined [(.joined id : Occurrence E K)] = [id] := rfl
          rw [joined_append, hid, List.length_append, List.length_singleton,
            List.range'_concat, ← ih hbefore, Nat.one_mul, Nat.add_comm 1, ← hfits]
      | _ =>
          rw [joined_other rfl]
          exact ih hbefore

theorem mem_joined_of_mem_removed (h : IsTruthful trace) {id : ListenerId}
    (hid : id ∈ removed trace) : id ∈ joined trace := by
  induction trace using List.reverseRecOn with
  | nil => exact absurd hid List.not_mem_nil
  | append_singleton trace o ih =>
      obtain ⟨hbefore, hfits⟩ := isTruthful_append_singleton.mp h
      rw [removed_append, List.mem_append] at hid
      rw [joined_append, List.mem_append]
      refine .inl ?_
      rcases hid with hold | hnew
      · exact ih hbefore hold
      · cases o with
        | left other known =>
            cases known with
            | false => exact absurd hnew List.not_mem_nil
            | true =>
                obtain rfl := List.mem_singleton.mp hnew
                exact (mem_standing.mp (hfits.mp rfl)).1
        | _ => exact absurd hnew List.not_mem_nil

theorem calls_eq_nil (h : IsTruthful trace) (hn : (begun trace).length ≤ n) :
    calls n trace = [] := by
  induction trace using List.reverseRecOn with
  | nil => rfl
  | append_singleton trace o ih =>
      obtain ⟨hbefore, hfits⟩ := isTruthful_append_singleton.mp h
      rw [begun_append, List.length_append] at hn
      rw [calls_append, ih hbefore (Nat.le_of_add_right_le hn), List.nil_append]
      cases o with
      | called dispatch id event =>
          have hne : dispatch ≠ n :=
            Nat.ne_of_lt (Nat.lt_of_lt_of_le hfits (Nat.le_of_add_right_le hn))
          exact List.filterMap_cons_none (if_neg hne)
      | _ => rfl

theorem exists_began (h : IsTruthful trace) (hn : n < (begun trace).length) :
    ∃ before event ids after, trace = before ++ .began n event ids :: after := by
  induction trace using List.reverseRecOn with
  | nil => exact absurd hn (Nat.not_lt_zero n)
  | append_singleton trace o ih =>
      obtain ⟨hbefore, hfits⟩ := isTruthful_append_singleton.mp h
      by_cases hold : n < (begun trace).length
      · obtain ⟨before, event, ids, after, rfl⟩ := ih hbefore hold
        exact ⟨before, event, ids, after ++ [o], by simp⟩
      · rw [begun_append, List.length_append] at hn
        cases o with
        | began dispatch event ids =>
            have hnumber : dispatch = n := by
              rw [hfits.1]
              exact Nat.le_antisymm (Nat.not_lt.mp hold) (Nat.lt_succ_iff.mp hn)
            exact ⟨trace, event, ids, [], by rw [hnumber]⟩
        | _ => exact absurd hn hold

theorem due_eq (h : IsTruthful (before ++ .began n event ids :: after)) :
    due n (before ++ .began n event ids :: after) = ids.map (·, event) := by
  have hnumber := (h before _ after rfl).1
  have hbegun : begun (before ++ .began n event ids :: after) =
      begun before ++ (event, ids) :: begun after := begun_append
  rw [due, hbegun, hnumber, List.getElem?_append_right (Nat.le_refl _), Nat.sub_self]
  rfl

/-- A dispatch that did what it had to has made its calls after it began. -/
theorem calls_after (h : IsTruthful (before ++ .began n event ids :: after))
    (hdone : calls n (before ++ .began n event ids :: after) =
      due n (before ++ .began n event ids :: after)) :
    calls n before = [] ∧ calls n after = ids.map (·, event) := by
  have hbefore : calls n before = [] :=
    h.of_append.calls_eq_nil (Nat.le_of_eq (h before _ after rfl).1.symm)
  have hafter : calls n (.began n event ids :: after) = calls n after :=
    List.filterMap_cons_none rfl
  rw [h.due_eq, calls_append, hbefore, hafter, List.nil_append] at hdone
  exact ⟨hbefore, hdone⟩

/-- An id that was given out and then taken back, known or not, stands no more. -/
theorem not_mem_standing {id : ListenerId} {known : Bool}
    (h : IsTruthful (before ++ .left id known :: after)) (hid : id ∈ joined before) :
    id ∉ standing (before ++ .left id known :: after) := by
  intro hstanding
  have hremoved := (mem_standing.mp hstanding).2
  rw [removed_append, List.mem_append, not_or] at hremoved
  have hknown := h before _ after rfl
  cases known with
  | true => exact hremoved.2 List.mem_cons_self
  | false => exact Bool.false_ne_true (hknown.mpr (mem_standing.mpr ⟨hid, hremoved.1⟩))

end IsTruthful

end Trace

end LiveDocuments
