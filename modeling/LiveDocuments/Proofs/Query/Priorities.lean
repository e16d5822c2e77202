import LiveDocuments.Proofs.Query.Order
import LiveDocuments.Proofs.Query.Rejections

/-!
# Whose direction counts

A list of sorters means that the first one that tells two documents apart decides. The sort
order made of it is a map: a property that is asked for again keeps its place and takes the
new direction. So documents are compared sorter by sorter with the direction that was asked
for last (`compare_compileSort`), and that is the order of the list exactly if of all sorters
that read one place of a document the first one asks for the direction its property ends up
with (`compileSort_in_list_order_iff`), in particular if no property is asked for in two
directions (`compare_compileSort_of_unanimous`).
-/

namespace LiveDocuments

/-! ## The first verdict -/

/-- The first of some comparisons that tells apart what is compared. -/
def firstVerdict (verdicts : List Ordering) : Ordering :=
  (verdicts.find? fun verdict => verdict ≠ .eq).getD .eq

@[simp] theorem firstVerdict_nil : firstVerdict [] = .eq := rfl

theorem firstVerdict_cons (verdict : Ordering) (others : List Ordering) :
    firstVerdict (verdict :: others) = verdict.then (firstVerdict others) := by
  cases verdict <;> rfl

theorem firstVerdict_append (front back : List Ordering) :
    firstVerdict (front ++ back) = (firstVerdict front).then (firstVerdict back) := by
  induction front with
  | nil => rfl
  | cons verdict others ih =>
      rw [List.cons_append, firstVerdict_cons, firstVerdict_cons, ih]
      cases verdict <;> rfl

theorem firstVerdict_eq_eq_iff {verdicts : List Ordering} :
    firstVerdict verdicts = .eq ↔ ∀ verdict ∈ verdicts, verdict = .eq := by
  induction verdicts with
  | nil => simp
  | cons verdict others ih => rw [firstVerdict_cons, Ordering.then_eq_eq, ih, List.forall_mem_cons]

/-- Comparisons that tell nothing apart can go before the one that decides. -/
theorem firstVerdict_append_cons {front : List Ordering} {verdict : Ordering}
    (hfront : ∀ other ∈ front, other = .eq) (hverdict : verdict ≠ .eq) (back : List Ordering) :
    firstVerdict (front ++ verdict :: back) = verdict := by
  rw [firstVerdict_append, firstVerdict_eq_eq_iff.mpr hfront, firstVerdict_cons]
  cases verdict with
  | eq => exact absurd rfl hverdict
  | lt => rfl
  | gt => rfl

theorem firstVerdict_map_eraseDups {κ : Type} [DecidableEq κ] (verdict : κ → Ordering)
    (keys : List κ) :
    firstVerdict (keys.eraseDups.map verdict) = firstVerdict (keys.map verdict) := by
  induction keys using List.reverseRecOn with
  | nil => rfl
  | append_singleton front key ih =>
      rw [eraseDups_concat, List.map_append, firstVerdict_append, ← ih]
      split
      · next hmem =>
          cases hfront : firstVerdict (front.eraseDups.map verdict) with
          | eq =>
              have hkey : verdict key = .eq := firstVerdict_eq_eq_iff.mp hfront _
                (List.mem_map_of_mem (List.mem_eraseDups.mpr hmem))
              simp [firstVerdict_cons, hkey]
          | lt => rfl
          | gt => rfl
      · rw [List.map_append, firstVerdict_append]

/-! ## Sorters one by one -/

namespace Direction

theorem orient_lt_injective {d e : Direction} (h : d.orient .lt = e.orient .lt) : d = e := by
  cases d <;> cases e <;> first | rfl | cases h

end Direction

namespace Sorter

/-- The direction that a sorter asks for. -/
def direction (s : Sorter) : Direction := .ofDescending s.descending

/-- The comparison of two documents by one sorter. -/
def compare (s : Sorter) (a b : Json) : Ordering := SortOrder.compareOn (s.path, s.direction) a b

/-- The place of a document that a sorter reads. -/
def steps (s : Sorter) : List (List Char) := Property.steps s.path.toList

/-- The direction that the last of some sorters on a property asks for. -/
def lastDirection (sorters : List Sorter) (property : String) : Direction :=
  SortOrder.lastDirection (sorters.map wish) property

/-- If all sorters on a property ask for one direction, the last one does. -/
theorem lastDirection_of_unanimous {sorters : List Sorter} {s : Sorter} (hs : s ∈ sorters)
    (h : ∀ r ∈ sorters, r.path = s.path → r.direction = s.direction) :
    lastDirection sorters s.path = s.direction := by
  cases hlast : (sorters.map wish).reverse.find? fun request => request.1 = s.path with
  | none =>
      have hmem : s.wish ∈ (sorters.map wish).reverse :=
        List.mem_reverse.mpr (List.mem_map_of_mem hs)
      simpa [wish] using List.find?_eq_none.mp hlast _ hmem
  | some request =>
      have hproperty : request.1 = s.path := by simpa using List.find?_some hlast
      obtain ⟨r, hr, rfl⟩ :=
        List.mem_map.mp (List.mem_reverse.mp (List.mem_of_find?_eq_some hlast))
      rw [lastDirection, SortOrder.lastDirection, hlast]
      exact h r hr hproperty

end Sorter

namespace SortOrder

theorem compareEntries_eq_firstVerdict (entries : List (String × Direction)) (a b : Json) :
    compareEntries entries a b = firstVerdict (entries.map fun entry => compareOn entry a b) := by
  induction entries with
  | nil => rfl
  | cons entry rest ih => rw [compareEntries_cons, ih, List.map_cons, firstVerdict_cons]

end SortOrder

/-- Documents are compared sorter by sorter, each property with the direction it is last
asked for with. -/
theorem compare_compileSort (sorters : List Sorter) (a b : Json) :
    let accepted := sorters.filter fun s => s.IsAccepted
    (compileSort sorters).value.compare a b =
      firstVerdict (accepted.map fun s =>
        SortOrder.compareOn (s.path, Sorter.lastDirection accepted s.path) a b) := by
  rw [compileSort, Sorter.requests_eq, SortOrder.compare, SortOrder.compareEntries_eq_firstVerdict,
    SortOrder.entries_ofList, List.map_map, firstVerdict_map_eraseDups, List.map_map, List.map_map]
  rfl

/-- Sorters that do not contradict each other are taken in the order of the list. -/
theorem compare_compileSort_of_unanimous {sorters : List Sorter}
    (h : ∀ r ∈ sorters, ∀ s ∈ sorters, r.IsAccepted → s.IsAccepted → r.path = s.path →
      r.direction = s.direction) (a b : Json) :
    (compileSort sorters).value.compare a b =
      firstVerdict ((sorters.filter fun s => s.IsAccepted).map fun s => s.compare a b) := by
  rw [compare_compileSort]
  refine congrArg firstVerdict (List.map_congr_left fun s hs => ?_)
  rw [Sorter.compare, Sorter.lastDirection_of_unanimous hs fun r hr => ?_]
  obtain ⟨hr, hraccepted⟩ := List.mem_filter.mp hr
  obtain ⟨hs, hsaccepted⟩ := List.mem_filter.mp hs
  exact h r hr s hs (of_decide_eq_true hraccepted) (of_decide_eq_true hsaccepted)

/-! ## Documents that differ in one place -/

namespace Property

/-- The smallest value that has a part at the end of some steps. -/
def nested : List (List Char) → Json → Json
  | [], part => part
  | step :: rest, part => .object [(String.ofList step, nested rest part)]

theorem sortCompare_walk_nested (place steps : List (List Char)) :
    Json.sortCompare (walk (nested place (.bool false)) steps)
        (walk (nested place (.bool true)) steps) =
      if steps = place then .lt else .eq := by
  induction place generalizing steps with
  | nil => cases steps <;> rfl
  | cons step rest ih =>
      cases steps with
      | nil => rfl
      | cons other others =>
          rw [nested, nested, walk_cons, walk_cons, stepInto, stepInto, Json.lookup_cons,
            Json.lookup_cons]
          by_cases hstep : step = other
          · subst hstep
            simpa using ih others
          · have hname : String.ofList step ≠ String.ofList other :=
              fun h => hstep (String.ofList_injective h)
            rw [if_neg hname, if_neg hname, if_neg (by simp [Ne.symm hstep])]
            rfl

end Property

/-! ## The order of the list -/

namespace Sorter

variable {sorters : List Sorter} {last : String → Direction}

/-- Documents are objects, and two objects as such are never told apart. -/
theorem compare_of_steps_eq_nil {s : Sorter} (h : s.steps = []) {a b : List (String × Json)} :
    s.compare (.object a) (.object b) = .eq := by
  refine SortOrder.compareOn_eq_eq_iff.mpr ?_
  rw [valueAt, valueAt, ← steps, h]
  rfl

theorem compare_eq_eq_congr {r s : Sorter} (h : r.steps = s.steps) {a b : Json} :
    r.compare a b = .eq ↔ s.compare a b = .eq := by
  have hsteps : Property.steps r.path.toList = Property.steps s.path.toList := h
  rw [compare, compare, SortOrder.compareOn_eq_eq_iff, SortOrder.compareOn_eq_eq_iff]
  simp only [valueAt, hsteps]

/-- With other directions the same sorter decides, if the one that decides keeps its own. -/
theorem firstVerdict_redirected {a b : List (String × Json)}
    (hkept : ∀ front s back, sorters = front ++ s :: back → s.steps ≠ [] →
      (∀ r ∈ front, r.steps ≠ s.steps) → last s.path = s.direction) :
    firstVerdict (sorters.map fun s =>
        SortOrder.compareOn (s.path, last s.path) (.object a) (.object b)) =
      firstVerdict (sorters.map fun s => s.compare (.object a) (.object b)) := by
  have hblind : ∀ s : Sorter,
      SortOrder.compareOn (s.path, last s.path) (.object a) (.object b) = .eq ↔
        s.compare (.object a) (.object b) = .eq :=
    fun _ => SortOrder.compareOn_eq_eq_iff.trans SortOrder.compareOn_eq_eq_iff.symm
  cases hfind : sorters.find? fun s => s.compare (.object a) (.object b) ≠ .eq with
  | none =>
      have hall : ∀ s ∈ sorters, s.compare (.object a) (.object b) = .eq := by
        simpa using List.find?_eq_none.mp hfind
      rw [firstVerdict_eq_eq_iff.mpr (List.forall_mem_map.mpr hall)]
      exact firstVerdict_eq_eq_iff.mpr
        (List.forall_mem_map.mpr fun s hs => (hblind s).mpr (hall s hs))
  | some s =>
      obtain ⟨hs, front, back, hsplit, hfront⟩ := List.find?_eq_some_iff_append.mp hfind
      have hdecides : s.compare (.object a) (.object b) ≠ .eq := of_decide_eq_true hs
      have hequal : ∀ r ∈ front, r.compare (.object a) (.object b) = .eq := by
        simpa using hfront
      have hsteps : s.steps ≠ [] := fun hnil => hdecides (compare_of_steps_eq_nil hnil)
      have hfirst : ∀ r ∈ front, r.steps ≠ s.steps := fun r hr heq =>
        hdecides ((compare_eq_eq_congr heq).mp (hequal r hr))
      rw [hsplit, List.map_append, List.map_append, List.map_cons, List.map_cons,
        firstVerdict_append_cons (List.forall_mem_map.mpr fun r hr => (hblind r).mpr (hequal r hr))
          (mt (hblind s).mp hdecides),
        firstVerdict_append_cons (List.forall_mem_map.mpr hequal) hdecides,
        hkept front s back hsplit hsteps hfirst]
      rfl

/-- What decides between documents that differ in the place of one sorter, if no sorter before
it reads that place. -/
theorem firstVerdict_nested {front : List Sorter} {s : Sorter}
    (hfirst : ∀ r ∈ front, r.steps ≠ s.steps) (back : List Sorter)
    (direction : Sorter → Direction) :
    firstVerdict ((front ++ s :: back).map fun r => SortOrder.compareOn (r.path, direction r)
        (Property.nested s.steps (.bool false)) (Property.nested s.steps (.bool true))) =
      (direction s).orient .lt := by
  have hcompare : ∀ r : Sorter, SortOrder.compareOn (r.path, direction r)
      (Property.nested s.steps (.bool false)) (Property.nested s.steps (.bool true)) =
        (direction r).orient (if r.steps = s.steps then .lt else .eq) := by
    intro r
    rw [← Property.sortCompare_walk_nested]
    rfl
  have hequal : ∀ r ∈ front, (direction r).orient (if r.steps = s.steps then .lt else .eq) = .eq :=
    fun r hr => (Direction.orient_eq_eq_iff _ _).mpr (if_neg (hfirst r hr))
  have hdecides : (direction s).orient .lt ≠ .eq := by
    rw [Ne, Direction.orient_eq_eq_iff]
    decide
  simp only [hcompare]
  rw [List.map_append, List.map_cons, if_pos rfl,
    firstVerdict_append_cons (List.forall_mem_map.mpr hequal) hdecides]

end Sorter

/-- Two documents are compared sorter by sorter, with the direction that the last sorter on the
property asks for. That is the order of the list, in which the first sorter that tells the
documents apart decides in its own direction, for all documents exactly if every sorter that reads
a place no other has read before it asks for the direction that the last one on its property asks
for. -/
theorem compileSort_in_list_order_iff (sorters : List Sorter) :
    let accepted := sorters.filter fun s => s.IsAccepted
    let order := (compileSort sorters).value
    (∀ a b, order.compare a b = firstVerdict (accepted.map fun s =>
      SortOrder.compareOn (s.path, Sorter.lastDirection accepted s.path) a b)) ∧
    ((∀ a b : List (String × Json), order.compare (.object a) (.object b) =
        firstVerdict (accepted.map fun s => s.compare (.object a) (.object b))) ↔
      ∀ front s back, accepted = front ++ s :: back → s.steps ≠ [] →
        (∀ r ∈ front, r.steps ≠ s.steps) →
        Sorter.lastDirection accepted s.path = s.direction) := by
  intro accepted order
  have hcompare : ∀ a b, order.compare a b = firstVerdict (accepted.map fun s =>
      SortOrder.compareOn (s.path, Sorter.lastDirection accepted s.path) a b) :=
    compare_compileSort sorters
  refine ⟨hcompare, fun hlist front s back hsplit hsteps hfirst => ?_, fun hkept a b => ?_⟩
  · -- documents that differ where the sorter reads, and nowhere else
    obtain ⟨step, rest, hplace⟩ := List.exists_cons_of_ne_nil hsteps
    have hdecided := hlist [(String.ofList step, Property.nested rest (.bool false))]
      [(String.ofList step, Property.nested rest (.bool true))]
    rw [← Property.nested, ← Property.nested, ← hplace, hcompare] at hdecided
    have hlast := Sorter.firstVerdict_nested hfirst back fun r =>
      Sorter.lastDirection accepted r.path
    have hown := Sorter.firstVerdict_nested hfirst back Sorter.direction
    rw [← hsplit] at hlast hown
    exact Direction.orient_lt_injective ((hlast.symm.trans hdecided).trans hown)
  · rw [hcompare]
    exact Sorter.firstVerdict_redirected hkept

/-- Ascending and then descending on one property is descending, although the first of the two
puts the lesser value first. -/
theorem repeated_sorter_overrides :
    let sorters : List Sorter := [⟨"n", false, false⟩, ⟨"n", true, false⟩]
    let a : Json := .object [("_id", .string "a"), ("n", .ofInt 1)]
    let b : Json := .object [("_id", .string "b"), ("n", .ofInt 2)]
    (compileSort sorters).value.compare a b = .gt ∧
      firstVerdict ((sorters.filter fun s => s.IsAccepted).map fun s => s.compare a b) = .lt := by
  decide +kernel

end LiveDocuments
