import LiveDocuments.Proofs.Path.Walks
import LiveDocuments.Proofs.Query.FirstAppearance
import LiveDocuments.Query.Compile
import LiveDocuments.Query.Order

/-!
# What sorted properties are read from

The properties of a sort order stand in the order in which they are first asked for
(`SortOrder.entries_ofList`). Only top-level properties should be sorted by, and the compiler
leaves out those with a slash or a dot. Documents are compared by what the walk along a
property finds, and a walk has steps at brackets too. So a property that was accepted is read
from the field of its own name exactly if it is not empty and has no brackets
(`compileSort_reads_fields_iff`).
-/

namespace LiveDocuments

namespace SortOrder

/-- The properties to sort by. -/
def properties (order : SortOrder) : List String := order.entries.map Prod.fst

theorem set_eq_amend (property : String) (direction : Direction)
    (entries : List (String × Direction)) :
    set property direction entries = Entries.amend property (fun _ => direction) entries := by
  induction entries with
  | nil => rfl
  | cons entry rest ih => rw [set_cons, Entries.amend_cons, ih]

/-- The direction that the last request for a property asks for. -/
def lastDirection (requests : List (String × Bool)) (property : String) : Direction :=
  ((requests.reverse.find? fun request => request.1 = property).map fun request =>
    Direction.ofDescending request.2).getD .ascending

theorem lastDirection_concat (front : List (String × Bool)) (request : String × Bool)
    (property : String) :
    lastDirection (front ++ [request]) property =
      if property = request.1 then .ofDescending request.2 else lastDirection front property := by
  rw [lastDirection, List.reverse_append, List.reverse_singleton, List.singleton_append,
    List.find?_cons]
  by_cases hproperty : property = request.1
  · simp [hproperty]
  · simp [hproperty, Ne.symm hproperty, lastDirection]

theorem entries_ofList_eq_foldl (requests : List (String × Bool)) :
    (ofList requests).entries = requests.foldl (fun entries request =>
      Entries.amend request.1 (fun _ => .ofDescending request.2) entries) [] := by
  induction requests using List.reverseRecOn with
  | nil => rfl
  | append_singleton front request ih =>
      have hpush : ofList (front ++ [request]) = (ofList front).push request.1 request.2 :=
        List.foldl_concat ..
      rw [hpush, push, set_eq_amend, ih, List.foldl_concat]

/-- The properties stand in the order in which they are first asked for, each with the
direction it is last asked for with. -/
theorem entries_ofList (requests : List (String × Bool)) :
    (ofList requests).entries = (requests.map Prod.fst).eraseDups.map fun property =>
      (property, lastDirection requests property) := by
  rw [entries_ofList_eq_foldl]
  refine Entries.foldl_amend Prod.fst (fun request _ => .ofDescending request.2) lastDirection
    ?_ _
  intro front request property
  rw [lastDirection_concat]

theorem mem_properties_ofList {requests : List (String × Bool)} {p : String} :
    p ∈ (ofList requests).properties ↔ p ∈ requests.map Prod.fst := by
  have hproperties : (ofList requests).properties = (requests.map Prod.fst).eraseDups := by
    rw [properties, entries_ofList, List.map_map]
    exact List.map_id _
  rw [hproperties, List.mem_eraseDups]

end SortOrder

namespace Sorter

theorem rejection?_eq_none_iff (s : Sorter) :
    s.rejection? = none ↔
      s.customComparison = false ∧ '/' ∉ s.path.toList ∧ '.' ∉ s.path.toList := by
  unfold rejection?
  by_cases hnested : '/' ∈ s.path.toList ∨ '.' ∈ s.path.toList
  · rw [if_pos hnested]
    simp only [reduceCtorEq, false_iff]
    rintro ⟨-, hslash, hdot⟩
    exact hnested.elim hslash hdot
  · rw [if_neg hnested]
    cases s.customComparison <;> simp [not_or.mp hnested]

/-- The properties asked for are those of the sorters that are not rejected. -/
theorem mem_requests_iff {sorters : List Sorter} {property : String} :
    property ∈ (sorters.filterMap request?).map Prod.fst ↔
      ∃ s ∈ sorters, s.path = property ∧ s.rejection? = none := by
  simp only [request?, List.map_filterMap, List.mem_filterMap, Option.isNone_iff_eq_none]
  refine exists_congr fun s => and_congr_right fun _ => ?_
  split
  · next hnone => simp [hnone]
  · next hsome => simp [hsome]

end Sorter

open Property

/-- A property is sorted by exactly if some sorter without a comparison of its own asks for it,
and it has neither a slash nor a dot in it. It is then read, in every document, from the field of
just its name exactly if it is not empty and has no bracket in it. -/
theorem compileSort_reads_fields_iff (sorters : List Sorter) (property : String) :
    (property ∈ (compileSort sorters).value.properties ↔
      ∃ s ∈ sorters, s.path = property ∧ s.customComparison = false ∧
        '/' ∉ property.toList ∧ '.' ∉ property.toList) ∧
    (property ∈ (compileSort sorters).value.properties →
      ((∀ fields, valueAt (.object fields) property = Json.lookup property fields) ↔
        property ≠ "" ∧ '[' ∉ property.toList ∧ ']' ∉ property.toList)) := by
  have haccepted : property ∈ (compileSort sorters).value.properties ↔
      ∃ s ∈ sorters, s.path = property ∧ s.customComparison = false ∧
        '/' ∉ property.toList ∧ '.' ∉ property.toList := by
    rw [compileSort, SortOrder.mem_properties_ofList, Sorter.mem_requests_iff]
    refine exists_congr fun s => and_congr_right fun _ => and_congr_right fun hpath => ?_
    rw [Sorter.rejection?_eq_none_iff, hpath]
  refine ⟨haccepted, fun hmem => ?_⟩
  obtain ⟨s, -, -, -, -, hdot⟩ := haccepted.mp hmem
  rw [reads_field_iff, Property.IsField, and_iff_right hdot]

/-- Orders by the largest total, where the nested city is left out. -/
theorem compileSort_reads_fields_total :
    "total" ∈
      (compileSort [⟨"shipTo.city", false, false⟩, ⟨"total", true, false⟩]).value.properties ∧
    ∀ fields, valueAt (.object fields) "total" = Json.lookup "total" fields := by
  have hmem : "total" ∈ (compileSort
      [⟨"shipTo.city", false, false⟩, ⟨"total", true, false⟩]).value.properties := by decide
  exact ⟨hmem, ((compileSort_reads_fields_iff _ "total").2 hmem).mpr (by decide)⟩

/-- An index in brackets is accepted, and read from an item of another field. -/
theorem bracketed_sorted_by_item :
    "t[0]" ∈ (compileSort [⟨"t[0]", false, false⟩]).value.properties ∧
    ∃ fields, Json.lookup "t[0]" fields = some (.ofInt 1) ∧
      valueAt (.object fields) "t[0]" = some (.ofInt 2) :=
  ⟨by decide, [("t", .array [.ofInt 2]), ("t[0]", .ofInt 1)], by decide, by decide⟩

end LiveDocuments
