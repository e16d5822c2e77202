import LiveDocuments.Json.Order
import LiveDocuments.Path.Property
import LiveDocuments.Query.Sorter

/-!
# The order of sorted documents

Documents are compared property by property, in the priority of the sort order;
the first property that tells them apart decides, turned round if it is sorted
descending.
-/

namespace LiveDocuments

namespace Direction

/-- A comparison as this direction sees it. -/
def orient : Direction → Ordering → Ordering
  | ascending, o => o
  | descending, o => o.swap

end Direction

namespace SortOrder

/-- The comparison of two documents on one entry. -/
def compareOn (entry : String × Direction) (a b : Json) : Ordering :=
  entry.2.orient (Json.sortCompare (valueAt a entry.1) (valueAt b entry.1))

/-- The comparison of two documents on a list of entries. -/
def compareEntries : List (String × Direction) → Json → Json → Ordering
  | [], _, _ => .eq
  | entry :: rest, a, b => (compareOn entry a b).then (compareEntries rest a b)

@[simp] theorem compareEntries_nil (a b : Json) : compareEntries [] a b = .eq := rfl

theorem compareEntries_cons (entry : String × Direction) (rest : List (String × Direction))
    (a b : Json) :
    compareEntries (entry :: rest) a b =
      (compareOn entry a b).then (compareEntries rest a b) := rfl

/-- The comparison of two documents. -/
def compare (order : SortOrder) (a b : Json) : Ordering := compareEntries order.entries a b

end SortOrder

end LiveDocuments
