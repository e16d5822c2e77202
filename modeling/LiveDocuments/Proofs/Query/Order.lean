import LiveDocuments.Query.Order
import Mathlib.Order.Defs.LinearOrder

/-!
# Sorting by properties is an order

Values of all kinds can be sorted together: what `Json.sortCompare` looks at is a key of
four parts, the kind and one part for each kind that has an order within, and the keys are
compared part by part (`Json.sortCompare_eq`). So it is a total preorder, and it stays one
when it is turned round for descending properties and when several properties are compared
one after the other.
-/

namespace LiveDocuments

namespace Json

/-- The number a value is sorted by, the same one for all that are no numbers. -/
def numberKey : Option Json → Int
  | some (number x) => x.units
  | _ => 0

/-- The text a value is sorted by. -/
def textKey : Option Json → String
  | some (string text) => text
  | _ => ""

/-- The truth value a value is sorted by. -/
def truthKey : Option Json → Nat
  | some (bool b) => b.toNat
  | _ => 0

theorem sortCompare_eq :
    sortCompare = compareLex (compareOn kindRank)
      (compareLex (compareOn numberKey) (compareLex (compareOn textKey) (compareOn truthKey))) := by
  funext a b
  simp only [sortCompare, compareLex, compareOn]
  rcases a with _ | a <;> rcases b with _ | b
  · rfl
  · cases b <;> rfl
  · cases a <;> rfl
  · cases a <;> cases b <;>
      simp [kindRank, compareWithin, compare?, numberKey, textKey, truthKey] <;> rfl

instance : Std.TransCmp sortCompare := by
  rw [sortCompare_eq]
  infer_instance

/-- All that decides where a value is sorted: its kind, and what it is within its kind. -/
def sortKey (value : Option Json) : Nat × Int × String × Nat :=
  (kindRank value, numberKey value, textKey value, truthKey value)

theorem sortCompare_eq_eq_iff {a b : Option Json} :
    sortCompare a b = .eq ↔ sortKey a = sortKey b := by
  rw [sortCompare_eq]
  simp [compareLex_eq_eq, compareOn, sortKey]

end Json

namespace Direction

theorem orient_eq_eq_iff (direction : Direction) (o : Ordering) :
    direction.orient o = .eq ↔ o = .eq := by
  cases direction <;> cases o <;> decide

end Direction

namespace SortOrder

theorem compareOn_ascending (property : String) :
    compareOn (property, .ascending) =
      Ordering.byKey (fun document => valueAt document property) Json.sortCompare := rfl

theorem compareOn_descending (property : String) :
    compareOn (property, .descending) = flip (compareOn (property, .ascending)) := by
  funext a b
  exact Std.OrientedCmp.eq_swap.symm

/-- Whether two documents are told apart does not depend on the direction. -/
theorem compareOn_eq_eq_iff {property : String} {direction : Direction} {a b : Json} :
    compareOn (property, direction) a b = .eq ↔
      Json.sortCompare (valueAt a property) (valueAt b property) = .eq :=
  Direction.orient_eq_eq_iff _ _

instance (entry : String × Direction) : Std.TransCmp (compareOn entry) := by
  obtain ⟨property, direction⟩ := entry
  have hascending : Std.TransCmp (compareOn (property, .ascending)) := by
    rw [compareOn_ascending]
    infer_instance
  cases direction with
  | ascending => exact hascending
  | descending =>
      rw [compareOn_descending]
      infer_instance

instance (entries : List (String × Direction)) : Std.TransCmp (compareEntries entries) := by
  induction entries with
  | nil => exact { eq_swap := rfl, isLE_trans := fun _ _ => rfl }
  | cons entry rest ih =>
      exact inferInstanceAs (Std.TransCmp (compareLex (compareOn entry) (compareEntries rest)))

theorem compareEntries_eq_eq_iff {entries : List (String × Direction)} {a b : Json} :
    compareEntries entries a b = .eq ↔ ∀ entry ∈ entries,
      Json.sortKey (valueAt a entry.1) = Json.sortKey (valueAt b entry.1) := by
  induction entries with
  | nil => simp
  | cons entry rest ih =>
      rw [compareEntries_cons, Ordering.then_eq_eq, ih, compareOn_eq_eq_iff,
        Json.sortCompare_eq_eq_iff, List.forall_mem_cons]

/-- Whatever the properties and their directions, documents are put in a total preorder. -/
instance (order : SortOrder) : Std.TransCmp order.compare :=
  inferInstanceAs (Std.TransCmp (compareEntries order.entries))

/-- Two documents are compared one way and the other with opposite results. A document not sorted
behind a second that is not sorted behind a third is not sorted behind the third. Documents that
are not told apart are compared alike with every other one, and two documents are not told apart
exactly if they have the same key at every property sorted by, whether they have that property or
not and whatever it holds. -/
theorem compare_total_preorder (order : SortOrder) (a b c : Json) :
    order.compare b a = (order.compare a b).swap ∧
      ((order.compare a b).isLE → (order.compare b c).isLE → (order.compare a c).isLE) ∧
      (order.compare a b = .eq →
        order.compare a c = order.compare b c ∧ order.compare c a = order.compare c b) ∧
      (order.compare a b = .eq ↔ ∀ entry ∈ order.entries,
        Json.sortKey (valueAt a entry.1) = Json.sortKey (valueAt b entry.1)) := by
  refine ⟨Std.OrientedCmp.eq_swap, Std.TransCmp.isLE_trans, fun h => ⟨?_, ?_⟩,
    compareEntries_eq_eq_iff⟩
  · exact Std.TransCmp.congr_left h
  · exact Std.TransCmp.congr_right h

/-- With descending ranks a list comes before a number and a number before nothing, and the two
zeros, which are different values, are compared alike with a document without a rank. -/
theorem compare_total_preorder_zeros :
    let order : SortOrder := ⟨[("rank", .descending), ("items[0]", .ascending)]⟩
    let listed := Json.object [("rank", .array [.bool true])]
    let zero := Json.object [("rank", .ofInt 0), ("items", .array [.object []])]
    let negativeZero :=
      Json.object [("items", .array [.object [("k", .null)]]),
        ("rank", .number (.double (.zero true)))]
    let unranked := Json.object [("name", .string "x")]
    (order.compare listed zero).isLE ∧ (order.compare zero unranked).isLE ∧
      (order.compare listed unranked).isLE ∧
      order.compare unranked listed = (order.compare listed unranked).swap ∧
      order.compare zero negativeZero = .eq ∧
      order.compare zero unranked = order.compare negativeZero unranked ∧
      order.compare unranked zero = order.compare unranked negativeZero := by
  intro order listed zero negativeZero unranked
  have hlisted : (order.compare listed zero).isLE := by decide +kernel
  have hzero : (order.compare zero unranked).isLE := by decide +kernel
  have hequal : order.compare zero negativeZero = .eq := by decide +kernel
  obtain ⟨-, htrans, -⟩ := compare_total_preorder order listed zero unranked
  obtain ⟨hswap, -⟩ := compare_total_preorder order listed unranked zero
  obtain ⟨-, -, halike, -⟩ := compare_total_preorder order zero negativeZero unranked
  exact ⟨hlisted, hzero, htrans hlisted hzero, hswap, hequal, halike hequal⟩

end SortOrder

end LiveDocuments
