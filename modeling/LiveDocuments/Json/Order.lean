import LiveDocuments.Json.Canonical

/-!
# Comparing values

Three relations between values. `agrees` is equality as selectors mean it:
numbers are equal if the nearest doubles are, everything else must be the same
value. `compare?` orders two values of one kind, numbers through doubles, texts by
code points, false before true, and says nothing across kinds. `sortCompare` is
the order of a sorted result: kinds come in a fixed order with nothing and null
first, and values of one kind that cannot be compared count as equal.
-/

namespace LiveDocuments

namespace Json

/-- Equality as selectors mean it. -/
def agrees : Json → Json → Bool
  | number a, number b => decide (a.units = b.units)
  | a, b => same a b

/-- Order between values of one kind. -/
def compare? : Json → Json → Option Ordering
  | number a, number b => some (compare a.units b.units)
  | string a, string b => some (compare a b)
  | bool a, bool b => some (compare a.toNat b.toNat)
  | _, _ => none

/-- The place of a kind in sorted results; nothing is sorted like null. -/
def kindRank : Option Json → Nat
  | none => 0
  | some null => 0
  | some (number _) => 1
  | some (string _) => 2
  | some (object _) => 3
  | some (array _) => 4
  | some (bool _) => 5

/-- The order within a kind, in which what cannot be compared is equal. -/
def compareWithin : Option Json → Option Json → Ordering
  | some a, some b => (compare? a b).getD .eq
  | _, _ => .eq

/-- The order of sorted results on one property. -/
def sortCompare (a b : Option Json) : Ordering :=
  (compare (kindRank a) (kindRank b)).then (compareWithin a b)

end Json

end LiveDocuments
