import LiveDocuments.Json.Basic

/-!
# Equality of whole values

Two values are the same if they differ at most in the order of object keys and
in the signs of double zeros; integers and doubles are never the same. Instead
of comparing two trees field by field, `canonical` brings a value into a normal
form (fields sorted by key, zeros unsigned), and `same` compares normal forms.
That makes it an equivalence by construction.
-/

namespace LiveDocuments

namespace Json

/-- Put a field into a list sorted by key, in place of one with the same key. -/
def insertSorted (key : String) (value : Json) : List (String × Json) → List (String × Json)
  | [] => [(key, value)]
  | (k, v) :: rest =>
      if key < k then (key, value) :: (k, v) :: rest
      else if k = key then (key, value) :: rest
      else (k, v) :: insertSorted key value rest

mutual

/-- The value with object fields sorted by key and zeros unsigned. -/
def canonical : Json → Json
  | null => null
  | bool b => bool b
  | number n => number n.withoutZeroSign
  | string s => string s
  | array items => array (canonicalItems items)
  | object fields => object (canonicalFields fields)

/-- The canonical forms of the items, in their order. -/
def canonicalItems : List Json → List Json
  | [] => []
  | x :: rest => canonical x :: canonicalItems rest

/-- The canonical fields in the order of their keys. -/
def canonicalFields : List (String × Json) → List (String × Json)
  | [] => []
  | (k, v) :: rest => insertSorted k (canonical v) (canonicalFields rest)

end

/-- Whole-value equality: key order and zero signs do not count. -/
def same (a b : Json) : Bool := decide (a.canonical = b.canonical)

theorem same_iff (a b : Json) : a.same b = true ↔ a.canonical = b.canonical := by
  simp [same]

@[simp] theorem same_refl (a : Json) : a.same a = true := (same_iff a a).2 rfl

theorem same_comm (a b : Json) : a.same b = b.same a := by
  simp [same, eq_comm]

theorem same_trans {a b c : Json} (hab : a.same b = true) (hbc : b.same c = true) :
    a.same c = true :=
  (same_iff a c).2 (((same_iff a b).1 hab).trans ((same_iff b c).1 hbc))

end Json

end LiveDocuments
