import LiveDocuments.Json.Number

/-!
# JSON values

Documents, selectors and operands are JSON values. The fields of an object are
kept in the order in which they were first set, so an object is a list of
key–value pairs. Reading takes the first pair with the key and `insert` replaces
that pair in place, so that an object behaves as a map with insertion order and
a key set again keeps its place.
-/

namespace LiveDocuments

/-- A JSON value with ordered object fields. -/
inductive Json where
  | null
  | bool (value : Bool)
  | number (value : Number)
  | string (value : String)
  | array (items : List Json)
  | object (fields : List (String × Json))

namespace Json

instance : Inhabited Json := ⟨null⟩

/-- The value of the first pair with the key. -/
def lookup (key : String) : List (String × Json) → Option Json
  | [] => none
  | (k, v) :: rest => if k = key then some v else lookup key rest

@[simp] theorem lookup_nil (key : String) : lookup key [] = none := rfl

theorem lookup_cons (key k : String) (v : Json) (rest : List (String × Json)) :
    lookup key ((k, v) :: rest) = if k = key then some v else lookup key rest := rfl

/-- The fields with `key` set to `value`: in place if the key is there, at the
end otherwise. -/
def insert (key : String) (value : Json) : List (String × Json) → List (String × Json)
  | [] => [(key, value)]
  | (k, v) :: rest => if k = key then (k, value) :: rest else (k, v) :: insert key value rest

@[simp] theorem insert_nil (key : String) (value : Json) :
    insert key value [] = [(key, value)] := rfl

theorem insert_cons (key k : String) (value v : Json) (rest : List (String × Json)) :
    insert key value ((k, v) :: rest) =
      if k = key then (k, value) :: rest else (k, v) :: insert key value rest := rfl

@[simp] theorem lookup_insert_self (key : String) (value : Json)
    (fields : List (String × Json)) :
    lookup key (insert key value fields) = some value := by
  induction fields with
  | nil => simp [lookup]
  | cons field rest ih =>
      obtain ⟨k, v⟩ := field
      by_cases h : k = key <;> simp [insert_cons, lookup_cons, h, ih]

theorem lookup_insert_of_ne (key other : String) (value : Json)
    (fields : List (String × Json)) (h : key ≠ other) :
    lookup other (insert key value fields) = lookup other fields := by
  induction fields with
  | nil => simp [lookup_cons, h]
  | cons field rest ih =>
      obtain ⟨k, v⟩ := field
      by_cases hk : k = key
      · subst hk
        simp [insert_cons, lookup_cons, h]
      · simp [insert_cons, hk, lookup_cons, ih]

/-- The keys of a list of fields, in order. -/
def keys (fields : List (String × Json)) : List String := fields.map Prod.fst

@[simp] theorem keys_nil : keys [] = [] := rfl

@[simp] theorem keys_cons (k : String) (v : Json) (rest : List (String × Json)) :
    keys ((k, v) :: rest) = k :: keys rest := rfl

theorem keys_insert (key : String) (value : Json) (fields : List (String × Json)) :
    keys (insert key value fields) =
      if key ∈ keys fields then keys fields else keys fields ++ [key] := by
  induction fields with
  | nil => simp
  | cons field rest ih =>
      obtain ⟨k, v⟩ := field
      by_cases hk : k = key
      · subst hk
        simp [insert_cons]
      · have hk' : key ≠ k := fun h => hk h.symm
        by_cases hm : key ∈ keys rest <;> simp [insert_cons, hk, hk', ih, hm]

/-- The field of an object, nothing for any other value. -/
def get? (value : Json) (key : String) : Option Json :=
  match value with
  | object fields => lookup key fields
  | _ => none

/-- The text of a string value. -/
def string? : Json → Option String
  | string s => some s
  | _ => none

/-- The items of an array value. -/
def array? : Json → Option (List Json)
  | array items => some items
  | _ => none

/-- The fields of an object value. -/
def object? : Json → Option (List (String × Json))
  | object fields => some fields
  | _ => none

/-- The truth value of a boolean. -/
def bool? : Json → Option Bool
  | bool b => some b
  | _ => none

/-- The object with one field. -/
def single (key : String) (value : Json) : Json := object [(key, value)]

/-- The integer as a value. -/
def ofInt (n : Int) : Json := number (.integer n)

mutual

/-- Equality of representations, which tells key order and zero signs apart. -/
def decideEq (a b : Json) : Decidable (a = b) :=
  match a, b with
  | null, null => isTrue rfl
  | bool x, bool y => decidable_of_iff (x = y) (by simp)
  | number x, number y => decidable_of_iff (x = y) (by simp)
  | string x, string y => decidable_of_iff (x = y) (by simp)
  | array xs, array ys =>
      have := decideEqItems xs ys
      decidable_of_iff (xs = ys) (by simp)
  | object xs, object ys =>
      have := decideEqFields xs ys
      decidable_of_iff (xs = ys) (by simp)
  | null, bool _ | null, number _ | null, string _ | null, array _ | null, object _
  | bool _, null | bool _, number _ | bool _, string _ | bool _, array _ | bool _, object _
  | number _, null | number _, bool _ | number _, string _ | number _, array _
  | number _, object _
  | string _, null | string _, bool _ | string _, number _ | string _, array _
  | string _, object _
  | array _, null | array _, bool _ | array _, number _ | array _, string _ | array _, object _
  | object _, null | object _, bool _ | object _, number _ | object _, string _
  | object _, array _ => isFalse (by simp)

/-- Equality of lists of values. -/
def decideEqItems (xs ys : List Json) : Decidable (xs = ys) :=
  match xs, ys with
  | [], [] => isTrue rfl
  | [], _ :: _ => isFalse (by simp)
  | _ :: _, [] => isFalse (by simp)
  | x :: xs, y :: ys =>
      have := decideEq x y
      have := decideEqItems xs ys
      decidable_of_iff (x = y ∧ xs = ys) (by simp)

/-- Equality of lists of fields. -/
def decideEqFields (xs ys : List (String × Json)) : Decidable (xs = ys) :=
  match xs, ys with
  | [], [] => isTrue rfl
  | [], _ :: _ => isFalse (by simp)
  | _ :: _, [] => isFalse (by simp)
  | (k, x) :: xs, (l, y) :: ys =>
      have := decideEq x y
      have := decideEqFields xs ys
      decidable_of_iff ((k = l ∧ x = y) ∧ xs = ys) (by simp)

end

instance : DecidableEq Json := decideEq

end Json

end LiveDocuments
