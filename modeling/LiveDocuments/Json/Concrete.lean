import LiveDocuments.Json.Basic

/-!
# JSON text as written

`Concrete` is JSON as it stands in a text, before it is a value: keys may be
repeated, an escape may name half of a surrogate pair, a number may be beyond
the largest double. None of these is an error of the grammar, and a descriptor
may carry them in a field that nobody reads, so they are kept here and refused
only where a value is wanted: `toJson?` is that step. It also bounds the
nesting of arrays and objects, and lets the last value of a repeated key win in
the place of the first.
-/

namespace LiveDocuments

namespace Json

/-- JSON as written. A number is `none` beyond the range of doubles, a string is
`none` if half of a surrogate pair stands alone in it. -/
inductive Concrete where
  | null
  | bool (value : Bool)
  | number (value : Option Number)
  | string (content : Option String)
  | array (items : List Concrete)
  | object (fields : List (Option String × Concrete))

namespace Concrete

/-- How deep arrays and objects may be nested in a value read from text. -/
def nestingLimit : Nat := 127

mutual

/-- The value, if it is nested at most `levels` deep and all its parts denote
something. -/
def toJson? (levels : Nat) : Concrete → Option Json
  | null => some .null
  | bool b => some (.bool b)
  | number n => n.map .number
  | string s => s.map .string
  | array items =>
      match levels with
      | 0 => none
      | below + 1 => (itemsToJson? below items).map .array
  | object fields =>
      match levels with
      | 0 => none
      | below + 1 => (fieldsToJson? below [] fields).map .object

/-- The items as values. -/
def itemsToJson? (levels : Nat) : List Concrete → Option (List Json)
  | [] => some []
  | x :: rest =>
      match toJson? levels x, itemsToJson? levels rest with
      | some v, some vs => some (v :: vs)
      | _, _ => none

/-- The fields as values, set one after the other into those read before. -/
def fieldsToJson? (levels : Nat) (before : List (String × Json)) :
    List (Option String × Concrete) → Option (List (String × Json))
  | [] => some before
  | (some key, x) :: rest =>
      match toJson? levels x with
      | some v => fieldsToJson? levels (insert key v before) rest
      | none => none
  | (none, _) :: _ => none

end

end Concrete

end Json

end LiveDocuments
