import LiveDocuments.Json.Concrete.Reader

/-!
# Descriptors in JSON text

A descriptor is an object with known fields, or an array that lists the values of
those fields in order. When it is read from text, a known field may be given
only once, and fields that are not known are skipped without being looked at,
whatever they hold. What is left is an ordinary value, which the descriptor's
own reading function takes apart.
-/

namespace LiveDocuments

namespace Json

namespace Concrete

/-- The nesting left to the values inside a descriptor. -/
def fieldNesting : Nat := nestingLimit - 1

/-- The known fields as values, unless one of them is given twice. -/
def knownFields? (known : List String) (before : List (String × Json)) :
    List (Option String × Concrete) → Option (List (String × Json))
  | [] => some before
  | (none, _) :: _ => none
  | (some key, x) :: rest =>
      if key ∈ known then
        if key ∈ keys before then none
        else
          match toJson? fieldNesting x with
          | some v => knownFields? known (before ++ [(key, v)]) rest
          | none => none
      else knownFields? known before rest

/-- A descriptor cut down to its known fields. -/
def descriptor? (known : List String) : Concrete → Option Json
  | object fields => (knownFields? known [] fields).map .object
  | array items =>
      if items.length ≤ known.length then (itemsToJson? fieldNesting items).map .array
      else none
  | _ => none

end Concrete

/-- The descriptor held by a text, cut down to its known fields. -/
def descriptorOfText? (known : List String) (text : String) : Option Json :=
  (Concrete.ofText? text).bind (Concrete.descriptor? known)

/-- The value of an optional flag: absent means false, and only a boolean will
do. -/
def flag? : Option Json → Option Bool
  | none => some false
  | some (bool b) => some b
  | some _ => none

@[simp] theorem flag?_none : flag? none = some false := rfl

@[simp] theorem flag?_bool (b : Bool) : flag? (some (bool b)) = some b := rfl

end Json

end LiveDocuments
