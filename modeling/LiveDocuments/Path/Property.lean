import LiveDocuments.Json.Basic
import LiveDocuments.Text.Digits
import LiveDocuments.Text.Pieces

/-!
# Property paths

A property path walks from a document to one of its parts. Its steps are
separated by dots, and an index in brackets is a step like any other: an opening
bracket counts as a dot and a closing one as nothing, so `items[2].name` and
`items.2.name` are the same walk. Empty steps are skipped. A step into an object
is a key, a step into an array is a number, and nothing else has parts.
-/

namespace LiveDocuments

namespace Property

/-- The path with brackets read as dots. -/
def unbracket (cs : List Char) : List Char :=
  (cs.filter (· != ']')).map fun c => if c = '[' then '.' else c

/-- The steps of a property path. -/
def steps (path : List Char) : List (List Char) :=
  Text.segments '.' (unbracket path)

/-- The index named by a step into an array; a plus sign may stand before it. -/
def index? : List Char → Option Nat
  | '+' :: cs => Text.natOfDigits? cs
  | cs => Text.natOfDigits? cs

/-- The part of a value that a step names. -/
def stepInto (value : Json) (step : List Char) : Option Json :=
  match value with
  | .object fields => Json.lookup (String.ofList step) fields
  | .array items => (index? step).bind fun i => items[i]?
  | _ => none

/-- The part reached by walking the steps in order. -/
def walk : Json → List (List Char) → Option Json
  | value, [] => some value
  | value, step :: rest =>
      match stepInto value step with
      | some part => walk part rest
      | none => none

@[simp] theorem walk_nil (value : Json) : walk value [] = some value := rfl

theorem walk_cons (value : Json) (step : List Char) (rest : List (List Char)) :
    walk value (step :: rest) = (stepInto value step).bind fun part => walk part rest := by
  rw [walk]
  cases stepInto value step <;> rfl

theorem walk_append (value : Json) (front back : List (List Char)) :
    walk value (front ++ back) = (walk value front).bind fun part => walk part back := by
  induction front generalizing value with
  | nil => rfl
  | cons step rest ih =>
      rw [List.cons_append, walk_cons, walk_cons]
      cases stepInto value step with
      | none => rfl
      | some part => simp [ih]

end Property

/-- The part of a document at a property path; the empty path is the document. -/
def valueAt (document : Json) (path : String) : Option Json :=
  Property.walk document (Property.steps path.toList)

end LiveDocuments
