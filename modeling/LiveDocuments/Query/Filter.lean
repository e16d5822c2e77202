import LiveDocuments.Json.Descriptor

/-!
# Filters

A filter compares the property at a path with one operand, or with two for a
range. Operators are known by name; a name that is none of them is kept, so that
the filter can be reported when a query is made of it. A compound filter is kept
for the same reason.

`ofJson?` and `toJson` read and write descriptors. A descriptor is written
without the second operand if there is none and without the compound flag if it
is not set.
-/

namespace LiveDocuments

/-- The comparison a filter makes. -/
inductive Operator where
  | eq
  | ne
  | lt
  | le
  | gt
  | ge
  | between
  | contains
  | startsWith
  | endsWith
  | other (name : String)
deriving DecidableEq

namespace Operator

/-- The operator of that name. -/
def ofName (name : String) : Operator :=
  if name = "EQ" then eq
  else if name = "NE" then ne
  else if name = "LT" then lt
  else if name = "LE" then le
  else if name = "GT" then gt
  else if name = "GE" then ge
  else if name = "BT" then between
  else if name = "Contains" then contains
  else if name = "StartsWith" then startsWith
  else if name = "EndsWith" then endsWith
  else other name

/-- The name of an operator. -/
def name : Operator → String
  | eq => "EQ"
  | ne => "NE"
  | lt => "LT"
  | le => "LE"
  | gt => "GT"
  | ge => "GE"
  | between => "BT"
  | contains => "Contains"
  | startsWith => "StartsWith"
  | endsWith => "EndsWith"
  | other name => name

/-- A name that turns out to be known is kept if it is kept when it does not. -/
theorem name_ite {text known : String} {found rest : Operator} (hfound : found.name = known)
    (hrest : rest.name = text) : (if text = known then found else rest).name = text := by
  by_cases h : text = known
  · rw [if_pos h, hfound, h]
  · rw [if_neg h, hrest]

@[simp] theorem name_ofName (text : String) : (ofName text).name = text := by
  unfold ofName
  repeat refine name_ite rfl ?_
  rfl

/-- Whether it is one of the known operators. -/
def isKnown : Operator → Bool
  | other _ => false
  | _ => true

/-- Whether the operator names acceptable values rather than narrowing a range.
Several of these on one property are alternatives. -/
def isAlternative : Operator → Bool
  | eq => true
  | contains => true
  | startsWith => true
  | endsWith => true
  | _ => false

end Operator

/-- A condition on one property. -/
structure Filter where
  path : String
  operator : Operator
  value : Json
  upper : Option Json
  compound : Bool
deriving DecidableEq

namespace Filter

/-- The fields of a filter descriptor, in their order. -/
def fieldNames : List String := ["propertyPath", "operator", "value1", "value2", "multi"]

/-- The operand that a field holds, where null stands for none. -/
def operand? : Option Json → Option Json
  | some .null => none
  | field => field

/-- The filter with the given field values. -/
def ofFields? (path operator value upper compound : Option Json) : Option Filter :=
  match path.bind Json.string?, operator.bind Json.string?, Json.flag? compound with
  | some path, some operator, some compound =>
      some ⟨path, Operator.ofName operator, value.getD .null, operand? upper, compound⟩
  | _, _, _ => none

/-- The filter described by a value. -/
def ofJson? : Json → Option Filter
  | .object fields =>
      ofFields? (Json.lookup "propertyPath" fields) (Json.lookup "operator" fields)
        (Json.lookup "value1" fields) (Json.lookup "value2" fields) (Json.lookup "multi" fields)
  | .array items =>
      if items.length ≤ 5 then
        ofFields? items[0]? items[1]? items[2]? items[3]? items[4]?
      else none
  | _ => none

/-- The filter described by a text. -/
def ofText? (text : String) : Option Filter :=
  (Json.descriptorOfText? fieldNames text).bind ofJson?

/-- The descriptor of a filter. -/
def toJson (f : Filter) : Json :=
  .object <|
    [("propertyPath", .string f.path), ("operator", .string f.operator.name),
      ("value1", f.value)] ++
    (f.upper.map fun v => ("value2", v)).toList ++
    (if f.compound then [("multi", .bool true)] else [])

end Filter

end LiveDocuments
