import LiveDocuments.Json.Descriptor

/-!
# Sorters and sort orders

A sorter asks for one property in one direction, and may ask for a comparison of
its own, which no store can run. A sort order is what a store can run: properties
with directions, the first one deciding first. It is a map with insertion order,
so a property that is asked for again keeps its place and changes its direction.
-/

namespace LiveDocuments

/-- A sort request on one property. -/
structure Sorter where
  path : String
  descending : Bool
  customComparison : Bool
deriving DecidableEq

namespace Sorter

/-- The fields of a sorter descriptor, in their order. -/
def fieldNames : List String := ["propertyPath", "descending"]

/-- The sorter with the given field values. -/
def ofFields? (path descending : Option Json) : Option Sorter :=
  match path.bind Json.string?, Json.flag? descending with
  | some path, some descending => some ⟨path, descending, false⟩
  | _, _ => none

/-- The sorter described by a value. -/
def ofJson? : Json → Option Sorter
  | .object fields =>
      ofFields? (Json.lookup "propertyPath" fields) (Json.lookup "descending" fields)
  | .array items => if items.length ≤ 2 then ofFields? items[0]? items[1]? else none
  | _ => none

/-- The sorter described by a text. -/
def ofText? (text : String) : Option Sorter :=
  (Json.descriptorOfText? fieldNames text).bind ofJson?

/-- The descriptor of a sorter; a comparison of its own has none. -/
def toJson (s : Sorter) : Json :=
  .object [("propertyPath", .string s.path), ("descending", .bool s.descending)]

end Sorter

/-- Which way a property is sorted. -/
inductive Direction where
  | ascending
  | descending
deriving DecidableEq

namespace Direction

/-- The direction asked for by a flag. -/
def ofDescending (descending : Bool) : Direction :=
  if descending then .descending else .ascending

/-- One for ascending, minus one for descending. -/
def sign : Direction → Int
  | ascending => 1
  | descending => -1

end Direction

/-- Properties to sort by, in order of priority. -/
structure SortOrder where
  entries : List (String × Direction)
deriving DecidableEq

namespace SortOrder

/-- The order that prefers nothing. -/
def empty : SortOrder := ⟨[]⟩

/-- The entries with a property set to a direction, in its place if it has one. -/
def set (property : String) (direction : Direction) :
    List (String × Direction) → List (String × Direction)
  | [] => [(property, direction)]
  | (p, d) :: rest =>
      if p = property then (p, direction) :: rest else (p, d) :: set property direction rest

@[simp] theorem set_nil (property : String) (direction : Direction) :
    set property direction [] = [(property, direction)] := rfl

theorem set_cons (property p : String) (direction d : Direction)
    (rest : List (String × Direction)) :
    set property direction ((p, d) :: rest) =
      if p = property then (p, direction) :: rest
      else (p, d) :: set property direction rest := rfl

/-- The order with one more property. -/
def push (order : SortOrder) (property : String) (descending : Bool) : SortOrder :=
  ⟨set property (.ofDescending descending) order.entries⟩

/-- The order of requests pushed one after the other. -/
def ofList (requests : List (String × Bool)) : SortOrder :=
  requests.foldl (fun order (property, descending) => order.push property descending) empty

/-- The direction of a property, if it is sorted by. -/
def get? (order : SortOrder) (property : String) : Option Direction :=
  (order.entries.find? fun entry => entry.1 = property).map Prod.snd

/-- The count of properties. -/
def size (order : SortOrder) : Nat := order.entries.length

/-- Whether there is no property to sort by. -/
def isEmpty (order : SortOrder) : Bool := order.entries.isEmpty

/-- The order as an object from properties to signs. -/
def toJson (order : SortOrder) : Json :=
  .object (order.entries.map fun (property, direction) =>
    (property, Json.ofInt direction.sign))

end SortOrder

end LiveDocuments
