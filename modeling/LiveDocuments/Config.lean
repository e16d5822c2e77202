import LiveDocuments.Json.Descriptor

/-!
# Settings of a model

The size limit bounds how many documents or array elements a query brings in;
zero is not a usable limit and stands for the default. The legacy setting takes
relative paths without a context from the root.
-/

namespace LiveDocuments

/-- The settings shared by the bindings of a model. -/
structure Config where
  sizeLimit : Nat
  legacySyntax : Bool
deriving DecidableEq

namespace Config

/-- The limit where none is given. -/
def defaultSizeLimit : Nat := 100

/-- The settings where none are given. -/
def default : Config := ⟨defaultSizeLimit, false⟩

/-- The settings with a usable limit. -/
def normalized (c : Config) : Config :=
  if c.sizeLimit = 0 then { c with sizeLimit := defaultSizeLimit } else c

theorem sizeLimit_normalized_pos (c : Config) : 0 < c.normalized.sizeLimit := by
  unfold normalized
  split
  · exact (by decide : 0 < defaultSizeLimit)
  · omega

/-- The fields of a settings descriptor, in their order. -/
def fieldNames : List String := ["sizeLimit", "legacySyntax"]

/-- The limit that a field holds: a whole number of 64 bits. -/
def limit? : Option Json → Option Nat
  | none => some defaultSizeLimit
  | some (.number (.integer n)) => if 0 ≤ n ∧ n < twoTo 64 then some n.toNat else none
  | some _ => none

/-- The settings with the given field values. -/
def ofFields? (sizeLimit legacySyntax : Option Json) : Option Config :=
  match limit? sizeLimit, Json.flag? legacySyntax with
  | some sizeLimit, some legacySyntax => some ⟨sizeLimit, legacySyntax⟩
  | _, _ => none

/-- The settings described by a value. -/
def ofJson? : Json → Option Config
  | .object fields => ofFields? (Json.lookup "sizeLimit" fields) (Json.lookup "legacySyntax" fields)
  | .array items => if items.length ≤ 2 then ofFields? items[0]? items[1]? else none
  | _ => none

/-- The settings described by a text. -/
def ofText? (text : String) : Option Config :=
  (Json.descriptorOfText? fieldNames text).bind ofJson?

end Config

end LiveDocuments
