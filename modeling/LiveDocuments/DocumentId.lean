import LiveDocuments.Json.Text

/-!
# Document ids

A document is named by a plain text or by an object id. In a path the id stands
between parentheses: a plain id as it is, or in single quotes if it would
otherwise be read as something else, and an object id as `ObjectID("…")`. In a
stored document a plain id is a string (or a number, named by its text) and an
object id is an object with the field `$oid`.

Reading and writing are separate functions on characters, so that which ids
survive a round trip is a statement about the two.
-/

namespace LiveDocuments

/-- The identifier of a document within its collection. -/
inductive DocumentId where
  | plain (text : String)
  | objectId (hex : String)
deriving DecidableEq

namespace DocumentId

/-- The marks that may enclose an id. -/
def isQuote (c : Char) : Bool := c == '\'' || c == '"'

/-- The word that an object id in a path begins with. -/
def wrapperWord : List Char := "Object".toList

/-- The text between a pair of equal quotes that encloses the whole. -/
def unquote? : List Char → Option (List Char)
  | [] => none
  | c :: rest => if isQuote c ∧ rest.getLast? = some c then some rest.dropLast else none

/-- The quoted part of an object id: behind the word, from the first quote to
the next one of its kind, or to the end. -/
def unwrap? (cs : List Char) : Option (List Char) :=
  match wrapperWord.isPrefixOf? cs with
  | none => none
  | some rest =>
      match rest.dropWhile fun c => !isQuote c with
      | [] => none
      | quote :: inner => some (inner.takeWhile fun c => c != quote)

/-- The id written between the parentheses of a path. A quoted id is plain, even
when it reads like an object id. -/
def ofText (text : String) : DocumentId :=
  match unquote? text.toList with
  | some inner => plain (String.ofList inner)
  | none =>
      match unwrap? text.toList with
      | some hex => objectId (String.ofList hex)
      | none => plain text

/-- Whether a plain id has to be quoted in a path. -/
def needsQuotes (cs : List Char) : Bool :=
  wrapperWord.isPrefixOf cs ||
    cs.any fun c => c == '(' || c == ')' || isQuote c

/-- The characters written for an id between the parentheses of a path. -/
def chars : DocumentId → List Char
  | plain text =>
      if needsQuotes text.toList then '\'' :: text.toList ++ ['\''] else text.toList
  | objectId hex => "ObjectID(\"".toList ++ hex.toList ++ "\")".toList

/-- The text written for an id between the parentheses of a path. -/
def toText (id : DocumentId) : String := String.ofList id.chars

@[simp] theorem toList_toText (id : DocumentId) : id.toText.toList = id.chars := by
  simp [toText]

/-- The id without its kind. -/
def name : DocumentId → String
  | plain text => text
  | objectId hex => hex

/-- Whether it is an object id. -/
def isObjectId : DocumentId → Bool
  | plain _ => false
  | objectId _ => true

/-- The field that marks a stored object id. -/
def objectIdKey : String := "$oid"

/-- The id denoted by a stored value. -/
def ofJson? : Json → Option DocumentId
  | .string s => some (plain s)
  | .number n => some (plain n.text)
  | .object fields => ((Json.lookup objectIdKey fields).bind Json.string?).map objectId
  | _ => none

/-- The stored form of an id. -/
def toJson : DocumentId → Json
  | plain text => .string text
  | objectId hex => Json.single objectIdKey (.string hex)

@[simp] theorem ofJson?_toJson (id : DocumentId) : ofJson? id.toJson = some id := by
  cases id <;> simp [toJson, ofJson?, Json.single, Json.lookup_cons, Json.string?]

end DocumentId

end LiveDocuments
