import LiveDocuments.DocumentId
import LiveDocuments.Text.Pieces

/-!
# The components of a path

An absolute path names a collection, possibly one of its documents, and possibly
a property of that document: `/Collection(id)/a/b`. Reading cuts the path at `/`
and drops empty segments. The first segment holds the collection and, from its
first parenthesis to its end, the document id; the others are joined with `.` to
the property path.

A property path that begins with `?` is a lookup into another collection, with a
path of its own. Joining with `.` would lose the separator behind the lookup's
id, so the `.` that directly follows the first `)` is turned back into `/`.
-/

namespace LiveDocuments

/-- Why a path does not name anything. -/
inductive PathFault where
  | noRoot
  | noCollection
  | unterminatedId
  | contextWithoutSlash
  | relativeWithoutContext
deriving DecidableEq

namespace PathFault

/-- The wording of a fault. -/
def message : PathFault → String
  | noRoot => "path must start with `/` or `?`"
  | noCollection => "missing collection segment"
  | unterminatedId => "unterminated document identifier"
  | contextWithoutSlash => "context paths must start with `/`"
  | relativeWithoutContext => "relative path without a context"

end PathFault

/-- What an absolute path names. -/
structure Components where
  collection : String
  documentId : Option DocumentId
  property : String
deriving DecidableEq

namespace Components

/-- The text with the `.` behind its first `)` turned back into `/`. -/
def restoreSeparator : List Char → List Char
  | [] => []
  | c :: rest =>
      if c = ')' then
        match rest with
        | '.' :: after => ')' :: '/' :: after
        | _ => c :: rest
      else c :: restoreSeparator rest

@[simp] theorem restoreSeparator_nil : restoreSeparator [] = [] := rfl

/-- The collection and document id of the first segment. -/
def parseSegment (segment : List Char) : Except PathFault (String × Option DocumentId) :=
  let name := String.ofList (segment.takeWhile (· != '('))
  match segment.dropWhile (· != '(') with
  | [] => .ok (name, none)
  | _ :: rest =>
      if rest.getLast? = some ')' then
        .ok (name, some (DocumentId.ofText (String.ofList rest.dropLast)))
      else .error .unterminatedId

/-- The components named by the segments of a path. -/
def ofSegments : List (List Char) → Except PathFault Components
  | [] => .error .noCollection
  | first :: others =>
      match parseSegment first with
      | .error fault => .error fault
      | .ok (collection, documentId) =>
          .ok ⟨collection, documentId,
            String.ofList (restoreSeparator (Text.join '.' others))⟩

/-- The components named by the characters of a path. A lookup path is read from
the root. -/
def ofChars : List Char → Except PathFault Components
  | '?' :: rest => ofSegments (Text.segments '/' rest)
  | '/' :: rest => ofSegments (Text.segments '/' rest)
  | _ => .error .noRoot

/-- The components named by an absolute path. -/
def parse (path : String) : Except PathFault Components := ofChars path.toList

/-- The path of a document in a collection. -/
def pathOf (collection : String) (id : DocumentId) : String :=
  "/" ++ collection ++ "(" ++ id.toText ++ ")"

/-- The path without the property. -/
def documentPath (c : Components) : String :=
  match c.documentId with
  | some id => pathOf c.collection id
  | none => "/" ++ c.collection

/-- The whole path. -/
def toPath (c : Components) : String :=
  if c.property = "" then c.documentPath else c.documentPath ++ "/" ++ c.property

/-- Whether the property path is a lookup into another collection. -/
def hasLookup (c : Components) : Bool := c.property.toList.head? == some '?'

end Components

end LiveDocuments
