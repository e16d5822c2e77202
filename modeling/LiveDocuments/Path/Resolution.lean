/-!
# Resolving paths

A path is absolute if it begins with `/`, or with `?`, which marks a lookup. Any
other path is relative and means something only under the absolute path of a
context; with the legacy setting it is taken from the root when there is no
context. A resolved path ends in `/` only if it is that single character, so
spellings that differ in trailing slashes resolve to one text.
-/

namespace LiveDocuments

namespace Path

/-- Whether the characters begin an absolute path. -/
def beginsAbsolute : List Char → Bool
  | '/' :: _ => true
  | '?' :: _ => true
  | _ => false

/-- Whether a path is absolute. Lookup paths are. -/
def isAbsolute (path : String) : Bool := beginsAbsolute path.toList

/-- The characters without the slashes at the end. -/
def dropTrailingSlashes (cs : List Char) : List Char :=
  (cs.reverse.dropWhile (· == '/')).reverse

/-- The path without trailing slashes, except that a first character stays. -/
def trimTrailingSlashes : List Char → List Char
  | [] => []
  | c :: rest => c :: dropTrailingSlashes rest

@[simp] theorem trimTrailingSlashes_nil : trimTrailingSlashes [] = [] := rfl

theorem trimTrailingSlashes_cons (c : Char) (rest : List Char) :
    trimTrailingSlashes (c :: rest) = c :: dropTrailingSlashes rest := rfl

/-- A relative path placed under a base with one separator between them. -/
def under (base path : List Char) : List Char :=
  if base.getLast? = some '/' then base ++ path else base ++ '/' :: path

/-- The absolute path before its end is trimmed. -/
def locate (legacySyntax : Bool) (path : List Char) (context : Option (List Char)) :
    Option (List Char) :=
  if path = [] then context
  else if beginsAbsolute path then some path
  else
    match context with
    | some base => some (under base path)
    | none => if legacySyntax then some ('/' :: path) else none

/-- The absolute path denoted by `path` under the path of a context. The empty
path denotes the context itself. -/
def resolve (legacySyntax : Bool) (path : String) (context : Option String) : Option String :=
  (locate legacySyntax path.toList (context.map String.toList)).map fun cs =>
    String.ofList (trimTrailingSlashes cs)

end Path

end LiveDocuments
