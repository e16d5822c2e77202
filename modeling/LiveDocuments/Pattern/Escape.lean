/-!
# Escaping text for a pattern

A pattern that is to match a text literally is that text with a backslash before
every character that could mean something else in a pattern.
-/

namespace LiveDocuments

namespace Pattern

/-- The characters that mean something in patterns. -/
def isMeta (c : Char) : Bool :=
  c == '\\' || c == '.' || c == '+' || c == '*' || c == '?' || c == '(' || c == ')' ||
  c == '|' || c == '[' || c == ']' || c == '\x7b' || c == '\x7d' || c == '^' || c == '$' ||
  c == '#' || c == '&' || c == '-' || c == '~'

/-- The characters of a pattern that matches the given ones literally. -/
def escape : List Char → List Char
  | [] => []
  | c :: rest => if isMeta c then '\\' :: c :: escape rest else c :: escape rest

@[simp] theorem escape_nil : escape [] = [] := rfl

theorem escape_cons (c : Char) (rest : List Char) :
    escape (c :: rest) = if isMeta c then '\\' :: c :: escape rest else c :: escape rest := rfl

theorem escape_append (front back : List Char) :
    escape (front ++ back) = escape front ++ escape back := by
  induction front with
  | nil => rfl
  | cons c rest ih =>
      rw [List.cons_append, escape_cons, escape_cons, ih]
      split <;> rfl

end Pattern

end LiveDocuments
