import LiveDocuments.Json.Order
import LiveDocuments.Path.Property
import LiveDocuments.Pattern.Search

/-!
# Selectors and the documents they accept

A selector is a tree of conditions on properties under `all` and `any`. A
condition either names a value that the property must agree with, or lists tests
that must all hold. A property that is missing agrees with null only, and a
property that is an array agrees with whatever one of its items agrees with,
unless the value asked for is an array itself.
-/

namespace LiveDocuments

/-- A test on a property. -/
inductive Test where
  | eq (operand : Json)
  | ne (operand : Json)
  | gt (operand : Json)
  | ge (operand : Json)
  | lt (operand : Json)
  | le (operand : Json)
  | matching (pattern : Pattern)
deriving DecidableEq

/-- What is asked of a property. -/
inductive Condition where
  | equals (value : Json)
  | tests (all : List Test)
deriving DecidableEq

/-- Which documents are wanted. -/
inductive Selector where
  | all (parts : List Selector)
  | any (parts : List Selector)
  | field (path : String) (condition : Condition)

/-- Whether a property value is the one asked for, or an array that holds it. -/
def equalsOrContains : Option Json → Json → Bool
  | none, expected => decide (expected = .null)
  | some (.array items), .array others => (Json.array items).agrees (.array others)
  | some (.array items), expected => items.any fun item => item.agrees expected
  | some value, expected => value.agrees expected

/-- The order between a property value and an operand of its kind. -/
def compareTo? (target : Option Json) (operand : Json) : Option Ordering :=
  target.bind fun value => value.compare? operand

namespace Test

/-- Whether the test holds of a property value, which may be missing. -/
def holds : Test → Option Json → Bool
  | eq operand, target => equalsOrContains target operand
  | ne operand, target => !equalsOrContains target operand
  | gt operand, target => compareTo? target operand == some .gt
  | ge operand, target =>
      compareTo? target operand == some .gt || compareTo? target operand == some .eq
  | lt operand, target => compareTo? target operand == some .lt
  | le operand, target =>
      compareTo? target operand == some .lt || compareTo? target operand == some .eq
  | matching pattern, some (.string s) => pattern.occursIn s.toList
  | matching _, _ => false

end Test

namespace Condition

/-- Whether the condition holds of a property value, which may be missing. -/
def holds : Condition → Option Json → Bool
  | equals value, target => equalsOrContains target value
  | tests all, target => all.all fun test => test.holds target

end Condition

namespace Selector

mutual

/-- Whether a document is wanted. -/
def accepts : Selector → Json → Bool
  | all parts, document => acceptsAll parts document
  | any parts, document => acceptsAny parts document
  | field path condition, document => condition.holds (valueAt document path)

/-- Whether every part accepts the document. -/
def acceptsAll : List Selector → Json → Bool
  | [], _ => true
  | part :: rest, document => accepts part document && acceptsAll rest document

/-- Whether some part accepts the document. -/
def acceptsAny : List Selector → Json → Bool
  | [], _ => false
  | part :: rest, document => accepts part document || acceptsAny rest document

end

theorem acceptsAll_eq_all (parts : List Selector) (document : Json) :
    acceptsAll parts document = parts.all fun part => part.accepts document := by
  induction parts with
  | nil => rfl
  | cons part rest ih => rw [acceptsAll, ih, List.all_cons]

theorem acceptsAny_eq_any (parts : List Selector) (document : Json) :
    acceptsAny parts document = parts.any fun part => part.accepts document := by
  induction parts with
  | nil => rfl
  | cons part rest ih => rw [acceptsAny, ih, List.any_cons]

@[simp] theorem accepts_all (parts : List Selector) (document : Json) :
    (all parts).accepts document = parts.all fun part => part.accepts document := by
  rw [accepts, acceptsAll_eq_all]

@[simp] theorem accepts_any (parts : List Selector) (document : Json) :
    (any parts).accepts document = parts.any fun part => part.accepts document := by
  rw [accepts, acceptsAny_eq_any]

@[simp] theorem accepts_field (path : String) (condition : Condition) (document : Json) :
    (field path condition).accepts document = condition.holds (valueAt document path) := by
  rw [accepts]

end Selector

end LiveDocuments
