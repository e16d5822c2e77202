import LiveDocuments.Error
import LiveDocuments.Pattern.Escape
import LiveDocuments.Query.Basic
import LiveDocuments.Query.Filter

/-!
# From filters and sorters to queries

Compiling never gives up: an entry that cannot be used is left out and reported,
and the others make the query. So the result is a value together with the errors
of the entries that were left out, in their order.

The accepted filters become a selector. They are grouped by property, in the
order in which the properties first appear. The alternatives of a property make
one clause, with `$or` if there are several; each range or exclusion is a clause
of its own; several clauses are put under `$and`.
-/

namespace LiveDocuments

/-- A result together with what had to be left out to get it. -/
structure Compiled (α : Type) where
  value : α
  diagnostics : List BindingError

namespace Compiled

/-- Whether nothing was left out. -/
def isClean {α : Type} (c : Compiled α) : Bool := c.diagnostics.isEmpty

end Compiled

/-- What an accepted filter contributes to the selector. -/
structure Fragment where
  path : String
  alternative : Bool
  condition : Json
deriving DecidableEq

namespace Filter

/-- The text that a pattern filter looks for: a string itself, any other value
by its compact text. -/
def soughtText : Json → List Char
  | .string s => s.toList
  | value => value.chars

/-- The condition that a string matches a pattern, regardless of case. -/
def patternCondition (pattern : List Char) : Json :=
  .object [("$regex", .string (String.ofList pattern)), ("$options", .string "i")]

/-- The condition on a property value that the operator and operands mean;
nothing for an unknown operator. -/
def condition? (f : Filter) : Option Json :=
  match f.operator with
  | .eq => some f.value
  | .ne => some (Json.single "$ne" f.value)
  | .lt => some (Json.single "$lt" f.value)
  | .le => some (Json.single "$lte" f.value)
  | .gt => some (Json.single "$gt" f.value)
  | .ge => some (Json.single "$gte" f.value)
  | .between => some (.object [("$gte", f.value), ("$lte", f.upper.getD .null)])
  | .contains => some (patternCondition (Pattern.escape (soughtText f.value)))
  | .startsWith => some (patternCondition ('^' :: Pattern.escape (soughtText f.value)))
  | .endsWith => some (patternCondition (Pattern.escape (soughtText f.value) ++ ['$']))
  | .other _ => none

/-- What a filter contributes, or why it cannot be used. -/
def fragment (f : Filter) : Except BindingError Fragment :=
  if f.compound then .error (.multiFilter f.path)
  else
    match f.condition? with
    | some condition => .ok ⟨f.path, f.operator.isAlternative, condition⟩
    | none => .error (.unknownFilterOperator f.path f.operator.name)

/-- The contribution of an accepted filter. -/
def fragment? (f : Filter) : Option Fragment := f.fragment.toOption

/-- The error of a rejected filter. -/
def rejection? (f : Filter) : Option BindingError :=
  match f.fragment with
  | .ok _ => none
  | .error e => some e

end Filter

namespace Fragment

/-- The fragment as a selector of its own. -/
def clause (f : Fragment) : Json := Json.single f.path f.condition

/-- The properties of fragments, each once, in order of first appearance. -/
def properties (fragments : List Fragment) : List String :=
  (fragments.map path).eraseDups

/-- One clause for the alternatives, none if there are no alternatives. -/
def anyOf : List Fragment → List Json
  | [] => []
  | [f] => [f.clause]
  | fs => [Json.single "$or" (.array (fs.map clause))]

/-- The clauses of one property: its alternatives, then its ranges and
exclusions. -/
def clausesOf (fragments : List Fragment) (property : String) : List Json :=
  let mine := fragments.filter fun f => f.path = property
  anyOf (mine.filter (·.alternative)) ++ (mine.filter fun f => !f.alternative).map clause

/-- All clauses, property by property. -/
def clauses (fragments : List Fragment) : List Json :=
  (properties fragments).flatMap (clausesOf fragments)

/-- The selector that demands every clause. -/
def allOf : List Json → Json
  | [] => .object []
  | [clause] => clause
  | clauses => Json.single "$and" (.array clauses)

end Fragment

/-- The selector that a list of filters means. -/
def compileSelector (filters : List Filter) : Compiled Json :=
  ⟨Fragment.allOf (Fragment.clauses (filters.filterMap Filter.fragment?)),
    filters.filterMap Filter.rejection?⟩

namespace Sorter

/-- Why a sorter cannot be used: only top-level properties can be sorted by, and
only by the natural order. -/
def rejection? (s : Sorter) : Option BindingError :=
  if '/' ∈ s.path.toList ∨ '.' ∈ s.path.toList then some (.nestedSortPath s.path)
  else if s.customComparison then some (.customComparator s.path)
  else none

/-- The request of an accepted sorter. -/
def request? (s : Sorter) : Option (String × Bool) :=
  if s.rejection?.isNone then some (s.path, s.descending) else none

end Sorter

/-- The sort order that a list of sorters means. -/
def compileSort (sorters : List Sorter) : Compiled SortOrder :=
  ⟨SortOrder.ofList (sorters.filterMap Sorter.request?), sorters.filterMap Sorter.rejection?⟩

/-- The selector for the documents that a path names. A document is selected by
its id alone; the filters are for collections. -/
def selectorFor (components : Components) (filters : List Filter) : Compiled Json :=
  match components.documentId with
  | some id => ⟨Json.single "_id" id.toJson, []⟩
  | none => compileSelector filters

/-- The query for the documents that a path names. -/
def compileQuery (components : Components) (sorters : List Sorter) (filters : List Filter)
    (limit : Nat) : Compiled Query :=
  let selector := selectorFor components filters
  if sorters.isEmpty then ⟨⟨selector.value, limit, none⟩, selector.diagnostics⟩
  else
    let sort := compileSort sorters
    ⟨⟨selector.value, limit, some sort.value⟩, selector.diagnostics ++ sort.diagnostics⟩

theorem selector_compileQuery (c : Components) (sorters : List Sorter) (filters : List Filter)
    (limit : Nat) :
    (compileQuery c sorters filters limit).value.selector = (selectorFor c filters).value := by
  unfold compileQuery
  split <;> rfl

theorem limit_compileQuery (c : Components) (sorters : List Sorter) (filters : List Filter)
    (limit : Nat) : (compileQuery c sorters filters limit).value.limit = limit := by
  unfold compileQuery
  split <;> rfl

theorem sort_compileQuery (c : Components) (sorters : List Sorter) (filters : List Filter)
    (limit : Nat) :
    (compileQuery c sorters filters limit).value.sort.getD .empty =
      (compileSort sorters).value := by
  cases sorters <;> rfl

/-- The errors of the filters come before those of the sorters, each in their order. A
document is looked for by its id alone, whatever the filters are. -/
theorem diagnostics_compileQuery (c : Components) (sorters : List Sorter) (filters : List Filter)
    (limit : Nat) :
    (compileQuery c sorters filters limit).diagnostics =
      (if c.documentId.isSome then [] else filters.filterMap Filter.rejection?) ++
        sorters.filterMap Sorter.rejection? := by
  unfold compileQuery selectorFor compileSelector compileSort
  cases c.documentId <;> cases sorters <;> simp

end LiveDocuments
