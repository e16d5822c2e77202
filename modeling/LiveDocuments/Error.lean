import LiveDocuments.Json.Text
import LiveDocuments.Path.Components
import LiveDocuments.Pattern.Fault

/-!
# What can go wrong

Errors are causes, and each has one wording. A store refuses a document without
an id or a selector it cannot read. Everything else that a path, a descriptor or
a query can get wrong is a `BindingError`; most of them are only reported, and
the operation goes on with what is left.
-/

namespace LiveDocuments

/-- Why a selector is not accepted. -/
inductive SelectorFault where
  | notAnObject (found : Json)
  | notAList (operator : String)
  | unknownConnective (operator : String)
  | unknownOperator (operator : String)
  | patternNotText
  | unusablePattern (fault : Pattern.Fault)
  | refused (reason : String)
deriving DecidableEq

namespace SelectorFault

/-- The wording of a fault. -/
def message : SelectorFault → String
  | notAnObject found => "expected object, got " ++ found.text
  | notAList operator => operator ++ " expects an array"
  | unknownConnective operator => "unsupported top-level operator " ++ operator
  | unknownOperator operator => "unsupported operator " ++ operator
  | patternNotText => "$regex expects a string"
  | unusablePattern fault => fault.message
  | refused reason => reason

end SelectorFault

/-- Why a store does not do what it is asked. -/
inductive StoreError where
  | missingId (collection : String)
  | invalidSelector (fault : SelectorFault)
deriving DecidableEq

namespace StoreError

/-- The wording of an error. -/
def message : StoreError → String
  | missingId collection => "document in `" ++ collection ++ "` is missing an `_id`"
  | invalidSelector fault => "invalid selector: " ++ fault.message

end StoreError

/-- Why a path cannot be followed, a descriptor cannot be used, or a query cannot
be issued. -/
inductive BindingError where
  | pathFault (path : String) (fault : PathFault)
  | multiFilter (path : String)
  | unknownFilterOperator (path operator : String)
  | nestedSortPath (path : String)
  | customComparator (path : String)
  | notAnArray (path : String)
  | arrayQuery
  | unknownCollection (name : String)
  | store (error : StoreError)
  | modelDestroyed
  | endlessLookup (path : String)
deriving DecidableEq

namespace BindingError

/-- The wording of an error. -/
def message : BindingError → String
  | pathFault path fault =>
      "cannot find root element (collection) in path `" ++ path ++ "`: " ++ fault.message
  | multiFilter path =>
      "multi filters are not supported by list bindings (filter on `" ++ path ++ "`)"
  | unknownFilterOperator _ operator => "filter operator " ++ operator ++ " not supported"
  | nestedSortPath path => "unsupported list sorting path: " ++ path
  | customComparator path =>
      "custom sort comparator functions are unsupported (sorter on `" ++ path ++ "`)"
  | notAnArray path => path ++ " is not an array"
  | arrayQuery => "sorting and filtering not supported for binding to arrays"
  | unknownCollection name => "unknown collection `" ++ name ++ "`"
  | store error => "document store error: " ++ error.message
  | modelDestroyed => "model has been destroyed"
  | endlessLookup path => "lookup does not end: " ++ path

end BindingError

/-- The components of a path, its fault put together with the path. -/
def Components.ofPath (path : String) : Except BindingError Components :=
  match Components.parse path with
  | .ok components => .ok components
  | .error fault => .error (.pathFault path fault)

end LiveDocuments
