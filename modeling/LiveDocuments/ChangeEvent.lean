import LiveDocuments.DocumentId

/-!
# Changes to a list of results

A live query reports how its list of results changes, one document at a time. A
document that enters names the one it now stands before, or none if it stands
last.
-/

namespace LiveDocuments

/-- One change to a list of results. -/
inductive ChangeEvent where
  | added (id : DocumentId) (fields : Json) (before : Option DocumentId)
  | changed (id : DocumentId) (fields : Json)
  | removed (id : DocumentId)
deriving DecidableEq

namespace ChangeEvent

/-- The document that a change is about. -/
def id : ChangeEvent → DocumentId
  | added id _ _ => id
  | changed id _ => id
  | removed id => id

end ChangeEvent

end LiveDocuments
