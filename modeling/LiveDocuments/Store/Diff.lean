import LiveDocuments.ChangeEvent
import LiveDocuments.Json.Canonical
import LiveDocuments.Query.Execution

/-!
# What changed between two lists of results

`Results.changes old new` lists the changes that turn the old results into the
new ones. Documents that are gone are removed first, and so are documents that
stayed but stand in another order among those that stayed. Then come the
documents that kept their place and have new content. Documents that entered or
moved are added last, from the end of the new results backwards, so that the
document each of them is put before is always there already.
-/

namespace LiveDocuments

namespace Results

/-- The ids of `results` that are among those of `others`, in order. -/
def retained (results others : Results) : List DocumentId :=
  (ids results).filter fun id => id ∈ ids others

/-- The ids that stayed but changed their rank among those that stayed. -/
def moved (old new : Results) : List DocumentId :=
  (((retained old new).zip (retained new old)).filter fun pair => pair.1 ≠ pair.2).map Prod.fst

/-- Whether a document kept its place. -/
def isKept (old new : Results) (id : DocumentId) : Bool :=
  id ∈ ids old && id ∈ ids new && id ∉ moved old new

/-- The removals, in the old order. -/
def removals (old new : Results) : List ChangeEvent :=
  ((ids old).filter fun id => !isKept old new id).map .removed

/-- The change of a document that kept its place, if its content is new. -/
def alteration? (old new : Results) (result : DocumentId × Json) : Option ChangeEvent :=
  if isKept old new result.1 then
    match document? old result.1 with
    | some before => if before.same result.2 then none else some (.changed result.1 result.2)
    | none => none
  else none

/-- The changes of documents that kept their places, in the new order. -/
def alterations (old new : Results) : List ChangeEvent :=
  new.filterMap (alteration? old new)

/-- The additions of the documents that are not kept, each before its successor,
the last one first. -/
def additions (kept : DocumentId → Bool) : Results → List ChangeEvent
  | [] => []
  | (id, document) :: rest =>
      additions kept rest ++
        (if kept id then [] else [.added id document (rest.head?.map Prod.fst)])

@[simp] theorem additions_nil (kept : DocumentId → Bool) : additions kept [] = [] := rfl

theorem additions_cons (kept : DocumentId → Bool) (id : DocumentId) (document : Json)
    (rest : Results) :
    additions kept ((id, document) :: rest) =
      additions kept rest ++
        (if kept id then [] else [.added id document (rest.head?.map Prod.fst)]) := rfl

/-- The changes that turn the old results into the new ones. -/
def changes (old new : Results) : List ChangeEvent :=
  removals old new ++ alterations old new ++ additions (isKept old new) new

end Results

end LiveDocuments
