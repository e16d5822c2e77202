import LiveDocuments.Proofs.Selector.ById
import LiveDocuments.Proofs.Store.Finding

/-!
# The query of one document

A path that names a document is queried by the stored form of its id, and the filters given
beside it are left out. The ids of a collection in use are distinct, so at most one document
is stored under an id. The query finds just that one, whatever it is sorted by and however
small its limit (`Store.find_is_stored`).
-/

namespace LiveDocuments

namespace Keyed

variable {documents : List Json}

theorem filter_isStoredUnder (h : Keyed documents) (id : DocumentId) :
    documents.filter (isStoredUnder id) = (documents.find? (isStoredUnder id)).toList := by
  have hnodup := h.nodup
  have hone : ∀ a ∈ documents, ∀ b ∈ documents, isStoredUnder id a = true →
      isStoredUnder id b = true → a = b := fun a ha b hb hida hidb =>
    eq_of_idOf? h.distinct ha hb (idOf?_of_isStoredUnder hida) (idOf?_of_isStoredUnder hidb)
  clear h
  induction documents with
  | nil => rfl
  | cons first rest ih =>
      obtain ⟨hfirst, hrest⟩ := List.nodup_cons.mp hnodup
      by_cases hstored : isStoredUnder id first = true
      · have hnone : rest.filter (isStoredUnder id) = [] := by
          rw [List.filter_eq_nil_iff]
          intro other hother hsame
          obtain rfl := hone first List.mem_cons_self other (List.mem_cons_of_mem first hother)
            hstored hsame
          exact hfirst hother
        rw [List.filter_cons_of_pos hstored, hnone, List.find?_cons_of_pos hstored,
          Option.toList_some]
      · rw [List.filter_cons_of_neg hstored, List.find?_cons_of_neg hstored]
        exact ih hrest fun a ha b hb =>
          hone a (List.mem_cons_of_mem first ha) b (List.mem_cons_of_mem first hb)

theorem filter_accepts_id (h : Keyed documents) (id : DocumentId) :
    documents.filter (Selector.all [.field "_id" (.equals id.toJson)]).accepts =
      documents.filter (isStoredUnder id) := by
  apply List.filter_congr
  intro document hmem
  obtain ⟨own, hown⟩ := h.readable document hmem
  exact accepts_iff_isStoredUnder id hown

end Keyed

/-- A path that names a document asks for it alone, whatever filters are given. -/
theorem selector_compileQuery_id (name property : String) (id : DocumentId)
    (sorters : List Sorter) (filters : List Filter) (limit : Nat) :
    (compileQuery ⟨name, some id, property⟩ sorters filters limit).value.selector =
      Json.single "_id" id.toJson := selector_compileQuery _ _ _ _

/-- Filters make no difference to the query of one document, nor to what is reported. -/
theorem compileQuery_id_congr (name property : String) (id : DocumentId)
    (sorters : List Sorter) (filters others : List Filter) (limit : Nat) :
    compileQuery ⟨name, some id, property⟩ sorters filters limit =
      compileQuery ⟨name, some id, property⟩ sorters others limit := rfl

namespace Store

/-- What is found for a path with an id is the document stored under it. -/
theorem find_compileQuery_id {s : Store} {name : String} (hkeyed : Keyed (s.documents name))
    (property : String) (id : DocumentId) (sorters : List Sorter) (filters : List Filter)
    {limit : Nat} (hlimit : 1 ≤ limit) :
    s.find name (compileQuery ⟨name, some id, property⟩ sorters filters limit).value =
      .ok (s.stored? name id).toList := by
  have hselector := selector_compileQuery_id name property id sorters filters limit
  rw [find_eq_ok hkeyed (hselector ▸ compile_single_id id), limit_compileQuery,
    hkeyed.filter_accepts_id, hkeyed.filter_isStoredUnder, stored?]
  cases (s.documents name).find? (isStoredUnder id) with
  | none => simp
  | some document =>
      rw [Option.toList_some, List.mergeSort_singleton, List.take_of_length_le hlimit]

/-- In every store that operations lead to, the query that a path with an id is compiled to is
accepted, and finds exactly the document of the collection whose id is stored in the form in which
it is asked for, and nothing if there is no such document. The filters given beside the path make
no difference. -/
theorem find_is_stored (operations : List StoreOperation) (name property : String)
    (id : DocumentId) (sorters : List Sorter) (filters : List Filter) (limit : Nat)
    (hlimit : 1 ≤ limit) :
    let s := empty.run operations
    let query := fun filters : List Filter =>
      (compileQuery ⟨name, some id, property⟩ sorters filters limit).value
    (∃ found, s.find name (query filters) = .ok found ∧
      (∀ document ∈ s.documents name, ∀ value, document.get? idKey = some value →
        value.same id.toJson = true → found = [document]) ∧
      ((∀ document ∈ s.documents name, ∀ value, document.get? idKey = some value →
        value.same id.toJson = false) → found = [])) ∧
    ∀ others, query others = query filters := by
  intro s query
  have hkeyed : Keyed (s.documents name) := (keyed_documents_run name operations).1
  refine ⟨⟨_, find_compileQuery_id hkeyed property id sorters filters hlimit, ?_, ?_⟩,
    fun others => congrArg Compiled.value (compileQuery_id_congr _ _ _ _ _ _ _)⟩
  · intro document hmem value hvalue hsame
    have hstored : isStoredUnder id document = true :=
      isStoredUnder_iff.mpr ⟨value, hvalue, hsame⟩
    rw [stored?_of_mem hkeyed.distinct hmem hstored, Option.toList_some]
  · intro hnone
    have hstored : s.stored? name id = none := by
      rw [stored?, List.find?_eq_none]
      intro document hmem hstored
      obtain ⟨value, hvalue, hsame⟩ := isStoredUnder_iff.mp hstored
      rw [hnone document hmem value hvalue] at hsame
      cases hsame
    rw [hstored, Option.toList_none]

/-- Documents whose ids look alike: an object id, a plain text of the same letters, and an
object id with something beside it. -/
def lookalikes : List StoreOperation :=
  [.insert "C" (.object [("_id", .string "ab")]),
    .insert "C" (.object [("_id", (DocumentId.objectId "ab").toJson), ("n", .ofInt 1)]),
    .insert "C" (.object [("_id", .object [("$oid", .string "cd"), ("x", .null)])])]

/-- Of the documents that look alike one is found, although the filter speaks against it, and
one is not found by its id at all. -/
theorem find_is_stored_lookalikes :
    (1 ≤ 1 ∧ (empty.run lookalikes).find "C" (compileQuery ⟨"C", some (.objectId "ab"), ""⟩
        [⟨"n", true, false⟩] [⟨"n", .ne, .ofInt 1, none, false⟩] 1).value =
          .ok [.object [("_id", (DocumentId.objectId "ab").toJson), ("n", .ofInt 1)]]) ∧
      (empty.run lookalikes).find "C" (compileQuery ⟨"C", some (.objectId "cd"), ""⟩
        [] [] 1).value = .ok [] := by
  constructor
  · obtain ⟨⟨found, hfound, hone, -⟩, -⟩ := find_is_stored lookalikes "C" "" (.objectId "ab")
      [⟨"n", true, false⟩] [⟨"n", .ne, .ofInt 1, none, false⟩] 1 (by decide)
    refine ⟨by decide, hfound.trans (congrArg Except.ok ?_)⟩
    exact hone _ (by decide +kernel) _ rfl (by decide +kernel)
  · obtain ⟨⟨found, hfound, -, hnone⟩, -⟩ := find_is_stored lookalikes "C" "" (.objectId "cd")
      [] [] 1 (by decide)
    refine hfound.trans (congrArg Except.ok (hnone ?_))
    have hall : ((empty.run lookalikes).documents "C").all (fun document =>
        ((document.get? idKey).all fun value => !value.same (DocumentId.objectId "cd").toJson)) =
          true := by decide +kernel
    intro document hmem value hvalue
    have hdocument := List.all_eq_true.mp hall document hmem
    rw [hvalue, Option.all_some] at hdocument
    simpa using hdocument

end Store

end LiveDocuments
