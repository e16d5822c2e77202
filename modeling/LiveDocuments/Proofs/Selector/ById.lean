import LiveDocuments.Proofs.Store.Documents
import LiveDocuments.Query.Compile

/-!
# Selecting a document by its id

The document that a path names is found by asking for the stored form of the id. A
document denotes its id more freely than that: a number denotes the plain id of its text,
and an object with `$oid` may have other fields. So the document with the id is found
exactly if what it stores is the same value as the stored form.
-/

namespace LiveDocuments

namespace Json

/-! ## Normal forms and their fields -/

theorem lookup_insertSorted (key other : String) (value : Json)
    (fields : List (String × Json)) :
    lookup other (insertSorted key value fields) =
      if key = other then some value else lookup other fields := by
  induction fields with
  | nil => rw [insertSorted, lookup_cons]
  | cons field rest ih =>
      obtain ⟨k, v⟩ := field
      unfold insertSorted
      split
      · rw [lookup_cons]
      split
      · next hk =>
          rw [lookup_cons, lookup_cons, hk]
          split <;> rfl
      · next hk =>
          rw [lookup_cons, lookup_cons, ih]
          by_cases hkey : key = other
          · have hko : k ≠ other := fun h => hk (h.trans hkey.symm)
            rw [if_pos hkey, if_pos hkey, if_neg hko]
          · rw [if_neg hkey, if_neg hkey]

/-- The normal form has the normal forms of the fields under their keys. -/
theorem lookup_canonicalFields (key : String) (fields : List (String × Json)) :
    lookup key (canonicalFields fields) = (lookup key fields).map canonical := by
  induction fields with
  | nil => rw [canonicalFields, lookup_nil, Option.map_none]
  | cons field rest ih =>
      obtain ⟨k, v⟩ := field
      rw [canonicalFields, lookup_insertSorted, lookup_cons, ih]
      split <;> rfl

theorem eq_string_of_canonical {value : Json} {text : String}
    (h : value.canonical = .string text) : value = .string text := by
  cases value with
  | string s => rwa [canonical] at h
  | null => rw [canonical] at h; cases h
  | bool b => rw [canonical] at h; cases h
  | number n => rw [canonical] at h; cases h
  | array items => rw [canonical] at h; cases h
  | object fields => rw [canonical] at h; cases h

end Json

namespace DocumentId

theorem ofJson?_of_same {value : Json} {id : DocumentId} (h : value.same id.toJson = true) :
    ofJson? value = some id := by
  rw [Json.same_iff] at h
  cases id with
  | plain text =>
      rw [Json.eq_string_of_canonical (h.trans (by rw [toJson, Json.canonical]))]
      rfl
  | objectId hex =>
      have hstored : (objectId hex).toJson.canonical = .object [(objectIdKey, .string hex)] := by
        simp [toJson, Json.single, Json.canonical, Json.canonicalFields, Json.insertSorted]
      rw [hstored] at h
      cases value with
      | object fields =>
          rw [Json.canonical] at h
          have hfields := Json.object.inj h
          have hlookup := Json.lookup_canonicalFields objectIdKey fields
          rw [hfields, Json.lookup_cons, if_pos rfl] at hlookup
          rcases Option.map_eq_some_iff.mp hlookup.symm with ⟨stored, hfound, hstored⟩
          rw [Json.eq_string_of_canonical hstored] at hfound
          simp [ofJson?, hfound, Json.string?]
      | null => rw [Json.canonical] at h; cases h
      | bool b => rw [Json.canonical] at h; cases h
      | number n => rw [Json.canonical] at h; cases h
      | array items => rw [Json.canonical] at h; cases h
      | string s => rw [Json.canonical] at h; cases h

end DocumentId

/-! ## The selector of an id -/

theorem valueAt_id (document : Json) : valueAt document "_id" = document.get? idKey := by
  have hsteps : Property.steps "_id".toList = ["_id".toList] := by decide
  have hindex : Property.index? "_id".toList = none := by decide
  have hwalk : valueAt document "_id" = Property.stepInto document "_id".toList := by
    rw [valueAt, hsteps, Property.walk_cons]
    cases Property.stepInto document "_id".toList <;> rfl
  rw [hwalk]
  cases document with
  | object fields =>
      simp only [Property.stepInto, String.ofList_toList]
      rfl
  | array items =>
      simp only [Property.stepInto, hindex]
      rfl
  | _ => rfl

theorem compile_single_id (id : DocumentId) :
    Selector.compile (Json.single "_id" id.toJson) =
      .ok (.all [.field "_id" (.equals id.toJson)]) := by
  cases id <;> rfl

/-- The selector of an id accepts a document that stores the same value as the id is
stored by. -/
theorem accepts_single_id {document value : Json} {own : DocumentId} (id : DocumentId)
    (hvalue : document.get? idKey = some value) (hown : DocumentId.ofJson? value = some own) :
    (Selector.all [.field "_id" (.equals id.toJson)]).accepts document = value.same id.toJson := by
  rw [Selector.accepts_all, List.all_cons, List.all_nil, Bool.and_true, Selector.accepts_field,
    valueAt_id, hvalue]
  cases value with
  | array items => cases hown
  | number n => cases id <;> rfl
  | _ => rfl

/-! ## Finding a document by its id -/

/-- The document stores the same value as the id is stored by. -/
def isStoredUnder (id : DocumentId) (document : Json) : Bool :=
  (document.get? idKey).any fun value => value.same id.toJson

theorem isStoredUnder_iff {id : DocumentId} {document : Json} :
    isStoredUnder id document = true ↔
      ∃ value, document.get? idKey = some value ∧ value.same id.toJson = true :=
  Option.any_eq_true _ _

theorem idOf?_of_isStoredUnder {id : DocumentId} {document : Json}
    (h : isStoredUnder id document = true) : idOf? document = some id := by
  obtain ⟨value, hvalue, hsame⟩ := isStoredUnder_iff.mp h
  rw [idOf?, hvalue]
  exact DocumentId.ofJson?_of_same hsame

/-- Of the documents with an id, the selector of an id accepts those that are stored
under it. -/
theorem accepts_iff_isStoredUnder {document : Json} {own : DocumentId} (id : DocumentId)
    (hown : idOf? document = some own) :
    (Selector.all [.field "_id" (.equals id.toJson)]).accepts document =
      isStoredUnder id document := by
  rcases Option.bind_eq_some_iff.mp hown with ⟨value, hvalue, hvalueOwn⟩
  rw [accepts_single_id id hvalue hvalueOwn, isStoredUnder, hvalue, Option.any_some]

theorem map_filterMap_accepts (id : DocumentId) (documents : List Json) :
    ((documents.filter (Selector.all [.field "_id" (.equals id.toJson)]).accepts).filterMap
      withId?).map Prod.snd = documents.filter (isStoredUnder id) := by
  induction documents with
  | nil => rfl
  | cons document rest ih =>
      rw [List.filter_cons, List.filter_cons]
      cases hown : idOf? document with
      | none =>
          have hother : ¬ isStoredUnder id document = true := by
            intro hstored
            rw [idOf?_of_isStoredUnder hstored] at hown
            cases hown
          have hskipped : withId? document = none := by rw [withId?, hown, Option.map_none]
          rw [if_neg hother, ← ih]
          split
          · rw [List.filterMap_cons_none hskipped]
          · rfl
      | some own =>
          rw [accepts_iff_isStoredUnder id hown]
          split
          · have hkept : withId? document = some (own, document) := by
              rw [withId?, hown, Option.map_some]
            rw [List.filterMap_cons_some hkept, List.map_cons, ih]
          · exact ih

namespace Store

/-- The query for the document of an id. -/
def queryById (id : DocumentId) (limit : Nat) : Query :=
  ⟨Json.single "_id" id.toJson, limit, none⟩

theorem find_queryById (s : Store) (name : String) (id : DocumentId) (limit : Nat) :
    s.find name (queryById id limit) =
      .ok (((s.documents name).filter (isStoredUnder id)).take limit) := by
  rw [find, queryById, compile_single_id, ← map_filterMap_accepts, ← List.map_take]
  rfl

/-- The document of a collection that is stored under an id. -/
def stored? (s : Store) (name : String) (id : DocumentId) : Option Json :=
  (s.documents name).find? (isStoredUnder id)

theorem head?_filter_isStoredUnder (s : Store) (name : String) (id : DocumentId) {limit : Nat}
    (hlimit : 0 < limit) :
    (((s.documents name).filter (isStoredUnder id)).take limit).head? = s.stored? name id := by
  rw [List.head?_take, if_neg (Nat.ne_of_gt hlimit), List.head?_filter, stored?]

/-- Among documents with distinct ids one at most is stored under an id. -/
theorem stored?_of_mem {s : Store} {name : String} {document : Json} {id : DocumentId}
    (hdistinct : (idsOf (s.documents name)).Nodup) (hmem : document ∈ s.documents name)
    (hstored : isStoredUnder id document = true) : s.stored? name id = some document := by
  obtain ⟨found, hfound⟩ :=
    Option.isSome_iff_exists.mp (List.find?_isSome.mpr ⟨document, hmem, hstored⟩)
  have hsame := eq_of_idOf? hdistinct (List.mem_of_find?_eq_some hfound) hmem
    (idOf?_of_isStoredUnder (List.find?_some hfound)) (idOf?_of_isStoredUnder hstored)
  rw [stored?, hfound, hsame]

end Store

end LiveDocuments
