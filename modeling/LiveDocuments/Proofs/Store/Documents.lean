import LiveDocuments.Store.Basic
import Mathlib.Data.List.Nodup
import Mathlib.Data.List.Perm.Basic

/-!
# The ids of the documents of a collection

`idsOf documents` lists the ids of documents in their order. The three writes act on
that list in a simple way: putting a document in adds its id at the end unless it is
there, altering a document changes nothing, and taking one out takes out its id. So
ids that are distinct stay distinct. A query cannot repeat a document either, which
makes the ids of its results distinct as well.
-/

namespace LiveDocuments

/-- The ids of documents, in their order. -/
def idsOf (documents : List Json) : List DocumentId := documents.filterMap idOf?

@[simp] theorem idsOf_nil : idsOf [] = [] := rfl

theorem idsOf_cons (document : Json) (rest : List Json) :
    idsOf (document :: rest) = (idOf? document).toList ++ idsOf rest := by
  cases h : idOf? document <;> simp [idsOf, h]

theorem mem_idsOf (documents : List Json) (id : DocumentId) :
    id ∈ idsOf documents ↔ ∃ document ∈ documents, idOf? document = some id := by
  simp [idsOf]

namespace Store

/-! ## Writes -/

theorem lookup_foldl_insert (key : String) (fields target : List (String × Json))
    (hkey : ∀ field ∈ fields, field.1 ≠ key) :
    Json.lookup key
        (fields.foldl (fun target field => Json.insert field.1 field.2 target) target) =
      Json.lookup key target := by
  induction fields generalizing target with
  | nil => rfl
  | cons field rest ih =>
      rw [List.foldl_cons, ih _ fun other h => hkey other (List.mem_cons_of_mem _ h),
        Json.lookup_insert_of_ne _ _ _ _ (hkey field List.mem_cons_self)]

@[simp] theorem idOf?_merge (document fields : Json) :
    idOf? (merge document fields) = idOf? document := by
  unfold merge
  split
  · rename_i target fields
    have hkey : ∀ field ∈ fields.filter (fun field => field.1 ≠ idKey),
        field.1 ≠ idKey := fun field h => by simpa using (List.mem_filter.mp h).2
    simp only [idOf?, Json.get?, lookup_foldl_insert idKey _ target hkey]
  · rfl

theorem idsOf_upsert (id : DocumentId) (document : Json) (documents : List Json)
    (hid : idOf? document = some id) :
    idsOf (upsert id document documents) =
      if id ∈ idsOf documents then idsOf documents else idsOf documents ++ [id] := by
  induction documents with
  | nil => simp [upsert, idsOf_cons, hid]
  | cons first rest ih =>
      by_cases h : idOf? first = some id
      · simp [upsert, h, idsOf_cons, hid]
      · have hne : id ∉ (idOf? first).toList := by simpa [eq_comm] using h
        rw [upsert, if_neg h, idsOf_cons, ih, idsOf_cons]
        by_cases hrest : id ∈ idsOf rest <;> simp [hrest, hne]

theorem idsOf_alter (id : DocumentId) (f : Json → Json) (documents : List Json)
    (hf : ∀ document, idOf? (f document) = idOf? document) :
    idsOf (alter id f documents) = idsOf documents := by
  induction documents with
  | nil => rfl
  | cons first rest ih =>
      by_cases h : idOf? first = some id
      · rw [alter, if_pos h, idsOf_cons, hf, idsOf_cons]
      · rw [alter, if_neg h, idsOf_cons, ih, idsOf_cons]

theorem idsOf_without (id : DocumentId) (documents : List Json) :
    idsOf (without id documents) = (idsOf documents).erase id := by
  induction documents with
  | nil => rfl
  | cons first rest ih =>
      by_cases h : idOf? first = some id
      · simp [without, h, idsOf_cons]
      · have hne : id ∉ (idOf? first).toList := by simpa [eq_comm] using h
        rw [without, if_neg h, idsOf_cons, ih, idsOf_cons, List.erase_append_right _ hne]

theorem nodup_upsert {id : DocumentId} {document : Json} {documents : List Json}
    (hid : idOf? document = some id) (h : (idsOf documents).Nodup) :
    (idsOf (upsert id document documents)).Nodup := by
  rw [idsOf_upsert id document documents hid]
  split
  · exact h
  · next hnew =>
      refine List.nodup_append.mpr ⟨h, List.nodup_singleton id, ?_⟩
      intro a ha b hb
      obtain rfl := List.mem_singleton.mp hb
      exact fun hab => hnew (hab ▸ ha)

theorem nodup_alter {id : DocumentId} {f : Json → Json} {documents : List Json}
    (hf : ∀ document, idOf? (f document) = idOf? document) (h : (idsOf documents).Nodup) :
    (idsOf (alter id f documents)).Nodup := by
  rw [idsOf_alter id f documents hf]
  exact h

theorem nodup_without {id : DocumentId} {documents : List Json}
    (h : (idsOf documents).Nodup) : (idsOf (without id documents)).Nodup := by
  rw [idsOf_without]
  exact h.erase id

end Store

/-! ## Results -/

namespace Results

theorem sorted_perm (results : Results) (sort : Option SortOrder) :
    (sorted results sort).Perm results := by
  cases sort with
  | none => exact .refl _
  | some order => exact List.mergeSort_perm _ _

/-- A result is a document of the collection that the selector accepts, with its id. -/
theorem mem_of {documents : List Json} {selector : Selector} {sort : Option SortOrder}
    {limit : Nat} {entry : DocumentId × Json}
    (h : entry ∈ Results.of documents selector sort limit) :
    entry.2 ∈ documents ∧ selector.accepts entry.2 = true ∧ idOf? entry.2 = some entry.1 := by
  have hsorted := (sorted_perm _ _).mem_iff.mp (List.mem_of_mem_take h)
  rcases List.mem_filterMap.mp hsorted with ⟨document, hdocument, hentry⟩
  rcases List.mem_filter.mp hdocument with ⟨hmem, haccepts⟩
  rcases Option.map_eq_some_iff.mp hentry with ⟨id, hid, rfl⟩
  exact ⟨hmem, haccepts, hid⟩

theorem length_of_le (documents : List Json) (selector : Selector) (sort : Option SortOrder)
    (limit : Nat) : (Results.of documents selector sort limit).length ≤ limit :=
  List.length_take_le _ _

theorem ids_filterMap_withId? (documents : List Json) :
    ids (documents.filterMap withId?) = idsOf documents := by
  rw [ids, List.map_filterMap]
  apply List.filterMap_congr
  intro document _
  cases h : idOf? document <;> simp [withId?, h]

theorem nodup_ids_of {documents : List Json} (selector : Selector)
    (sort : Option SortOrder) (limit : Nat) (h : (idsOf documents).Nodup) :
    (ids (Results.of documents selector sort limit)).Nodup := by
  have hfound : (ids ((documents.filter selector.accepts).filterMap withId?)).Nodup := by
    rw [ids_filterMap_withId?]
    exact h.sublist (List.filter_sublist.filterMap idOf?)
  have hsorted := ((sorted_perm _ sort).map Prod.fst).nodup_iff.mpr hfound
  exact hsorted.sublist ((List.take_sublist _ _).map Prod.fst)

end Results

theorem eq_of_idOf? {documents : List Json} (h : (idsOf documents).Nodup) {a b : Json}
    {id : DocumentId} (ha : a ∈ documents) (hb : b ∈ documents) (hida : idOf? a = some id)
    (hidb : idOf? b = some id) : a = b := by
  induction documents with
  | nil => exact absurd ha List.not_mem_nil
  | cons d rest ih =>
      have hother : ∀ x ∈ rest, idOf? x = some id → idOf? d ≠ some id := by
        intro x hx hidx hidd
        rw [idsOf_cons, hidd] at h
        exact (List.nodup_cons.mp h).1 ((mem_idsOf rest id).mpr ⟨x, hx, hidx⟩)
      have hrest : (idsOf rest).Nodup :=
        h.sublist ((List.sublist_cons_self d rest).filterMap idOf?)
      rcases List.mem_cons.mp ha with rfl | hamem <;>
        rcases List.mem_cons.mp hb with rfl | hbmem
      · rfl
      · exact absurd hida (hother b hbmem hidb)
      · exact absurd hidb (hother a hamem hida)
      · exact ih hrest hamem hbmem

theorem Store.mem_of_find {s : Store} {name : String} {query : Query} {documents : List Json}
    {document : Json} (h : s.find name query = .ok documents) (hmem : document ∈ documents) :
    document ∈ s.documents name := by
  unfold find at h
  split at h
  · cases h
  · obtain rfl := Except.ok.inj h
    rcases List.mem_map.mp hmem with ⟨entry, hentry, rfl⟩
    exact (Results.mem_of hentry).1

theorem Store.hasCollection_of_mem {s : Store} {name : String} {document : Json}
    (h : document ∈ s.documents name) : s.hasCollection name = true := by
  unfold documents at h
  unfold hasCollection
  cases hlookup : lookup name s.collections with
  | none =>
      rw [hlookup] at h
      exact absurd h List.not_mem_nil
  | some _ => rfl

end LiveDocuments
