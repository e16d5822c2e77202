import LiveDocuments.Proofs.Binding.Instances
import LiveDocuments.Proofs.Model.Lookups
import LiveDocuments.Proofs.Store.Finding

/-!
# Reading without lookups

A path without a lookup is read in one leg: the first document for its components, and in it
the value at its property (`Model.getProperty_of_resolve`). That document is what a query for
the components finds first, so whoever made the same query has it already
(`Model.exists_readDocument_of_first`).
-/

namespace LiveDocuments

namespace Store

theorem exists_object_of_find {s : Store} {name : String} {query : Query}
    {documents : List Json} {document : Json} (h : s.find name query = .ok documents)
    (hmem : document ∈ documents) : ∃ fields, document = .object fields := by
  unfold find at h
  split at h
  · cases h
  · obtain rfl := Except.ok.inj h
    obtain ⟨entry, hentry, rfl⟩ := List.mem_map.mp hmem
    exact exists_object_of_idOf? (Results.mem_of hentry).2.2

/-- The first document that components name: the one with their id, or the first one of the
collection. -/
def firstAt (s : Store) (c : Components) : Option Json :=
  match c.documentId with
  | some id => s.stored? c.collection id
  | none => (s.documents c.collection).head?

theorem mem_of_firstAt {s : Store} {c : Components} {document : Json}
    (h : s.firstAt c = some document) : document ∈ s.documents c.collection := by
  unfold firstAt at h
  split at h
  · exact List.mem_of_find?_eq_some h
  · exact List.mem_of_head? h

/-- The query that components compile to finds first what they name first. -/
theorem find_compileQuery {s : Store} {c : Components} (hkeyed : Keyed (s.documents c.collection))
    {limit : Nat} (hlimit : 0 < limit) :
    (s.find c.collection (compileQuery c [] [] limit).value).map List.head? =
      .ok (s.firstAt c) := by
  unfold firstAt
  split
  · next id hid =>
      rw [Model.query_of_id hid, find_queryById, Except.map,
        head?_filter_isStoredUnder _ _ _ hlimit]
  · next hid =>
      have hquery : (compileQuery c [] [] limit).value = ⟨.object [], limit, none⟩ := by
        simp only [compileQuery, selectorFor, hid]
        rfl
      have hall : (s.documents c.collection).filter (Selector.all []).accepts =
          s.documents c.collection := List.filter_eq_self.mpr fun _ _ => rfl
      have hcompile : Selector.compile (Json.object []) = .ok (.all []) := rfl
      rw [hquery, find_eq_ok hkeyed hcompile, Except.map, hall]
      exact congrArg Except.ok ((congrArg (fun found => (found.take limit).head?)
        (mergeSort_empty _ id)).trans ((List.head?_take).trans (if_neg (Nat.ne_of_gt hlimit))))

end Store

namespace Model

variable {m n : Model} {c : Components}

/-! ## Documents -/

theorem fst_first_of_onlyAsks (h : m.OnlyAsks n) (cursor : Cursor) :
    (n.first cursor).1 = (m.first cursor).1 := by
  rcases h with ⟨_, _, _, rfl⟩
  rfl

theorem hasCollection_of_first {cursor : Cursor} {document : Json}
    (h : (m.first cursor).1 = .ok (some document)) :
    m.store.hasCollection cursor.collection = true := by
  obtain ⟨⟨documents, hfind, hmem⟩, -⟩ := find_of_first (Prod.ext_iff.mpr ⟨h, rfl⟩)
  exact Store.hasCollection_of_mem (Store.mem_of_find hfind hmem)

theorem readDocument_of_whole (hid : c.documentId = none) :
    m.readDocument c = (.ok none, m) := by
  rw [readDocument, hid]
  rfl

theorem exists_readDocument_of_first (halive : m.destroyed = false)
    (hid : c.documentId.isSome) (hcollection : m.store.hasCollection c.collection = true) :
    ∃ n, m.readDocument c =
      ((m.first ⟨c.collection, (compileQuery c [] [] m.config.sizeLimit).value⟩).1.mapError
        .store, n) := by
  have hnamed : c.documentId.isNone = false := Option.isNone_eq_false_iff.mpr hid
  have hquery := query_of_known halive hcollection [] [] none
  have hfirst := fst_first_of_onlyAsks (.of_onlyRaises (.reportAll m
    (compileQuery c [] [] m.config.sizeLimit).diagnostics none))
    ⟨c.collection, (compileQuery c [] [] m.config.sizeLimit).value⟩
  simp only [readDocument, hnamed, Bool.false_eq_true, if_false, hquery, ← hfirst]
  split
  · next heq =>
      rw [heq]
      exact ⟨_, rfl⟩
  · next heq =>
      rw [heq]
      exact ⟨_, rfl⟩

theorem exists_readDocument_of_unknown (halive : m.destroyed = false)
    (hid : c.documentId.isSome) (hcollection : m.store.hasCollection c.collection = false) :
    ∃ n, m.readDocument c = (.error (.unknownCollection c.collection), n) := by
  have hnamed : c.documentId.isNone = false := Option.isNone_eq_false_iff.mpr hid
  simp only [readDocument, hnamed, Bool.false_eq_true, if_false,
    query_of_unknown halive hcollection]
  exact ⟨_, rfl⟩

/-! ## Values -/

/-- What a path without a lookup is read as. -/
theorem getProperty_of_resolve {path resolved : String} {context : Option Context}
    (hmark : path.toList.head? ≠ some '?') (hresolve : m.resolve path context = some resolved)
    (hc : Components.ofPath resolved = .ok c) (hlookup : c.hasLookup = false) :
    (m.getProperty path context).1 =
      (m.readDocument c).1.map fun found => found.bind fun document =>
        valueAt document c.property := by
  have hstep : m.readStep path context = (.finished ((m.readDocument c).1.map fun found =>
      found.bind fun document => valueAt document c.property), (m.readDocument c).2) := by
    simp only [readStep, if_neg hmark, hresolve, hc]
    rcases m.readDocument c with ⟨e | _ | document, n⟩
    · rfl
    · rfl
    · show n.readProperty document c = _
      unfold readProperty
      split
      · next hempty => rw [hempty, Except.map, Option.bind_some, valueAt_empty]
      · rw [if_neg (Bool.eq_false_iff.mp hlookup), Except.map, Option.bind_some]
  rw [getProperty, read?, hstep]

/-- The items of the array that is read at a path; none if no array is read. -/
def itemsAt (m : Model) (path : String) (context : Option Context) : List Json :=
  ElementList.itemsOf (m.getProperty path context).1.toOption.join

end Model

end LiveDocuments
