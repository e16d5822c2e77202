import LiveDocuments.Proofs.Model.Reading
import LiveDocuments.Proofs.Selector.ById

/-!
# Reading a document by its own path

The id of a document goes from the stored value to the path, from the path back to an id,
and from that to a selector. Reading by an id gives what the store has under it
(`readDocument_fetch`). So a document is read by its own path if the id comes through
unharmed: the stored value is the stored form of the id, and the path is read back to it.
-/

namespace LiveDocuments

/-- The document of a collection that is stored under an id; an error if there is no such
collection. -/
def Store.fetch (s : Store) (name : String) (id : DocumentId) :
    Except BindingError (Option Json) :=
  if s.hasCollection name then .ok (s.stored? name id) else .error (.unknownCollection name)

theorem Store.stored?_of_fetch {s : Store} {name : String} {id : DocumentId}
    {found : Option Json} (h : s.fetch name id = .ok found) : s.stored? name id = found := by
  unfold fetch at h
  split at h
  · exact Except.ok.inj h
  · cases h

namespace Model

theorem query_of_id {c : Components} {id : DocumentId} (h : c.documentId = some id)
    (limit : Nat) : (compileQuery c [] [] limit).value = Store.queryById id limit := by
  simp only [compileQuery, selectorFor, h]
  rfl

/-- The model is in use over a store that answers every query. -/
structure Sound (m : Model) : Prop where
  consistent : m.store.Consistent
  alive : m.destroyed = false
  answers : m.backend.findRefusal = none
  room : 0 < m.config.sizeLimit

namespace Sound

variable {m n : Model}

theorem of_keeps (h : m.Sound) (hn : m.Keeps n) : n.Sound where
  consistent := hn.consistent h.consistent
  alive := hn.destroyed.trans h.alive
  answers := hn.findRefusal.trans h.answers
  room := hn.config.symm ▸ h.room

theorem step (h : m.Sound) (operation : StoreOperation) :
    (m.withStore (m.store.step operation)).Sound :=
  ⟨h.consistent.step operation, h.alive, h.answers, h.room⟩

theorem reads (h : m.Sound) {collection : String} {document : Json}
    (hmem : document ∈ m.store.documents collection) : m.Reads collection where
  exists_collection := Store.hasCollection_of_mem hmem
  alive := h.alive
  willing := h.answers

end Sound

theorem Sound.contextFor {m : Model} (h : m.Sound) (path : String) :
    (m.contextFor path).2.Sound :=
  ⟨h.consistent, h.alive, h.answers, h.room⟩

theorem Sound.new {s : Store} (h : s.Consistent) (config : Config) :
    (Model.new (.ofStore s) config).Sound :=
  ⟨h, rfl, rfl, Config.sizeLimit_normalized_pos config⟩

/-- A document is read as the store has it, or its collection is unknown. -/
theorem readDocument_fetch {m : Model} (hm : m.Sound) {c : Components} {id : DocumentId}
    (hid : c.documentId = some id) :
    ∃ n, m.readDocument c = (m.store.fetch c.collection id, n) ∧ n.Sound ∧
      n.store = m.store := by
  cases hcollection : m.store.hasCollection c.collection with
  | false =>
      have hcursor := query_of_unknown hm.alive hcollection [] [] none
      refine ⟨m.report (.unknownCollection c.collection) none, ?_,
        hm.of_keeps (.of_onlyRaises (.report m _ none)), rfl⟩
      simp only [readDocument, hid, hcursor, Store.fetch, hcollection]
      rfl
  | true =>
      have hfind := m.store.find_queryById c.collection id m.config.sizeLimit
      rw [← query_of_id hid] at hfind
      obtain ⟨n, hread, hreads, hstore, hconfig⟩ := readDocument_eq
        ⟨hcollection, hm.alive, hm.answers⟩ (Option.isSome_of_eq_some hid) hfind
      rw [Store.head?_filter_isStoredUnder _ _ _ hm.room] at hread
      refine ⟨n, ?_, ⟨hstore ▸ hm.consistent, hreads.alive, hreads.willing,
        hconfig ▸ hm.room⟩, hstore⟩
      rw [hread, Store.fetch, if_pos hcollection]

/-- The empty path under the context of a document is the path of the document. -/
theorem resolve_pathOf (m : Model) {context : Context} {collection : String} {id : DocumentId}
    (hpath : context.path = Components.pathOf collection id) :
    m.resolve "" (some context) = some (Components.pathOf collection id) := by
  have hkept : Path.trimTrailingSlashes (Components.pathOf collection id).toList =
      (Components.pathOf collection id).toList := by
    have hlast : (collection.toList ++ '(' :: (id.chars ++ [')'])).getLast? = some ')' := by
      rw [← List.cons_append, ← List.append_assoc, List.getLast?_concat]
    rw [Components.toList_pathOf, Path.trimTrailingSlashes_cons,
      Path.dropTrailingSlashes_eq_self (by rw [hlast]; decide)]
  have hlocate : Path.locate m.config.legacySyntax "".toList
      ((some context.path).map String.toList) = some context.path.toList :=
    if_pos (by decide)
  rw [resolve, Option.map_some, Path.resolve, hlocate, Option.map_some, hpath, hkept,
    String.ofList_toList]

theorem getProperty_own {m : Model} {collection : String} {document value : Json}
    {id : DocumentId} {context : Context} (hreads : m.Reads collection)
    (hdistinct : (idsOf (m.store.documents collection)).Nodup) (hlimit : 0 < m.config.sizeLimit)
    (hslash : '/' ∉ collection.toList) (hparen : '(' ∉ collection.toList)
    (hmem : document ∈ m.store.documents collection) (hvalue : document.get? idKey = some value)
    (hsame : value.same id.toJson = true) (hid : id.IsInline)
    (hpath : context.path = Components.pathOf collection id) :
    (m.getProperty "" (some context)).1 = .ok (some document) := by
  have hc := Components.ofPath_pathOf_of_isInline hslash hparen hid
  obtain ⟨n, hread, -⟩ := readDocument_eq (c := ⟨collection, some id, ""⟩) hreads rfl
    (m.store.find_queryById collection id m.config.sizeLimit)
  rw [Store.head?_filter_isStoredUnder _ _ _ hlimit, Store.stored?_of_mem hdistinct hmem
    (isStoredUnder_iff.mpr ⟨value, hvalue, hsame⟩)] at hread
  have hstep : m.readStep "" (some context) = (.finished (.ok (some document)), n) := by
    rw [readStep_of_resolve (by decide) (m.resolve_pathOf hpath) hc hread]
    rfl
  rw [getProperty, read?, hstep]

theorem getProperty_of_fault {m : Model} {collection : String} {id : DocumentId}
    {context : Context} {fault : BindingError}
    (hpath : context.path = Components.pathOf collection id)
    (hfault : Components.ofPath (Components.pathOf collection id) = .error fault) :
    (m.getProperty "" (some context)).1 = .error fault := by
  have hstep : m.readStep "" (some context) = (.finished (.error fault), m) := by
    simp only [readStep, if_neg (by decide : ¬ "".toList.head? = some '?'),
      m.resolve_pathOf hpath, hfault]
  rw [getProperty, read?, hstep]

/-- What is read by the path of a document is read from a document whose id is stored in
the form that the path is read back to. -/
theorem stored_of_getProperty {m : Model} {collection : String} {id : DocumentId}
    {context : Context} {found : Json}
    (hpath : context.path = Components.pathOf collection id)
    (h : (m.getProperty "" (some context)).1 = .ok (some found)) :
    ∃ c key document value, Components.ofPath (Components.pathOf collection id) = .ok c ∧
      c.documentId = some key ∧ document ∈ m.store.documents c.collection ∧
      document.get? idKey = some value ∧ value.same key.toJson = true := by
  have hread : ∃ c document n, Components.ofPath (Components.pathOf collection id) = .ok c ∧
      m.readDocument c = (.ok (some document), n) := by
    by_contra hnone
    have hstep : ∃ result n, m.readStep "" (some context) = (.finished result, n) ∧
        result ≠ .ok (some found) := by
      simp only [readStep, if_neg (by decide : ¬ "".toList.head? = some '?'),
        m.resolve_pathOf hpath]
      cases hc : Components.ofPath (Components.pathOf collection id) with
      | error e => exact ⟨_, m, rfl, by simp⟩
      | ok c =>
          cases hdocument : m.readDocument c with
          | mk result n =>
              simp only [hdocument]
              rcases result with e | _ | document
              · exact ⟨_, n, rfl, by simp⟩
              · exact ⟨_, n, rfl, by simp⟩
              · exact absurd ⟨c, document, n, hc, hdocument⟩ hnone
    rcases hstep with ⟨result, n, hfinished, hother⟩
    rw [getProperty, read?, hfinished] at h
    exact hother h
  rcases hread with ⟨c, document, n, hc, hdocument⟩
  obtain ⟨⟨key, hkey⟩, ⟨documents, hfind, hmem⟩, -⟩ := find_of_readDocument hdocument
  rw [query_of_id hkey, Store.find_queryById] at hfind
  rw [← Except.ok.inj hfind] at hmem
  rcases List.mem_filter.mp (List.mem_of_mem_take hmem) with ⟨hfound, hstored⟩
  obtain ⟨value, hvalue, hsame⟩ := isStoredUnder_iff.mp hstored
  exact ⟨c, key, document, value, hc, hkey, hfound, hvalue, hsame⟩

end Model

end LiveDocuments
