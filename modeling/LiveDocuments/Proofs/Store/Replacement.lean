import LiveDocuments.Proofs.Selector.ById
import LiveDocuments.Proofs.Store.Feed

/-!
# What an insertion replaces

An insertion replaces the document with the same id. Ids are read from stored values, and
two values that differ may denote one id: a number denotes the plain id of its text, and an
object with `$oid` may have other fields. So a document can be replaced by one whose stored
id is another value. That does not happen exactly if whatever denotes the id of the new
document is also the same value (`Store.inserted_keeps_iff`).
-/

namespace LiveDocuments

/-- The documents store the same value as their ids. -/
def StoreSameId (a b : Json) : Prop :=
  ∃ v w, a.get? idKey = some v ∧ b.get? idKey = some w ∧ v.same w = true

theorem StoreSameId.refl {document : Json} {id : DocumentId} (h : idOf? document = some id) :
    StoreSameId document document := by
  obtain ⟨value, hvalue, -⟩ := Option.bind_eq_some_iff.mp h
  exact ⟨value, value, hvalue, hvalue, value.same_refl⟩

theorem StoreSameId.of_isStoredUnder {a b : Json} {id : DocumentId}
    (ha : isStoredUnder id a = true) (hb : isStoredUnder id b = true) : StoreSameId a b := by
  obtain ⟨v, hv, hvid⟩ := isStoredUnder_iff.mp ha
  obtain ⟨w, hw, hwid⟩ := isStoredUnder_iff.mp hb
  exact ⟨v, w, hv, hw, Json.same_trans hvid (Json.same_comm w id.toJson ▸ hwid)⟩

namespace Store

/-- Where ids are distinct, an insertion takes out what has the new id and nothing else. -/
theorem mem_upsert_iff {id : DocumentId} {document : Json} {documents : List Json}
    (h : (idsOf documents).Nodup) (other : Json) :
    other ∈ upsert id document documents ↔
      other = document ∨ other ∈ documents ∧ idOf? other ≠ some id := by
  induction documents with
  | nil => simp [upsert]
  | cons first rest ih =>
      have hrest : (idsOf rest).Nodup :=
        h.sublist ((List.sublist_cons_self first rest).filterMap idOf?)
      unfold upsert
      split
      · next hfirst =>
          have hothers : ∀ d ∈ rest, idOf? d ≠ some id := by
            rw [idsOf_cons, hfirst] at h
            intro d hd hid
            exact (List.nodup_cons.mp h).1 ((mem_idsOf rest id).mpr ⟨d, hd, hid⟩)
          rw [List.mem_cons, List.mem_cons]
          refine or_congr_right ⟨fun hmem => ⟨.inr hmem, hothers other hmem⟩, ?_⟩
          rintro ⟨rfl | hmem, hne⟩
          · exact absurd hfirst hne
          · exact hmem
      · next hfirst =>
          rw [List.mem_cons, List.mem_cons, ih hrest]
          constructor
          · rintro (rfl | rfl | ⟨hmem, hne⟩)
            · exact .inr ⟨.inl rfl, hfirst⟩
            · exact .inl rfl
            · exact .inr ⟨.inr hmem, hne⟩
          · rintro (rfl | ⟨rfl | hmem, hne⟩)
            · exact .inr (.inl rfl)
            · exact .inl rfl
            · exact .inr (.inr ⟨hmem, hne⟩)

theorem insert_eq_ok {s next : Store} {name : String} {document : Json} {id : DocumentId}
    (h : s.insert name document = .ok (id, next)) :
    idOf? document = some id ∧ next = s.write name (upsert id document (s.documents name)) := by
  unfold insert at h
  split at h
  · cases h
  · next hid =>
      cases h
      exact ⟨hid, rfl⟩

/-- After an insertion the collection holds the new document and those it held that have another
id. It has kept every document whose stored id is another value exactly if no other value stood
there for the id of the new document. In particular it has if all ids are stored in the form in
which ids are written back. -/
theorem inserted_keeps_iff (s next : Store) (hs : s.Reachable) (name : String) (document : Json)
    (id : DocumentId) (h : s.insert name document = .ok (id, next)) :
    (∀ other, other ∈ next.documents name ↔
      other = document ∨ other ∈ s.documents name ∧ idOf? other ≠ some id) ∧
    ((∀ other ∈ s.documents name, ¬ StoreSameId other document → other ∈ next.documents name) ↔
      ∀ other ∈ s.documents name, idOf? other = some id → StoreSameId other document) ∧
    ((∀ other ∈ document :: s.documents name, ∃ own, isStoredUnder own other = true) →
      ∀ other ∈ s.documents name, ¬ StoreSameId other document → other ∈ next.documents name) := by
  obtain ⟨hid, rfl⟩ := insert_eq_ok h
  have hmem : ∀ other, other ∈ (s.write name (upsert id document (s.documents name))).documents
      name ↔ other = document ∨ other ∈ s.documents name ∧ idOf? other ≠ some id := by
    intro other
    rw [documents_write, if_pos rfl, mem_upsert_iff (hs.consistent.distinct name)]
  have hkeeps : (∀ other ∈ s.documents name, ¬ StoreSameId other document →
      other ∈ (s.write name (upsert id document (s.documents name))).documents name) ↔
      ∀ other ∈ s.documents name, idOf? other = some id → StoreSameId other document := by
    constructor
    · intro hall other hother hown
      by_contra hdiffer
      rcases (hmem other).mp (hall other hother hdiffer) with rfl | ⟨-, hne⟩
      · exact hdiffer (.refl hid)
      · exact hne hown
    · intro hall other hother hdiffer
      exact (hmem other).mpr (.inr ⟨hother, fun hown => hdiffer (hall other hother hown)⟩)
  refine ⟨hmem, hkeeps, fun hstored => hkeeps.mpr fun other hother hown => ?_⟩
  obtain ⟨_, hdocument⟩ := hstored document List.mem_cons_self
  obtain ⟨_, hown'⟩ := hstored other (List.mem_cons_of_mem document hother)
  obtain rfl := Option.some.inj (hid.symm.trans (idOf?_of_isStoredUnder hdocument))
  obtain rfl := Option.some.inj (hown.symm.trans (idOf?_of_isStoredUnder hown'))
  exact .of_isStoredUnder hown' hdocument

/-- A document with a new id leaves the one there. -/
theorem inserted_keeps_bare :
    ∃ id next, (empty.run stocking).insert "A" (bare "b") = .ok (id, next) ∧
      ∀ other ∈ (empty.run stocking).documents "A", ¬ StoreSameId other (bare "b") →
        other ∈ next.documents "A" := by
  refine ⟨.plain "b", _, rfl, ?_⟩
  refine (inserted_keeps_iff (empty.run stocking) _ ⟨stocking, rfl⟩ "A" (bare "b") (.plain "b")
    rfl).2.2 ?_
  intro other hother
  have hdocuments : (empty.run stocking).documents "A" = [bare "a"] := by decide +kernel
  rw [hdocuments] at hother
  rcases List.mem_cons.mp hother with rfl | hother
  · exact ⟨.plain "b", by decide⟩
  · obtain rfl := List.mem_singleton.mp hother
    exact ⟨.plain "a", by decide⟩

/-- A number is replaced by its text. -/
theorem number_replaced_by_text :
    ∃ s id next, s = empty.run [.insert "C" (Json.single idKey (.ofInt 1))] ∧
      s.insert "C" (bare "1") = .ok (id, next) ∧
      Json.single idKey (.ofInt 1) ∈ s.documents "C" ∧
      ¬ StoreSameId (Json.single idKey (.ofInt 1)) (bare "1") ∧
      next.documents "C" = [bare "1"] := by
  refine ⟨_, .plain "1", _, rfl, rfl, by decide +kernel, ?_, by decide +kernel⟩
  rintro ⟨v, w, hv, hw, hsame⟩
  cases hv
  cases hw
  exact absurd hsame (by decide)

end Store

end LiveDocuments
