import LiveDocuments.Proofs.Store.Run
import Mathlib.Logic.Function.Basic

/-!
# Collections as maps

A collection is used as a map from ids to documents that remembers in which order the ids
came in. `Shelf` is that map, said without lists of documents: the ids in order, and a
function from ids to documents. The four writes are a few lines on it (`Shelves.write`),
and whatever is written, the store answers as the maps do and holds what they hold
(`Store.collections_are_maps`).
-/

namespace LiveDocuments

/-- A map of documents that remembers the order in which ids came in. -/
structure Shelf where
  order : List DocumentId
  document? : DocumentId → Option Json

namespace Shelf

/-- The map without documents. -/
def empty : Shelf := ⟨[], fun _ => none⟩

/-- A document put under its id: in the place of the one there, or at the end. -/
def put (shelf : Shelf) (id : DocumentId) (document : Json) : Shelf where
  order := if id ∈ shelf.order then shelf.order else shelf.order ++ [id]
  document? := Function.update shelf.document? id (some document)

/-- The document of an id altered in its place. -/
def amend (shelf : Shelf) (id : DocumentId) (f : Json → Json) : Shelf where
  order := shelf.order
  document? := Function.update shelf.document? id ((shelf.document? id).map f)

/-- The document of an id taken out. -/
def remove (shelf : Shelf) (id : DocumentId) : Shelf where
  order := shelf.order.erase id
  document? := Function.update shelf.document? id none

/-- The documents in the order of their ids. -/
def documents (shelf : Shelf) : List Json := shelf.order.filterMap shelf.document?

/-- A collection as a map. -/
def ofDocuments (documents : List Json) : Shelf where
  order := idsOf documents
  document? := fun id => documents.find? fun document => idOf? document = some id

end Shelf

/-- A change to the documents of a store. -/
inductive Write where
  | create (name : String)
  | insert (name : String) (document : Json)
  | update (name : String) (id : DocumentId) (fields : Json)
  | remove (name : String) (id : DocumentId)

/-- What a write is answered. -/
inductive WriteAnswer where
  | done
  | inserted (id : DocumentId)
  | refused (error : StoreError)
  | found (present : Bool)

namespace Write

/-- The write as an operation on a store. -/
def operation : Write → StoreOperation
  | create name => .create name
  | insert name document => .insert name document
  | update name id fields => .update name id fields
  | remove name id => .remove name id

/-- The collection that is written to. -/
def collection : Write → String
  | create name => name
  | insert name _ => name
  | update name _ _ => name
  | remove name _ => name

end Write

/-- Named maps of documents. -/
abbrev Shelves := String → Option Shelf

namespace Shelves

/-- No maps at all. -/
def empty : Shelves := fun _ => none

/-- The maps with one of them replaced or added. -/
def set (shelves : Shelves) (name : String) (shelf : Shelf) : Shelves :=
  Function.update shelves name (some shelf)

/-- The documents of a name altered or removed by id, if there is one with that id. -/
def onPresent (shelves : Shelves) (name : String) (id : DocumentId) (f : Shelf → Shelf) :
    WriteAnswer × Shelves :=
  match shelves name with
  | none => (.found false, shelves)
  | some shelf =>
      if id ∈ shelf.order then (.found true, shelves.set name (f shelf))
      else (.found false, shelves)

/-- A write and its answer. -/
def write (shelves : Shelves) : Write → WriteAnswer × Shelves
  | .create name => (.done, shelves.set name ((shelves name).getD .empty))
  | .insert name document =>
      match idOf? document with
      | none => (.refused (.missingId name), shelves)
      | some id =>
          (.inserted id, shelves.set name (((shelves name).getD .empty).put id document))
  | .update name id fields =>
      shelves.onPresent name id fun shelf => shelf.amend id fun d => Store.merge d fields
  | .remove name id => shelves.onPresent name id fun shelf => shelf.remove id

/-- Several writes and their answers. -/
def writeAll (shelves : Shelves) : List Write → List WriteAnswer × Shelves
  | [] => ([], shelves)
  | first :: rest =>
      let (answer, shelves) := shelves.write first
      let (answers, shelves) := shelves.writeAll rest
      (answer :: answers, shelves)

end Shelves

namespace Store

/-- What a store answers to a write. -/
def answer (s : Store) : Write → WriteAnswer
  | .create _ => .done
  | .insert name document =>
      match s.insert name document with
      | .ok (id, _) => .inserted id
      | .error e => .refused e
  | .update name id fields => .found (s.update name id fields).1
  | .remove name id => .found (s.remove name id).1

/-- What a store answers to several writes. -/
def answers (s : Store) : List Write → List WriteAnswer
  | [] => []
  | first :: rest => s.answer first :: (s.step first.operation).answers rest

theorem write_operation_eq (s : Store) (write : Write) :
    (s.step write.operation).live.map LiveQuery.feed = s.live.map LiveQuery.feed ∧
      (s.step write.operation).nextFeed = s.nextFeed ∧
      (s.step write.operation).stopped = s.stopped := by
  have hwrite : ∀ name documents, (s.write name documents).live.map LiveQuery.feed =
      s.live.map LiveQuery.feed ∧ (s.write name documents).nextFeed = s.nextFeed ∧
        (s.write name documents).stopped = s.stopped :=
    fun name documents => ⟨s.map_feed_write name documents, rfl, rfl⟩
  cases write with
  | create name =>
      simp only [Write.operation, step, createCollection]
      split <;> exact ⟨rfl, rfl, rfl⟩
  | insert name document =>
      simp only [Write.operation, step, insert]
      cases idOf? document with
      | none => exact ⟨rfl, rfl, rfl⟩
      | some id => exact hwrite name _
  | update name id fields =>
      simp only [Write.operation, step, update]
      split
      · exact hwrite name _
      · exact ⟨rfl, rfl, rfl⟩
  | remove name id =>
      simp only [Write.operation, step, remove]
      split
      · exact hwrite name _
      · exact ⟨rfl, rfl, rfl⟩

end Store

/-! ## Collections in order -/

/-- Every document has a readable id, and no two have the same. -/
structure Keyed (documents : List Json) : Prop where
  readable : ∀ document ∈ documents, ∃ id, idOf? document = some id
  distinct : (idsOf documents).Nodup

theorem keyed_nil : Keyed [] := ⟨fun _ h => absurd h List.not_mem_nil, List.nodup_nil⟩

theorem exists_object_of_idOf? {document : Json} {id : DocumentId}
    (h : idOf? document = some id) : ∃ fields, document = .object fields := by
  cases document with
  | object fields => exact ⟨fields, rfl⟩
  | _ => cases h

namespace Store

theorem mem_upsert {id : DocumentId} {document other : Json} {documents : List Json}
    (h : other ∈ upsert id document documents) : other = document ∨ other ∈ documents := by
  induction documents with
  | nil => exact .inl (List.mem_singleton.mp h)
  | cons first rest ih =>
      unfold upsert at h
      split at h
      · exact (List.mem_cons.mp h).imp_right (List.mem_cons_of_mem first)
      · rcases List.mem_cons.mp h with rfl | hrest
        · exact .inr List.mem_cons_self
        · exact (ih hrest).imp_right (List.mem_cons_of_mem first)

theorem mem_alter {id : DocumentId} {f : Json → Json} {other : Json} {documents : List Json}
    (h : other ∈ alter id f documents) :
    ∃ document ∈ documents, other = document ∨ other = f document := by
  induction documents with
  | nil => exact absurd h List.not_mem_nil
  | cons first rest ih =>
      unfold alter at h
      split at h
      · rcases List.mem_cons.mp h with rfl | hrest
        · exact ⟨first, List.mem_cons_self, .inr rfl⟩
        · exact ⟨other, List.mem_cons_of_mem first hrest, .inl rfl⟩
      · rcases List.mem_cons.mp h with rfl | hrest
        · exact ⟨other, List.mem_cons_self, .inl rfl⟩
        · obtain ⟨document, hmem, hother⟩ := ih hrest
          exact ⟨document, List.mem_cons_of_mem first hmem, hother⟩

theorem without_sublist (id : DocumentId) (documents : List Json) :
    (without id documents).Sublist documents := by
  induction documents with
  | nil => exact .slnil
  | cons first rest ih =>
      unfold without
      split
      · exact List.sublist_cons_self first rest
      · exact ih.cons_cons first

end Store

namespace Keyed

variable {documents : List Json} {id : DocumentId}

theorem upsert (h : Keyed documents) {document : Json} (hid : idOf? document = some id) :
    Keyed (Store.upsert id document documents) where
  readable := by
    intro other hother
    rcases Store.mem_upsert hother with rfl | hmem
    · exact ⟨id, hid⟩
    · exact h.readable other hmem
  distinct := Store.nodup_upsert hid h.distinct

theorem alter (h : Keyed documents) {f : Json → Json}
    (hf : ∀ document, idOf? (f document) = idOf? document) :
    Keyed (Store.alter id f documents) where
  readable := by
    intro other hother
    obtain ⟨document, hmem, rfl | rfl⟩ := Store.mem_alter hother
    · exact h.readable other hmem
    · rw [hf]
      exact h.readable document hmem
  distinct := Store.nodup_alter hf h.distinct

theorem without (h : Keyed documents) : Keyed (Store.without id documents) where
  readable := fun other hother =>
    h.readable other ((Store.without_sublist id documents).subset hother)
  distinct := Store.nodup_without h.distinct

end Keyed

namespace Shelf

/-! ## The map of a collection -/

theorem ext {a b : Shelf} (horder : a.order = b.order)
    (hdocument : ∀ id, a.document? id = b.document? id) : a = b := by
  cases a
  cases b
  rw [Shelf.mk.injEq]
  exact ⟨horder, funext hdocument⟩

@[simp] theorem document?_nil (id : DocumentId) : (ofDocuments []).document? id = none := rfl

theorem document?_cons (first : Json) (rest : List Json) (id : DocumentId) :
    (ofDocuments (first :: rest)).document? id =
      if idOf? first = some id then some first else (ofDocuments rest).document? id := by
  by_cases h : idOf? first = some id <;> simp [ofDocuments, h]

theorem document?_upsert {id : DocumentId} {document : Json} (documents : List Json)
    (hid : idOf? document = some id) (other : DocumentId) :
    (ofDocuments (Store.upsert id document documents)).document? other =
      if other = id then some document else (ofDocuments documents).document? other := by
  induction documents with
  | nil => simp [Store.upsert, document?_cons, hid, eq_comm]
  | cons first rest ih =>
      unfold Store.upsert
      split
      · next hfirst =>
          rw [document?_cons, document?_cons, hid, hfirst]
          by_cases h : other = id
          · simp [h]
          · simp [h, Ne.symm h]
      · next hfirst =>
          rw [document?_cons, document?_cons, ih]
          by_cases h : other = id
          · subst h
            simp [hfirst]
          · simp [h]

theorem document?_alter {f : Json → Json} (hf : ∀ document, idOf? (f document) = idOf? document)
    (id : DocumentId) (documents : List Json) (other : DocumentId) :
    (ofDocuments (Store.alter id f documents)).document? other =
      if other = id then ((ofDocuments documents).document? id).map f
      else (ofDocuments documents).document? other := by
  induction documents with
  | nil => simp [Store.alter]
  | cons first rest ih =>
      unfold Store.alter
      split
      · next hfirst =>
          rw [document?_cons, document?_cons, document?_cons, hf, hfirst]
          by_cases h : other = id
          · simp [h]
          · simp [h, Ne.symm h]
      · next hfirst =>
          rw [document?_cons, document?_cons, document?_cons, ih]
          by_cases h : other = id
          · subst h
            simp [hfirst]
          · simp [h]

theorem document?_without {documents : List Json} (h : (idsOf documents).Nodup)
    (id other : DocumentId) :
    (ofDocuments (Store.without id documents)).document? other =
      if other = id then none else (ofDocuments documents).document? other := by
  induction documents with
  | nil => simp [Store.without]
  | cons first rest ih =>
      unfold Store.without
      split
      · next hfirst =>
          rw [document?_cons, hfirst]
          by_cases hother : other = id
          · subst hother
            rw [idsOf_cons, hfirst] at h
            have hnone := mt (mem_idsOf rest other).mpr (List.nodup_cons.mp h).1
            simpa [ofDocuments] using hnone
          · simp [hother, Ne.symm hother]
      · next hfirst =>
          have hrest := h.sublist ((List.sublist_cons_self first rest).filterMap idOf?)
          rw [document?_cons, document?_cons, ih hrest]
          by_cases hother : other = id
          · subst hother
            simp [hfirst]
          · simp [hother]

theorem ofDocuments_upsert {id : DocumentId} {document : Json} (documents : List Json)
    (hid : idOf? document = some id) :
    ofDocuments (Store.upsert id document documents) = (ofDocuments documents).put id document :=
  ext (Store.idsOf_upsert id document documents hid) fun other =>
    (document?_upsert documents hid other).trans (Function.update_apply ..).symm

theorem ofDocuments_alter {f : Json → Json} (hf : ∀ document, idOf? (f document) = idOf? document)
    (id : DocumentId) (documents : List Json) :
    ofDocuments (Store.alter id f documents) = (ofDocuments documents).amend id f :=
  ext (Store.idsOf_alter id f documents hf) fun other =>
    (document?_alter hf id documents other).trans (Function.update_apply ..).symm

theorem ofDocuments_without {documents : List Json} (h : (idsOf documents).Nodup)
    (id : DocumentId) :
    ofDocuments (Store.without id documents) = (ofDocuments documents).remove id :=
  ext (Store.idsOf_without id documents) fun other =>
    (document?_without h id other).trans (Function.update_apply ..).symm

/-- The map holds the collection: its documents in the order of their ids. -/
theorem documents_ofDocuments {documents : List Json} (h : Keyed documents) :
    (ofDocuments documents).documents = documents := by
  induction documents with
  | nil => rfl
  | cons first rest ih =>
      obtain ⟨id, hid⟩ := h.readable first List.mem_cons_self
      have hdistinct := h.distinct
      rw [idsOf_cons, hid] at hdistinct
      obtain ⟨hnew, hrest⟩ := List.nodup_cons.mp hdistinct
      have hothers : ∀ other ∈ idsOf rest,
          (ofDocuments (first :: rest)).document? other = (ofDocuments rest).document? other := by
        intro other hother
        have hne : idOf? first ≠ some other := by
          rw [hid]
          exact fun heq => hnew (Option.some.inj heq ▸ hother)
        rw [document?_cons, if_neg hne]
      have horder : (ofDocuments (first :: rest)).order = id :: idsOf rest := by
        show idsOf (first :: rest) = _
        rw [idsOf_cons, hid]
        rfl
      rw [Shelf.documents, horder, List.filterMap_cons_some (by rw [document?_cons, if_pos hid]),
        List.filterMap_congr hothers]
      exact congrArg (first :: ·)
        (ih ⟨fun document hmem => h.readable document (List.mem_cons_of_mem first hmem), hrest⟩)

end Shelf

/-! ## A store and its maps -/

namespace Store

/-- The maps are those of the collections, which are in order. -/
structure Shelved (s : Store) (shelves : Shelves) : Prop where
  maps : ∀ name, shelves name = (lookup name s.collections).map Shelf.ofDocuments
  keyed : ∀ name, Keyed (s.documents name)

theorem shelved_empty : Shelved empty .empty := ⟨fun _ => rfl, fun _ => keyed_nil⟩

theorem holds_iff (id : DocumentId) (documents : List Json) :
    holds id documents = true ↔ id ∈ idsOf documents := by
  simp [holds, mem_idsOf]

namespace Shelved

variable {s : Store} {shelves : Shelves}

theorem getD_eq (h : s.Shelved shelves) (name : String) :
    (shelves name).getD .empty = .ofDocuments (s.documents name) := by
  rw [h.maps, Store.documents]
  cases lookup name s.collections <;> rfl

theorem write (h : s.Shelved shelves) (name : String) {documents : List Json}
    (hdocuments : Keyed documents) :
    (s.write name documents).Shelved (shelves.set name (.ofDocuments documents)) where
  maps := by
    intro other
    show Function.update shelves name _ other =
      (lookup other (assign name documents s.collections)).map Shelf.ofDocuments
    rw [Function.update_apply, h.maps]
    by_cases hname : name = other
    · subst hname
      simp
    · rw [lookup_assign_of_ne name other documents s.collections hname, if_neg (Ne.symm hname)]
  keyed := by
    intro other
    rw [documents_write]
    split
    · exact hdocuments
    · exact h.keyed other

theorem create (h : s.Shelved shelves) (name : String) :
    (s.createCollection name).Shelved (shelves.set name ((shelves name).getD .empty)) := by
  unfold createCollection
  split
  · next hexists =>
      obtain ⟨documents, hlookup⟩ := Option.isSome_iff_exists.mp hexists
      have hname := h.maps name
      rw [hlookup] at hname
      rw [hname]
      exact ⟨fun other => (congrFun (Function.update_eq_self_iff.mpr hname.symm) other).trans
        (h.maps other), h.keyed⟩
  · next hmissing =>
      have hnone : lookup name s.collections = none := by simpa [hasCollection] using hmissing
      rw [h.maps name, hnone]
      have hwritten := h.write name keyed_nil
      exact ⟨hwritten.maps, hwritten.keyed⟩

/-- The documents with an id are altered or removed in the store and in its maps alike. -/
theorem onPresent (h : s.Shelved shelves) (name : String) (id : DocumentId)
    {f : List Json → List Json} {g : Shelf → Shelf}
    (hkeyed : Keyed (s.documents name) → Keyed (f (s.documents name)))
    (hmap : Keyed (s.documents name) →
      .ofDocuments (f (s.documents name)) = g (.ofDocuments (s.documents name))) :
    (shelves.onPresent name id g).1 = .found (holds id (s.documents name)) ∧
      (if holds id (s.documents name) then s.write name (f (s.documents name)) else s).Shelved
        (shelves.onPresent name id g).2 := by
  have hdocuments : s.documents name = (lookup name s.collections).getD [] := rfl
  unfold Shelves.onPresent
  cases hlookup : lookup name s.collections with
  | none =>
      rw [hlookup, Option.getD_none] at hdocuments
      have hnone : shelves name = none := by rw [h.maps, hlookup, Option.map_none]
      rw [hnone, hdocuments]
      exact ⟨rfl, h⟩
  | some documents =>
      rw [hlookup, Option.getD_some] at hdocuments
      have hsome : shelves name = some (.ofDocuments (s.documents name)) := by
        rw [h.maps, hlookup, Option.map_some, hdocuments]
      have hmem : id ∈ (Shelf.ofDocuments (s.documents name)).order ↔
          holds id (s.documents name) = true := (holds_iff id _).symm
      rw [hsome]
      by_cases hholds : holds id (s.documents name) = true
      · simp only [hmem, hholds, if_true]
        rw [← hmap (h.keyed name)]
        exact ⟨trivial, h.write name (hkeyed (h.keyed name))⟩
      · simp only [hmem, hholds]
        simpa using h

/-- A write changes the maps as it changes the collections, and is answered alike. -/
theorem step (h : s.Shelved shelves) (w : Write) :
    (shelves.write w).1 = s.answer w ∧ (s.step w.operation).Shelved (shelves.write w).2 := by
  cases w with
  | create name => exact ⟨rfl, h.create name⟩
  | insert name document =>
      simp only [Shelves.write, answer, Write.operation, Store.step, Store.insert]
      cases hid : idOf? document with
      | none => exact ⟨rfl, h⟩
      | some id =>
          refine ⟨rfl, ?_⟩
          show (s.write name (upsert id document (s.documents name))).Shelved
            (shelves.set name (((shelves name).getD .empty).put id document))
          rw [h.getD_eq name, ← Shelf.ofDocuments_upsert (s.documents name) hid]
          exact h.write name ((h.keyed name).upsert hid)
  | update name id fields =>
      have hmerge : ∀ document, idOf? (merge document fields) = idOf? document :=
        fun document => idOf?_merge document fields
      have hpresent := h.onPresent (f := alter id fun document => merge document fields)
        (g := fun shelf => shelf.amend id fun document => merge document fields) name id
        (fun hkeyed => hkeyed.alter hmerge)
        fun _ => Shelf.ofDocuments_alter hmerge id (s.documents name)
      simp only [Shelves.write, answer, Write.operation, Store.step, Store.update]
      cases hholds : holds id (s.documents name) <;> simpa [hholds] using hpresent
  | remove name id =>
      have hpresent := h.onPresent (f := without id) (g := fun shelf => shelf.remove id) name id
        (fun hkeyed => hkeyed.without)
        fun hkeyed => Shelf.ofDocuments_without hkeyed.distinct id
      simp only [Shelves.write, answer, Write.operation, Store.step, Store.remove]
      cases hholds : holds id (s.documents name) <;> simpa [hholds] using hpresent

theorem run (h : s.Shelved shelves) (writes : List Write) :
    (shelves.writeAll writes).1 = s.answers writes ∧
      (s.run (writes.map Write.operation)).Shelved (shelves.writeAll writes).2 := by
  induction writes generalizing s shelves with
  | nil => exact ⟨rfl, h⟩
  | cons first rest ih =>
      obtain ⟨hanswer, hnext⟩ := h.step first
      obtain ⟨hanswers, hlast⟩ := ih hnext
      exact ⟨congrArg₂ List.cons hanswer hanswers, hlast⟩

end Shelved

/-! ## Merging -/

theorem lookup_append (key : String) (first others : List (String × Json)) :
    Json.lookup key (first ++ others) = (Json.lookup key first).or (Json.lookup key others) := by
  induction first with
  | nil => rfl
  | cons field rest ih =>
      obtain ⟨k, v⟩ := field
      rw [List.cons_append, Json.lookup_cons, Json.lookup_cons, ih]
      split <;> rfl

theorem lookup_filter {key : String} {p : String × Json → Bool}
    (hp : ∀ value, p (key, value) = true) (fields : List (String × Json)) :
    Json.lookup key (fields.filter p) = Json.lookup key fields := by
  induction fields with
  | nil => rfl
  | cons field rest ih =>
      obtain ⟨k, v⟩ := field
      by_cases hk : k = key
      · subst hk
        rw [List.filter_cons_of_pos (hp v), Json.lookup_cons, Json.lookup_cons, if_pos rfl,
          if_pos rfl]
      · rw [List.filter_cons]
        split
        · rw [Json.lookup_cons, Json.lookup_cons, if_neg hk, if_neg hk, ih]
        · rw [Json.lookup_cons, if_neg hk, ih]

theorem lookup_foldl_insert_eq (key : String) (fields target : List (String × Json)) :
    Json.lookup key
        (fields.foldl (fun target field => Json.insert field.1 field.2 target) target) =
      (Json.lookup key fields.reverse).or (Json.lookup key target) := by
  induction fields generalizing target with
  | nil => rfl
  | cons field rest ih =>
      obtain ⟨k, v⟩ := field
      rw [List.foldl_cons, ih, List.reverse_cons, lookup_append, Option.or_assoc]
      congr 1
      by_cases hk : k = key
      · subst hk
        rw [Json.lookup_insert_self, Json.lookup_cons, if_pos rfl, Option.some_or]
      · rw [Json.lookup_insert_of_ne _ _ _ _ hk, Json.lookup_cons, if_neg hk, Json.lookup_nil,
          Option.none_or]

/-- Merging sets the fields named, except for the id, and keeps the others. -/
theorem get?_merge (target fields : List (String × Json)) (key : String) :
    (merge (.object target) (.object fields)).get? key =
      if key = idKey then Json.lookup key target
      else (Json.lookup key fields.reverse).or (Json.lookup key target) := by
  show Json.lookup key
    ((fields.filter fun field => field.1 ≠ idKey).foldl _ target) = _
  split
  · next hkey =>
      subst hkey
      exact lookup_foldl_insert idKey _ target fun field h => by
        simpa using (List.mem_filter.mp h).2
  · next hkey =>
      rw [lookup_foldl_insert_eq, ← List.filter_reverse, lookup_filter]
      intro value
      simp [hkey]

/-- Whatever is written to a store from the beginning on, it answers as maps from ids to documents
do that remember the order of their ids, and its collections are these maps, each a list of its
documents in that order. Every document is an object with a readable id, and the ids of a
collection are distinct. Where the maps merge fields into a document, this sets the fields that
are named (of a name given twice the last counts), never the id, and keeps all others; what is not
an object changes nothing. -/
theorem collections_are_maps (writes : List Write) :
    empty.answers writes = (Shelves.empty.writeAll writes).1 ∧
    (∀ name, lookup name (empty.run (writes.map Write.operation)).collections =
      ((Shelves.empty.writeAll writes).2 name).map Shelf.documents) ∧
    (∀ name, (idsOf ((empty.run (writes.map Write.operation)).documents name)).Nodup ∧
      ∀ document ∈ (empty.run (writes.map Write.operation)).documents name,
        ∃ fields id, document = .object fields ∧ idOf? document = some id) ∧
    (∀ target fields key, (merge (.object target) (.object fields)).get? key =
      if key = idKey then Json.lookup key target
      else (Json.lookup key fields.reverse).or (Json.lookup key target)) ∧
    (∀ document value : Json, value.object? = none → merge document value = document) := by
  obtain ⟨hanswers, hshelved⟩ := shelved_empty.run writes
  refine ⟨hanswers.symm, ?_, ?_, get?_merge, ?_⟩
  · intro name
    have hkeyed := hshelved.keyed name
    rw [Store.documents] at hkeyed
    rw [hshelved.maps name]
    cases hlookup : lookup name (empty.run (writes.map Write.operation)).collections with
    | none => rfl
    | some documents =>
        rw [hlookup, Option.getD_some] at hkeyed
        rw [Option.map_some, Option.map_some, Shelf.documents_ofDocuments hkeyed]
  · intro name
    refine ⟨(hshelved.keyed name).distinct, fun document hmem => ?_⟩
    obtain ⟨id, hid⟩ := (hshelved.keyed name).readable document hmem
    obtain ⟨fields, hfields⟩ := exists_object_of_idOf? hid
    exact ⟨fields, id, hfields, hid⟩
  · intro document value hvalue
    cases value with
    | object fields => cases hvalue
    | _ => cases document <;> rfl

end Store

end LiveDocuments
