import LiveDocuments.Proofs.Selector.Sameness
import LiveDocuments.Proofs.Store.Differences
import LiveDocuments.Proofs.Store.Finding
import LiveDocuments.Proofs.Store.Isolation
import LiveDocuments.Proofs.Store.Merging

/-!
# Operations without a trace

A store refuses documents without an id and selectors that it cannot compile, and does not
find what is not there. All this leaves it as it is. A write that is done may still change
no document: then no live query finds anything else than before, since documents that are
the same are seen alike, and nothing is queued (`Store.pending_step_of_unaltered`). That a
live query remembers what it would find now is what carries this over to every store in use.
-/

namespace LiveDocuments

/-- The same documents in the same order. -/
def Unaltered (before after : List Json) : Prop :=
  List.Forall₂ (fun a b : Json => a.same b = true) before after

/-! ## Results over the same documents -/

namespace Results

theorem agrees_found {before after : List Json} (selector : Selector)
    (h : List.Forall₂ (fun a b : Json => idOf? a = idOf? b ∧ a.same b = true) before after) :
    Agrees ((before.filter selector.accepts).filterMap withId?)
      ((after.filter selector.accepts).filterMap withId?) := by
  induction h with
  | nil => exact .nil
  | @cons a b _ _ hab _ ih =>
      obtain ⟨hid, hsame⟩ := hab
      rw [List.filter_cons, List.filter_cons, selector.accepts_congr ((Json.same_iff a b).mp hsame)]
      split
      · cases hown : idOf? b with
        | none =>
            rw [List.filterMap_cons_none (by rw [withId?, hid, hown]; rfl),
              List.filterMap_cons_none (by rw [withId?, hown]; rfl)]
            exact ih
        | some id =>
            rw [List.filterMap_cons_some (by rw [withId?, hid, hown]; rfl),
              List.filterMap_cons_some (by rw [withId?, hown]; rfl)]
            exact .cons ⟨rfl, hsame⟩ ih
      · exact ih

end Results

/-- Lists that correspond are sorted alike if the orders do not tell what corresponds apart. -/
theorem forall₂_mergeSort {α : Type} {R : α → α → Prop} {le : α → α → Bool} {l m : List α}
    (h : List.Forall₂ R l m)
    (hle : ∀ {a a' b b'}, R a a' → R b b' → le a b = le a' b') :
    List.Forall₂ R (l.mergeSort le) (m.mergeSort le) := by
  obtain ⟨hlength, hpairs⟩ := List.forall₂_iff_zip.mp h
  have hleft : (l.zip m).map Prod.fst = l := List.map_fst_zip (Nat.le_of_eq hlength)
  have hright : (l.zip m).map Prod.snd = m := List.map_snd_zip (Nat.le_of_eq hlength.symm)
  have hsortLeft := List.map_mergeSort (f := Prod.fst) (l := l.zip m)
    (r := fun p q => le p.1 q.1) (s := le) fun _ _ _ _ => rfl
  have hsortRight := List.map_mergeSort (f := Prod.snd) (l := l.zip m)
    (r := fun p q => le p.1 q.1) (s := le) fun _ hp _ hq => hle (hpairs hp) (hpairs hq)
  rw [hleft] at hsortLeft
  rw [hright] at hsortRight
  rw [← hsortLeft, ← hsortRight, List.forall₂_map_left_iff, List.forall₂_map_right_iff,
    List.forall₂_same]
  exact fun pair hpair => hpairs (List.mem_mergeSort.mp hpair)

namespace Results

theorem Agrees.sorted {a b : Results} (h : Agrees a b) (sort : Option SortOrder) :
    Agrees (a.sorted sort) (b.sorted sort) := by
  cases sort with
  | none => exact h
  | some order =>
      refine forall₂_mergeSort h fun hxx hyy => ?_
      rw [order.compare_congr ((Json.same_iff _ _).mp hxx.2) ((Json.same_iff _ _).mp hyy.2)]

theorem agrees_of {before after : List Json} (selector : Selector) (sort : Option SortOrder)
    (limit : Nat)
    (h : List.Forall₂ (fun a b : Json => idOf? a = idOf? b ∧ a.same b = true) before after) :
    Agrees (of before selector sort limit) (of after selector sort limit) :=
  List.forall₂_take limit ((agrees_found selector h).sorted sort)

end Results

/-! ## Ids of documents that are the same -/

/-- An operation that leaves as many ids as there were leaves the ids that were there. -/
theorem StoreOperation.arrive_eq_of_length_eq {name : String} {ids : List DocumentId}
    {operation : StoreOperation} (h : (operation.arrive name ids).length = ids.length) :
    operation.arrive name ids = ids := by
  cases operation with
  | insert other document =>
      simp only [arrive] at h ⊢
      cases hid : idOf? document with
      | none => rfl
      | some id =>
          simp only [hid] at h ⊢
          split at h
          · simp at h
          · next hno => rw [if_neg hno]
  | remove other id =>
      simp only [arrive] at h ⊢
      split
      · next hname =>
          rw [if_pos hname] at h
          refine List.erase_of_not_mem fun hmem => ?_
          have hpos := List.length_pos_of_mem hmem
          rw [List.length_erase_of_mem hmem] at h
          omega
      · rfl
  | _ => rfl

theorem forall₂_and_of_map_eq {α β : Type} {R : α → α → Prop} {f : α → β} {l m : List α}
    (h : List.Forall₂ R l m) (hmap : l.map f = m.map f) :
    List.Forall₂ (fun a b => f a = f b ∧ R a b) l m := by
  induction h with
  | nil => exact .nil
  | cons hab _ ih =>
      obtain ⟨hfirst, hrest⟩ := List.cons.inj hmap
      exact .cons ⟨hfirst, hab⟩ (ih hrest)

namespace Store

variable {s : Store}

/-- Documents that are the same after an operation have kept their ids: where ids come in or
go, there are more or fewer documents. -/
theorem forall₂_idOf?_of_unaltered {name : String} (h : Keyed (s.documents name))
    {operation : StoreOperation}
    (hunaltered : Unaltered (s.documents name) ((s.step operation).documents name)) :
    List.Forall₂ (fun a b : Json => idOf? a = idOf? b ∧ a.same b = true)
      (s.documents name) ((s.step operation).documents name) := by
  obtain ⟨hafter, hids⟩ := keyed_step h operation
  have hlength : ∀ {documents : List Json}, Keyed documents →
      (idsOf documents).length = documents.length := fun hkeyed => by
    rw [← List.length_map some, ← hkeyed.map_idOf?, List.length_map]
  have hsame : idsOf ((s.step operation).documents name) = idsOf (s.documents name) := by
    rw [hids]
    refine StoreOperation.arrive_eq_of_length_eq ?_
    rw [← hids, hlength hafter, hlength h, hunaltered.length_eq]
  refine forall₂_and_of_map_eq hunaltered ?_
  rw [h.map_idOf?, hafter.map_idOf?, hsame]

/-! ## Writes that change nothing -/

theorem live_write (s : Store) (name : String) (documents : List Json) :
    (s.write name documents).live =
      s.live.map fun q => if q.collection = name then q.rerun documents else q := by
  have hwritten : (s.write name documents).documents name = documents := by
    rw [documents_write, if_pos rfl]
  conv_rhs => rw [← hwritten]
  rfl

/-- Nothing is queued by a write after which the live queries find what they found. -/
theorem pending_write {name : String} {documents : List Json}
    (h : ∀ q ∈ s.live, q.collection = name →
      Results.changes q.results (Results.of documents q.selector q.sort q.limit) = [])
    (feed : FeedId) : (s.write name documents).pending feed = s.pending feed := by
  simp only [pending, live_write, find?_map_of_feed (feed_rerunIf name documents)]
  cases hfound : s.live.find? fun q => q.feed = feed with
  | none => rfl
  | some q =>
      by_cases hcollection : q.collection = name
      · have hnothing := h q (List.mem_of_find?_eq_some hfound) hcollection
        simp [hcollection, LiveQuery.rerun, hnothing]
      · simp [hcollection]

/-- What a write does to the queues, it does by writing documents to its collection. -/
theorem pending_or_write (s : Store) (w : Write) :
    (∀ feed, (s.step w.operation).pending feed = s.pending feed) ∨
      ∃ documents, s.step w.operation = s.write w.collection documents := by
  cases w with
  | create name =>
      refine .inl fun feed => ?_
      simp only [Write.operation, step, createCollection]
      split <;> rfl
  | insert name document =>
      simp only [Write.operation, step, insert]
      cases idOf? document with
      | none => exact .inl fun _ => rfl
      | some id => exact .inr ⟨_, rfl⟩
  | update name id fields =>
      simp only [Write.operation, step, update]
      split
      · exact .inr ⟨_, rfl⟩
      · exact .inl fun _ => rfl
  | remove name id =>
      simp only [Write.operation, step, remove]
      split
      · exact .inr ⟨_, rfl⟩
      · exact .inl fun _ => rfl

theorem pending_step_of_unaltered (hs : s.Consistent) {w : Write}
    (hkeyed : Keyed (s.documents w.collection))
    (h : Unaltered (s.documents w.collection) ((s.step w.operation).documents w.collection))
    (feed : FeedId) : (s.step w.operation).pending feed = s.pending feed := by
  rcases pending_or_write s w with hpending | ⟨documents, hstep⟩
  · exact hpending feed
  have hids := forall₂_idOf?_of_unaltered hkeyed h
  have hdistinct := (hs.step w.operation).distinct w.collection
  rw [hstep] at hids hdistinct ⊢
  rw [documents_write, if_pos rfl] at hids hdistinct
  refine pending_write (fun q hq hcollection => ?_) feed
  have hagrees := Results.agrees_of q.selector q.sort q.limit hids
  rw [← hcollection, ← hs.fresh q hq] at hagrees
  refine Results.changes_of_agrees ?_ (Results.nodup_ids_of q.selector q.sort q.limit hdistinct)
    hagrees
  rw [hs.fresh q hq]
  exact Results.nodup_ids_of q.selector q.sort q.limit (hs.distinct q.collection)

/-! ## Writes that are done again -/

theorem unaltered_refl (documents : List Json) : Unaltered documents documents :=
  List.forall₂_same.mpr fun document _ => document.same_refl

theorem unaltered_upsert {id : DocumentId} {document : Json} {documents : List Json}
    (hid : id ∈ idsOf documents)
    (hsame : ∀ stored ∈ documents, idOf? stored = some id → stored.same document = true) :
    Unaltered documents (upsert id document documents) := by
  induction documents with
  | nil => exact absurd hid List.not_mem_nil
  | cons first rest ih =>
      rw [upsert]
      split
      · next hfirst => exact .cons (hsame first List.mem_cons_self hfirst) (unaltered_refl rest)
      · next hfirst =>
          rw [idsOf_cons, List.mem_append, Option.mem_toList] at hid
          exact .cons first.same_refl (ih (hid.resolve_left hfirst) fun stored hmem =>
            hsame stored (List.mem_cons_of_mem first hmem))

/-- A document altered twice is one that is altered by both alterations. -/
theorem alter_alter {id : DocumentId} {f : Json → Json}
    (hf : ∀ document, idOf? (f document) = idOf? document) (g : Json → Json)
    (documents : List Json) :
    alter id g (alter id f documents) = alter id (fun document => g (f document)) documents := by
  induction documents with
  | nil => rfl
  | cons first rest ih =>
      by_cases hfirst : idOf? first = some id
      · rw [alter, if_pos hfirst, alter, if_pos ((hf first).trans hfirst), alter, if_pos hfirst]
      · rw [alter, if_neg hfirst, alter, if_neg hfirst, alter, if_neg hfirst, ih]

theorem documents_step_insert (s : Store) (name : String) {document : Json} {id : DocumentId}
    (hid : idOf? document = some id) :
    (s.step (.insert name document)).documents name = upsert id document (s.documents name) := by
  have hwritten := s.documents_step_write (.insert name document) name
  simp only [Write.collection, Write.rewrite, hid, if_true] at hwritten
  exact hwritten

theorem documents_step_update (s : Store) (name : String) (id : DocumentId) (fields : Json) :
    (s.step (.update name id fields)).documents name =
      alter id (fun document => merge document fields) (s.documents name) :=
  (s.documents_step_write (.update name id fields) name).trans (if_pos rfl)

theorem pending_insert_stored (hs : s.Consistent) {name : String}
    (hkeyed : Keyed (s.documents name)) {stored document : Json}
    (hstored : stored ∈ s.documents name) (hid : idOf? document = idOf? stored)
    (hsame : stored.same document = true) (feed : FeedId) :
    (s.step (.insert name document)).pending feed = s.pending feed := by
  obtain ⟨id, hown⟩ := hkeyed.readable stored hstored
  refine pending_step_of_unaltered hs (w := .insert name document) hkeyed ?_ feed
  show Unaltered (s.documents name) ((s.step (.insert name document)).documents name)
  rw [documents_step_insert s name (hid.trans hown)]
  refine unaltered_upsert ((mem_idsOf _ id).mpr ⟨stored, hstored, hown⟩) fun other hmem hother => ?_
  rwa [eq_of_idOf? (hs.distinct name) hmem hstored hother hown]

theorem pending_update_eq_self (hs : s.Consistent) {name : String}
    (hkeyed : Keyed (s.documents name)) {id : DocumentId} {fields : Json}
    (hsame : alter id (fun document => merge document fields) (s.documents name) =
      s.documents name) (feed : FeedId) :
    (s.step (.update name id fields)).pending feed = s.pending feed := by
  refine pending_step_of_unaltered hs (w := .update name id fields) hkeyed ?_ feed
  show Unaltered (s.documents name) ((s.step (.update name id fields)).documents name)
  rw [documents_step_update, hsame]
  exact unaltered_refl _

/-! ## Requests that fail -/

theorem insert_of_unreadable (s : Store) (name : String) {document : Json}
    (h : idOf? document = none) : s.insert name document = .error (.missingId name) := by
  rw [insert, h]

theorem update_of_absent {name : String} {id : DocumentId} (h : id ∉ idsOf (s.documents name))
    (fields : Json) : s.update name id fields = (false, s) :=
  if_neg (mt (holds_iff id _).mp h)

theorem remove_of_absent {name : String} {id : DocumentId} (h : id ∉ idsOf (s.documents name)) :
    s.remove name id = (false, s) := if_neg (mt (holds_iff id _).mp h)

theorem idsOf_of_missing {name : String} (h : s.hasCollection name = false) :
    idsOf (s.documents name) = [] := by
  have hnone : lookup name s.collections = none := by simpa [hasCollection] using h
  rw [documents, hnone, Option.getD_none, idsOf_nil]

theorem find_of_fault (s : Store) (name : String) {query : Query} {fault : SelectorFault}
    (h : Selector.compile query.selector = .error fault) :
    s.find name query = .error (.invalidSelector fault) := by
  rw [find, h]

theorem observe_of_fault (s : Store) (name : String) {query : Query} {fault : SelectorFault}
    (h : Selector.compile query.selector = .error fault) :
    s.observe name query = .error (.invalidSelector fault) := by
  rw [observe, h]

/-- In every store that operations lead to, a document without a readable id is refused, a
document that is not there is neither updated nor removed, and a selector that is not accepted
neither finds anything nor is followed, and the store is afterwards what it was, with all its
collections, live queries, queues and counts. A write after which the documents of its collection
are the same as before queues nothing on any feed. Such writes are the insertion of a document
that is there already, an update done a second time, and one without fields other than the id. -/
theorem refused_and_silent (operations : List StoreOperation) :
    let s := empty.run operations
    (∀ name document, idOf? document = none →
      s.insert name document = .error (.missingId name) ∧ s.step (.insert name document) = s) ∧
    (∀ name id, s.hasCollection name = false ∨ id ∉ idsOf (s.documents name) →
      s.remove name id = (false, s) ∧ ∀ fields, s.update name id fields = (false, s)) ∧
    (∀ name query fault, Selector.compile query.selector = .error fault →
      s.find name query = .error (.invalidSelector fault) ∧
      s.observe name query = .error (.invalidSelector fault) ∧
      s.after (.find name query) = s ∧ s.step (.observe name query) = s) ∧
    (∀ w : Write,
      Unaltered (s.documents w.collection) ((s.step w.operation).documents w.collection) →
      ∀ feed, (s.step w.operation).pending feed = s.pending feed) ∧
    (∀ name, ∀ stored ∈ s.documents name, ∀ document, idOf? document = idOf? stored →
      stored.same document = true →
      ∀ feed, (s.step (.insert name document)).pending feed = s.pending feed) ∧
    (∀ name id fields, let t := s.step (.update name id fields)
      ∀ feed, (t.step (.update name id fields)).pending feed = t.pending feed) ∧
    (∀ name id fields, (∀ key value, fields.get? key = some value → key = idKey) →
      ∀ feed, (s.step (.update name id fields)).pending feed = s.pending feed) := by
  intro s
  have hs : s.Consistent := consistent_empty.run operations
  have hkeyed : ∀ name, Keyed (s.documents name) :=
    fun name => (keyed_documents_run name operations).1
  refine ⟨?_, ?_, ?_, ?_, ?_, ?_, ?_⟩
  · intro name document hid
    have hrefused := s.insert_of_unreadable name hid
    exact ⟨hrefused, by rw [step, hrefused]⟩
  · intro name id habsent
    have hid : id ∉ idsOf (s.documents name) := by
      rcases habsent with hmissing | hid
      · rw [idsOf_of_missing hmissing]
        exact List.not_mem_nil
      · exact hid
    exact ⟨remove_of_absent hid, update_of_absent hid⟩
  · intro name query fault hfault
    have hrefused := s.observe_of_fault name hfault
    exact ⟨s.find_of_fault name hfault, hrefused, rfl, by rw [step, hrefused]⟩
  · exact fun w => pending_step_of_unaltered hs (hkeyed w.collection)
  · exact fun name stored hstored document => pending_insert_stored hs (hkeyed name) hstored
  · intro name id fields t
    have ht : t.Consistent := hs.step _
    have htwice : alter id (fun document => merge document fields) (t.documents name) =
        t.documents name := by
      rw [documents_step_update s,
        alter_alter fun document => idOf?_merge document fields]
      simp only [merge_merge]
    exact pending_update_eq_self ht (keyed_step (hkeyed name) (.update name id fields)).1 htwice
  · exact fun name id fields hfields => pending_update_eq_self hs (hkeyed name)
      (alter_eq_self fun document _ _ => merge_eq_self hfields)

/-- A zero among the doubles, with a minus sign or without. -/
def doubleZero (negative : Bool) : Json := .number (.double (.zero negative))

/-- A document under two live queries, one of which asks for a number that is not negative. -/
def balanced : List StoreOperation :=
  [.insert "A" (.object [(idKey, .string "a"), ("n", doubleZero true)]),
    .observe "A" (.all 5),
    .observe "A" ⟨.object [("n", .object [("$gte", .ofInt 0)])], 5, none⟩]

/-- What is asked of the balanced store in vain, and what is written to it without being told:
another zero, and the document with its fields in another order. -/
theorem refused_and_silent_balanced :
    let s := empty.run balanced
    (idOf? (.object [("n", .null)]) = none ∧ s.step (.insert "B" (.object [("n", .null)])) = s) ∧
    (s.hasCollection "B" = false ∧ s.remove "B" (.plain "a") = (false, s)) ∧
    (DocumentId.plain "b" ∉ idsOf (s.documents "A") ∧
      s.update "A" (.plain "b") (.object [("n", .null)]) = (false, s)) ∧
    (Selector.compile (.object [("$nor", .null)]) = .error (.unknownConnective "$nor") ∧
      s.step (.observe "A" ⟨.object [("$nor", .null)], 5, none⟩) = s) ∧
    (s.step (.update "A" (.plain "a") (.object [("n", doubleZero false)]))).pending 1 =
      s.pending 1 ∧
    (s.step (.insert "A" (.object [("n", doubleZero false), (idKey, .string "a")]))).pending 1 =
      s.pending 1 ∧
    (s.step (.update "A" (.plain "a") (.object [(idKey, .null)]))).pending 0 = s.pending 0 := by
  intro s
  obtain ⟨hinsert, habsent, hfault, hsilent, hagain, -, hfields⟩ := refused_and_silent balanced
  have hunreadable : idOf? (.object [("n", .null)]) = none := by decide +kernel
  have hmissing : s.hasCollection "B" = false := by decide +kernel
  have hid : DocumentId.plain "b" ∉ idsOf (s.documents "A") := by decide +kernel
  have hcompile : Selector.compile (.object [("$nor", .null)]) =
      .error (.unknownConnective "$nor") := rfl
  refine ⟨⟨hunreadable, (hinsert "B" _ hunreadable).2⟩,
    ⟨hmissing, (habsent "B" _ (.inl hmissing)).1⟩, ⟨hid, (habsent "A" _ (.inr hid)).2 _⟩,
    ⟨hcompile, (hfault "A" ⟨.object [("$nor", .null)], 5, none⟩ _ hcompile).2.2.2⟩, ?_, ?_, ?_⟩
  · exact hsilent (.update "A" (.plain "a") (.object [("n", doubleZero false)]))
      (.cons (by decide +kernel) .nil) 1
  · exact hagain "A" (.object [(idKey, .string "a"), ("n", doubleZero true)]) (by decide +kernel) _
      (by decide +kernel) (by decide +kernel) 1
  · refine hfields "A" (.plain "a") _ (fun key value hvalue => ?_) 0
    by_contra hkey
    simp [Json.get?, Json.lookup_cons, Ne.symm hkey] at hvalue

end Store

end LiveDocuments
