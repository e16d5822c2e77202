import LiveDocuments.Proofs.Store.Isolation
import LiveDocuments.Proofs.Store.Lifecycle
import Mathlib.Data.List.Induction

/-!
# Writes to different documents commute

A write is an edit of the documents: it changes the document of its id in its place, takes it
out, or puts a new one at the end (`Edit`). Edits of different ids can be exchanged, unless
both of them put something at the end (`Edit.apply_comm`). So two writes lead to the same
documents and are answered alike in either order. The live queries take different ways to what
they find in the end, and so do their readers, but the ends are the same.
-/

namespace LiveDocuments

/-! ## Edits -/

/-- An edit of the document of an id: what becomes of it, and what is put at the end if there is
none. The id stays what it is. -/
structure Edit where
  id : DocumentId
  change : Json → Option Json
  fresh : Option Json
  idOf?_change : ∀ {document changed : Json}, idOf? document = some id →
    change document = some changed → idOf? changed = some id
  idOf?_fresh : ∀ {document : Json}, fresh = some document → idOf? document = some id

namespace Edit

/-- The documents after the edit. -/
def apply (e : Edit) : List Json → List Json
  | [] => e.fresh.toList
  | first :: rest =>
      if idOf? first = some e.id then (e.change first).toList ++ rest else first :: e.apply rest

/-- The edit puts a document at the end. -/
def Adds (e : Edit) (documents : List Json) : Prop :=
  e.fresh.isSome ∧ e.id ∉ idsOf documents

variable {e other : Edit} {first : Json} {rest : List Json}

theorem apply_cons_self (h : idOf? first = some e.id) :
    e.apply (first :: rest) = (e.change first).toList ++ rest := if_pos h

theorem apply_cons_of_ne (h : idOf? first ≠ some e.id) :
    e.apply (first :: rest) = first :: e.apply rest := if_neg h

theorem apply_change_append (hne : e.id ≠ other.id) (h : idOf? first = some e.id) :
    other.apply ((e.change first).toList ++ rest) =
      (e.change first).toList ++ other.apply rest := by
  cases hchange : e.change first with
  | none => rfl
  | some changed =>
      refine apply_cons_of_ne ?_
      rw [e.idOf?_change h hchange]
      exact fun heq => hne (Option.some.inj heq)

/-- At the end of the documents another edit passes over what was put there. -/
theorem apply_fresh (hne : e.id ≠ other.id) :
    other.apply e.fresh.toList = e.fresh.toList ++ other.fresh.toList := by
  cases hfresh : e.fresh with
  | none => rfl
  | some document =>
      refine apply_cons_of_ne ?_
      rw [e.idOf?_fresh hfresh]
      exact fun heq => hne (Option.some.inj heq)

/-- Edits of different documents can be exchanged, unless both put one at the end. -/
theorem apply_comm (hne : e.id ≠ other.id) {documents : List Json}
    (hadds : ¬ (e.Adds documents ∧ other.Adds documents)) :
    e.apply (other.apply documents) = other.apply (e.apply documents) := by
  induction documents with
  | nil =>
      show e.apply other.fresh.toList = other.apply e.fresh.toList
      rw [apply_fresh hne, apply_fresh hne.symm]
      cases he : e.fresh with
      | none => simp
      | some _ =>
          cases hother : other.fresh with
          | none => simp
          | some _ => exact absurd ⟨by simp [Adds, he], by simp [Adds, hother]⟩ hadds
  | cons first rest ih =>
      by_cases hfirst : idOf? first = some e.id
      · have hpass : idOf? first ≠ some other.id := by
          rw [hfirst]
          exact fun heq => hne (Option.some.inj heq)
        rw [apply_cons_of_ne hpass, apply_cons_self hfirst, apply_cons_self hfirst,
          apply_change_append hne hfirst]
      · by_cases hother : idOf? first = some other.id
        · rw [apply_cons_of_ne hfirst, apply_cons_self hother, apply_cons_self hother,
            apply_change_append hne.symm hother]
        · rw [apply_cons_of_ne hother, apply_cons_of_ne hfirst, apply_cons_of_ne hfirst,
            apply_cons_of_ne hother, ih]
          have hkeep : ∀ {e : Edit}, idOf? first ≠ some e.id → e.Adds rest →
              e.Adds (first :: rest) := fun hne h => ⟨h.1, by
            rw [idsOf_cons, List.mem_append, Option.mem_toList]
            exact not_or.mpr ⟨hne, h.2⟩⟩
          exact fun h => hadds ⟨hkeep hfirst h.1, hkeep hother h.2⟩

theorem mem_idsOf_apply {id : DocumentId} (hne : id ≠ e.id) (documents : List Json) :
    id ∈ idsOf (e.apply documents) ↔ id ∈ idsOf documents := by
  have hown : ∀ {document : Json}, idOf? document = some e.id → idOf? document ≠ some id :=
    fun hdocument heq => hne (Option.some.inj (heq.symm.trans hdocument))
  induction documents with
  | nil =>
      show id ∈ idsOf e.fresh.toList ↔ _
      cases hfresh : e.fresh with
      | none => rfl
      | some document => simp [idsOf_cons, e.idOf?_fresh hfresh, hne]
  | cons first rest ih =>
      by_cases hfirst : idOf? first = some e.id
      · rw [apply_cons_self hfirst]
        cases hchange : e.change first with
        | none => simp [idsOf_cons, hfirst, hne]
        | some changed => simp [idsOf_cons, hfirst, e.idOf?_change hfirst hchange]
      · rw [apply_cons_of_ne hfirst, idsOf_cons, idsOf_cons, List.mem_append, List.mem_append]
        exact or_congr_right ih

/-- A document put in the place of the one with its id, or at the end. -/
def put (id : DocumentId) (document : Json) (hid : idOf? document = some id) : Edit where
  id := id
  change := fun _ => some document
  fresh := some document
  idOf?_change := fun _ h => Option.some.inj h ▸ hid
  idOf?_fresh := fun h => Option.some.inj h ▸ hid

/-- The document of an id altered in its place. -/
def amend (id : DocumentId) (f : Json → Json)
    (hf : ∀ document, idOf? (f document) = idOf? document) : Edit where
  id := id
  change := fun document => some (f document)
  fresh := none
  idOf?_change := fun hid h => Option.some.inj h ▸ (hf _).trans hid
  idOf?_fresh := fun h => nomatch h

/-- The document of an id taken out. -/
def remove (id : DocumentId) : Edit where
  id := id
  change := fun _ => none
  fresh := none
  idOf?_change := fun _ h => nomatch h
  idOf?_fresh := fun h => nomatch h

theorem apply_put {id : DocumentId} {document : Json} (hid : idOf? document = some id)
    (documents : List Json) :
    (put id document hid).apply documents = Store.upsert id document documents := by
  induction documents with
  | nil => rfl
  | cons first rest ih => rw [apply, Store.upsert, ih]; rfl

theorem apply_amend {f : Json → Json} (hf : ∀ document, idOf? (f document) = idOf? document)
    (id : DocumentId) (documents : List Json) :
    (amend id f hf).apply documents = Store.alter id f documents := by
  induction documents with
  | nil => rfl
  | cons first rest ih => rw [apply, Store.alter, ih]; rfl

theorem apply_remove (id : DocumentId) (documents : List Json) :
    (remove id).apply documents = Store.without id documents := by
  induction documents with
  | nil => rfl
  | cons first rest ih => rw [apply, Store.without, ih]; rfl

end Edit

/-! ## Writes as edits -/

namespace Write

/-- The id of the document that a write is about. -/
def address? : Write → Option DocumentId
  | create _ => none
  | insert _ document => idOf? document
  | update _ id _ => some id
  | remove _ id => some id

/-- The write inserts a document with an id that is not there yet. -/
def Adds (documents : List Json) : Write → Prop
  | insert _ document => ∃ id, idOf? document = some id ∧ id ∉ idsOf documents
  | _ => False

theorem exists_edit {w : Write} {id : DocumentId} (h : w.address? = some id) :
    ∃ e : Edit, e.id = id ∧ (∀ documents, w.rewrite documents = e.apply documents) ∧
      ∀ documents, e.Adds documents → w.Adds documents := by
  cases w with
  | create _ => cases h
  | insert name document =>
      have hid : idOf? document = some id := h
      refine ⟨.put id document hid, rfl, fun documents => ?_, fun _ hadds => ⟨id, hid, hadds.2⟩⟩
      rw [Edit.apply_put]
      simp only [rewrite, hid]
  | update name other fields =>
      obtain rfl : other = id := Option.some.inj h
      refine ⟨.amend other (fun d => Store.merge d fields) fun d => Store.idOf?_merge d fields, rfl,
        fun documents => ?_, fun _ hadds => absurd hadds.1 (by simp [Edit.amend])⟩
      rw [Edit.apply_amend]
      rfl
  | remove name other =>
      obtain rfl : other = id := Option.some.inj h
      refine ⟨.remove other, rfl, fun documents => ?_,
        fun _ hadds => absurd hadds.1 (by simp [Edit.remove])⟩
      rw [Edit.apply_remove]
      rfl

end Write

namespace Store

variable {s t : Store} {a b : Write} {i j : DocumentId}

theorem answer_congr {w : Write}
    (h : ∀ id, w.address? = some id →
      (id ∈ idsOf (s.documents w.collection) ↔ id ∈ idsOf (t.documents w.collection))) :
    s.answer w = t.answer w := by
  have hholds : ∀ {id : DocumentId}, w.address? = some id →
      holds id (s.documents w.collection) = holds id (t.documents w.collection) := by
    intro id hid
    rw [Bool.eq_iff_iff, holds_iff, holds_iff, h id hid]
  cases w with
  | create name => rfl
  | insert name document =>
      simp only [answer, Store.insert]
      cases idOf? document <;> rfl
  | update name id fields =>
      have hid := hholds rfl
      simp only [Write.collection] at hid
      simp only [answer, update, hid, apply_ite Prod.fst]
  | remove name id =>
      have hid := hholds rfl
      simp only [Write.collection] at hid
      simp only [answer, remove, hid, apply_ite Prod.fst]

/-- A write is answered as if one about another document had not been made. -/
theorem answer_step_write (hcollection : a.collection = b.collection) (ha : a.address? = some i)
    (hb : b.address? = some j) (hne : i ≠ j) (s : Store) :
    (s.step a.operation).answer b = s.answer b := by
  refine answer_congr fun id hid => ?_
  obtain rfl : j = id := Option.some.inj (hb.symm.trans hid)
  obtain ⟨e, rfl, hrewrite, -⟩ := Write.exists_edit ha
  rw [documents_step_write, if_pos hcollection, hrewrite]
  exact Edit.mem_idsOf_apply hne.symm _

/-- Two writes about different documents lead to the same documents in either order. -/
theorem documents_step_comm (hcollection : a.collection = b.collection)
    (ha : a.address? = some i) (hb : b.address? = some j) (hne : i ≠ j)
    (hadds : ¬ (a.Adds (s.documents a.collection) ∧ b.Adds (s.documents a.collection)))
    (name : String) :
    ((s.step a.operation).step b.operation).documents name =
      ((s.step b.operation).step a.operation).documents name := by
  simp only [documents_step_write, ← hcollection]
  split
  · next hname =>
      subst hname
      obtain ⟨e, rfl, hrewriteA, haddsA⟩ := Write.exists_edit ha
      obtain ⟨e', rfl, hrewriteB, haddsB⟩ := Write.exists_edit hb
      rw [hrewriteA, hrewriteA, hrewriteB, hrewriteB]
      exact (Edit.apply_comm hne fun h => hadds ⟨haddsA _ h.1, haddsB _ h.2⟩).symm
  · rfl

/-! ## The readers of the live queries -/

open Results

/-- A feed that is not given out in the course of a run is not polled with success. -/
theorem polled_of_unused (hs : s.Consistent) {feed : FeedId} {operations : List StoreOperation}
    (hunused : (s.run operations).nextFeed ≤ feed) : s.polled feed operations = [] := by
  induction operations generalizing s with
  | nil => rfl
  | cons operation rest ih =>
      have hlater := (map_feed_openings s (operation :: rest)).2
      have hnew : s.nextFeed ≤ feed := Nat.le_trans (Nat.le_add_right _ _) (hlater ▸ hunused)
      have hlive : feed ∉ s.live.map LiveQuery.feed := by
        intro hmem
        obtain ⟨q, hq, rfl⟩ := List.mem_map.mp hmem
        exact Nat.not_lt_of_le hnew (hs.used q hq)
      rw [polled_cons, ih (hs.step operation) hunused]
      simp [poll, pending_of_not_live hlive]

/-- Behind every live query there is a reader that has taken what was polled so far, and the
queue goes on from there. -/
theorem exists_reader (operations : List StoreOperation) {feed : FeedId}
    (hlive : feed ∈ (empty.run operations).live.map LiveQuery.feed) :
    ∃ name query held, Replays query.limit [] (empty.polled feed operations) held ∧
      (empty.run operations).Serves feed name query held := by
  induction operations using List.reverseRecOn with
  | nil => exact absurd hlive List.not_mem_nil
  | append_singleton operations operation ih =>
      have hs : (empty.run operations).Consistent := consistent_empty.run operations
      rw [run_append, run_cons, run_nil, feeds_step, List.mem_append] at hlive
      rw [polled_append, run_append, run_cons, run_nil, polled_cons, polled_nil, List.append_nil]
      rcases hlive with hkept | hopened
      · -- the reader was there before and takes what this operation polls
        obtain ⟨hbefore, hends⟩ := List.mem_filter.mp hkept
        obtain ⟨name, query, held, hreplays, hserves⟩ := ih hbefore
        obtain ⟨next, hpolled, hnext⟩ := hserves.step hs operation (by simpa using hends)
        exact ⟨name, query, next, hreplays.append hpolled, hnext⟩
      · -- the feed was just opened, so nothing was polled from it
        cases operation with
        | observe name query =>
            rw [Option.mem_toList, openedBy?] at hopened
            cases hobserve : (empty.run operations).observe name query with
            | error _ =>
                rw [hobserve] at hopened
                cases hopened
            | ok opened =>
                obtain ⟨number, next⟩ := opened
                rw [hobserve] at hopened
                obtain rfl : number = feed := Option.some.inj hopened
                have hnew : number = (empty.run operations).nextFeed := by
                  obtain ⟨_, _, hfeed, -⟩ := observe_eq_ok hobserve
                  exact hfeed
                refine ⟨name, query, [], ?_, ?_⟩
                · rw [polled_of_unused consistent_empty (Nat.le_of_eq hnew.symm)]
                  exact .nil (Nat.zero_le _)
                · rw [step, hobserve]
                  exact .opened hs hobserve
        | _ => cases hopened

namespace Serves

variable {feed : FeedId} {name : String} {query : Query} {held : Results}

theorem step_write (h : s.Serves feed name query held) (hs : s.Consistent) (w : Write) :
    (s.step w.operation).Serves feed name query held := by
  have hends : ¬ w.operation.Ends feed := by cases w <;> exact not_false
  have hpolls : ¬ w.operation.Polls feed := by cases w <;> exact not_false
  obtain ⟨next, hreplays, hnext⟩ := h.step hs w.operation hends
  rw [if_neg hpolls] at hreplays
  rwa [hreplays.of_nil] at hnext

/-- Where the documents are the same, a reader ends with the same list, whatever is queued. -/
theorem agrees_ends (h : s.Serves feed name query held) (ht : t.Serves feed name query held)
    (hs : s.Consistent) (ht' : t.Consistent) (hdocuments : s.documents name = t.documents name) :
    ∃ first second, Replays query.limit held (s.pending feed) first ∧
      Replays query.limit held (t.pending feed) second ∧ Agrees first second := by
  obtain ⟨q, hq, rfl, hfollows⟩ := h
  obtain ⟨p, hp, hfeed, hfollows'⟩ := ht
  obtain ⟨first, hfirst, hagrees⟩ := hfollows.replays
  obtain ⟨second, hsecond, hagrees'⟩ := hfollows'.replays
  have hselector : q.selector = p.selector :=
    Except.ok.inj (hfollows.selector.symm.trans hfollows'.selector)
  have hresults : q.results = p.results := by
    rw [hs.fresh q hq, ht'.fresh p hp, hfollows.collection, hfollows'.collection, hselector,
      hfollows.limit, hfollows'.limit, hfollows.sort, hfollows'.sort, hdocuments]
  refine ⟨first, second, ?_, ?_, hagrees.trans (hresults ▸ hagrees'.symm)⟩
  · rw [pending_of_mem hs.feeds hq]
    exact hfirst
  · rw [← hfeed, pending_of_mem ht'.feeds hp]
    exact hsecond

end Serves

/-- In every store that operations lead to, two writes to one collection that are about documents
of different ids, and that do not both insert an id which is not there yet, are answered alike in
either order and lead to the same documents in the same order. A reader that replays what a live
query has queued, from its opening on, ends with the same list of documents (of the same values: a
zero that got its sign before the document was found has it, one that got it later is not told
of), although the changes on the way may be others. -/
theorem writes_commute (operations : List StoreOperation) (a b : Write) (i j : DocumentId)
    (hcollection : a.collection = b.collection) (ha : a.address? = some i)
    (hb : b.address? = some j) (hne : i ≠ j)
    (hadds : ¬ (a.Adds ((empty.run operations).documents a.collection) ∧
      b.Adds ((empty.run operations).documents a.collection))) :
    let s := empty.run operations
    let first := (s.step a.operation).step b.operation
    let second := (s.step b.operation).step a.operation
    s.answers [a, b] = (s.answers [b, a]).reverse ∧
    (∀ name, first.documents name = second.documents name) ∧
    ∀ feed, s.isActive feed = true →
      ∃ held held', replay? [] (empty.polled feed operations ++ first.pending feed) = some held ∧
        replay? [] (empty.polled feed operations ++ second.pending feed) = some held' ∧
        Agrees held held' := by
  intro s first second
  have hs : s.Consistent := consistent_empty.run operations
  have hdocuments : ∀ name, first.documents name = second.documents name :=
    documents_step_comm hcollection ha hb hne hadds
  refine ⟨?_, hdocuments, fun feed hactive => ?_⟩
  · simp only [answers, List.reverse_cons, List.reverse_nil, List.nil_append,
      List.singleton_append]
    rw [answer_step_write hcollection ha hb hne,
      answer_step_write hcollection.symm hb ha hne.symm]
  · obtain ⟨name, query, reached, hreached, hserves⟩ :=
      exists_reader operations ((s.isActive_iff feed).mp hactive)
    have hfirst := (hserves.step_write hs a).step_write (hs.step a.operation) b
    have hsecond := (hserves.step_write hs b).step_write (hs.step b.operation) a
    obtain ⟨held, held', hheld, hheld', hagrees⟩ := hfirst.agrees_ends hsecond
      ((hs.step _).step _) ((hs.step _).step _) (hdocuments name)
    exact ⟨held, held', (hreached.append hheld).replay?_eq, (hreached.append hheld').replay?_eq,
      hagrees⟩

/-- A document with a rank. -/
def ranked (id : String) (rank : Int) : Json :=
  .object [(idKey, .string id), ("rank", .ofInt rank)]

/-- Three ranked documents, of which the first two are followed and one was read already. -/
def podium : List StoreOperation :=
  [.insert "A" (ranked "a" 1), .insert "A" (ranked "b" 2), .insert "A" (ranked "c" 3),
    .observe "A" (.all 2), .poll 0]

/-- The first document is taken out and the last one gets another rank. In one order the last
one comes in and is changed, in the other it comes in as it will be. -/
theorem writes_commute_podium :
    let s := empty.run podium
    let out : Write := .remove "A" (.plain "a")
    let other : Write := .update "A" (.plain "c") (.object [("rank", .ofInt 0)])
    let first := (s.step out.operation).step other.operation
    let second := (s.step other.operation).step out.operation
    (out.address? = some (.plain "a") ∧ other.address? = some (.plain "c") ∧
      ¬ (out.Adds (s.documents "A") ∧ other.Adds (s.documents "A"))) ∧
    first.documents "A" = second.documents "A" ∧ first.pending 0 ≠ second.pending 0 ∧
    ∃ held held', replay? [] (empty.polled 0 podium ++ first.pending 0) = some held ∧
      replay? [] (empty.polled 0 podium ++ second.pending 0) = some held' ∧ Agrees held held' := by
  intro s out other first second
  have hadds : ¬ (out.Adds (s.documents "A") ∧ other.Adds (s.documents "A")) := fun h => h.1
  obtain ⟨-, hdocuments, hreaders⟩ := writes_commute podium out other (.plain "a") (.plain "c")
    rfl rfl rfl (by decide) hadds
  exact ⟨⟨rfl, rfl, hadds⟩, hdocuments "A", by decide +kernel,
    hreaders 0 (by decide +kernel)⟩

/-- Two documents that are both new stand in the order of their arrival. -/
example : (empty.run [.insert "A" (bare "a"), .insert "A" (bare "b")]).documents "A" ≠
    (empty.run [.insert "A" (bare "b"), .insert "A" (bare "a")]).documents "A" := by
  decide +kernel

end Store

end LiveDocuments
