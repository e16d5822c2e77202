import LiveDocuments.Proofs.Model.Basic
import LiveDocuments.Proofs.Path.DocumentPath
import LiveDocuments.Proofs.Synchronizer.Lifecycle

/-!
# The entries of a view

A view of a collection keeps nothing but contexts, and it finds the context of a document by
the text of its path. No two documents have one path, so every context in a view stands for one
document, and the two together are an entry. What a change does to the entries can then be told
by ids alone (`Synchronizer.entriesAfter`): it puts a new one before that of the document it
names, or takes out that of the document it names. That is what a view does with its contexts,
whatever happened to it before (`Viewing.entries_found_by_path`).
-/

namespace LiveDocuments

namespace Synchronizer

/-- The entries after one change, told by ids; a document that is added gets the context. -/
def entriesAfter (entries : List (DocumentId × Context)) (context : Context) :
    ChangeEvent → List (DocumentId × Context)
  | .added id _ before =>
      entries.takeWhile (fun entry => before ≠ some entry.1) ++
        (id, context) :: entries.dropWhile fun entry => before ≠ some entry.1
  | .changed .. => entries
  | .removed id => entries.eraseP fun entry => entry.1 = id

/-- The contexts are those of the documents they are entered with, each under the path of its
document. -/
structure AreEntered (collection : String) (entries : List (DocumentId × Context))
    (contexts : List Context) : Prop where
  contexts_eq : contexts = entries.map Prod.snd
  path : ∀ entry ∈ entries, entry.2.path = documentPath ("/" ++ collection) entry.1

namespace AreEntered

variable {collection : String} {entries others : List (DocumentId × Context)}
  {contexts : List Context}

theorem nil (collection : String) : AreEntered collection [] [] where
  contexts_eq := rfl
  path := fun _ h => absurd h List.not_mem_nil

/-- An entry is found by the path of its document and by that of no other one. -/
theorem path_eq_iff {entry : DocumentId × Context}
    (h : entry.2.path = documentPath ("/" ++ collection) entry.1) {id : DocumentId} :
    entry.2.path = documentPath ("/" ++ collection) id ↔ entry.1 = id := by
  rw [h]
  exact ⟨fun hpaths => Components.pathOf_injective collection hpaths, fun hids => hids ▸ rfl⟩

/-- A context stands for one document, so there is one way to enter the contexts. -/
theorem eq (h : AreEntered collection entries contexts)
    (hothers : AreEntered collection others contexts) : others = entries := by
  obtain ⟨rfl, hpath⟩ := h
  obtain ⟨hsame, hpath'⟩ := hothers
  induction entries generalizing others with
  | nil => exact List.map_eq_nil_iff.mp hsame.symm
  | cons first rest ih =>
      cases others with
      | nil => cases hsame
      | cons other more =>
          obtain ⟨hcontext, hcontexts⟩ := List.cons.inj hsame
          obtain ⟨hfirst, hrest⟩ := List.forall_mem_cons.mp hpath
          obtain ⟨hother, hmore⟩ := List.forall_mem_cons.mp hpath'
          have hid : other.1 = first.1 := (path_eq_iff hother).mp (hcontext ▸ hfirst)
          rw [ih hrest hcontexts hmore, Prod.ext hid hcontext.symm]

/-- A context before that of a document is an entry before that of the document. -/
theorem insertBefore_map
    (hpath : ∀ entry ∈ entries, entry.2.path = documentPath ("/" ++ collection) entry.1)
    (before : Option DocumentId) (entry : DocumentId × Context) :
    insertBefore (before.map (documentPath ("/" ++ collection))) entry.2 (entries.map Prod.snd) =
      (entries.takeWhile (fun other => before ≠ some other.1) ++
        entry :: entries.dropWhile fun other => before ≠ some other.1).map Prod.snd := by
  induction entries with
  | nil => rfl
  | cons first rest ih =>
      obtain ⟨hfirst, hrest⟩ := List.forall_mem_cons.mp hpath
      have hfound : before.map (documentPath ("/" ++ collection)) = some first.2.path ↔
          before = some first.1 := by
        cases before with
        | none => simp
        | some id =>
            rw [Option.map_some, Option.some_inj, Option.some_inj, eq_comm, path_eq_iff hfirst,
              eq_comm]
      rw [List.map_cons, insertBefore]
      by_cases h : before = some first.1
      · rw [if_pos (hfound.mpr h), List.takeWhile_cons_of_neg (by simp [h]),
          List.dropWhile_cons_of_neg (by simp [h])]
        rfl
      · rw [if_neg (mt hfound.mp h), ih hrest, List.takeWhile_cons_of_pos (by simp [h]),
          List.dropWhile_cons_of_pos (by simp [h])]
        rfl

/-- The first context with the path of a document is the first entry of the document. -/
theorem eraseFirst_map
    (hpath : ∀ entry ∈ entries, entry.2.path = documentPath ("/" ++ collection) entry.1)
    (id : DocumentId) :
    eraseFirst (documentPath ("/" ++ collection) id) (entries.map Prod.snd) =
      (entries.eraseP fun entry => entry.1 = id).map Prod.snd := by
  induction entries with
  | nil => rfl
  | cons first rest ih =>
      obtain ⟨hfirst, hrest⟩ := List.forall_mem_cons.mp hpath
      rw [List.map_cons, eraseFirst]
      by_cases h : first.1 = id
      · rw [if_pos ((path_eq_iff hfirst).mpr h), List.eraseP_cons_of_pos (by simp [h])]
      · rw [if_neg (mt (path_eq_iff hfirst).mp h), ih hrest,
          List.eraseP_cons_of_neg (by simp [h])]
        rfl

/-- A change does to the entries what it tells by ids. -/
theorem after (h : AreEntered collection entries contexts) (cache : ContextCache)
    (event : ChangeEvent) :
    AreEntered collection
      (entriesAfter entries
        (cache.getOrCreate (documentPath ("/" ++ collection) event.id)).1 event)
      (contextsAfter (.documents ("/" ++ collection)) cache contexts event).1 := by
  obtain ⟨rfl, hpath⟩ := h
  cases event with
  | added id document before =>
      refine ⟨insertBefore_map hpath before (id, _), fun entry hentry => ?_⟩
      rcases List.mem_append.mp hentry with hfront | hback
      · exact hpath entry ((List.takeWhile_sublist _).subset hfront)
      · rcases List.mem_cons.mp hback with rfl | hback
        · exact cache.path_getOrCreate _
        · exact hpath entry ((List.dropWhile_sublist _).subset hback)
  | changed id document => exact ⟨rfl, hpath⟩
  | removed id =>
      exact ⟨eraseFirst_map hpath id,
        fun entry hentry => hpath entry (List.mem_of_mem_eraseP hentry)⟩

end AreEntered

/-- All contexts of a view can be entered under a collection. -/
def HasEntries (collection : String) (s : Synchronizer) : Prop :=
  ∃ entries, AreEntered collection entries s.contexts

variable {collection : String} {s : Synchronizer}

theorem hasEntries_of_nil (h : s.contexts = []) : s.HasEntries collection :=
  ⟨[], h ▸ .nil collection⟩

/-- A view that is not destroyed takes a change with all that it does to the contexts. -/
theorem contexts_apply (h : s.isDestroyed ≠ true) (cache : ContextCache) (event : ChangeEvent) :
    (s.apply cache event).2.1.contexts = (contextsAfter s.mode cache s.contexts event).1 := by
  rw [apply, if_neg h]

namespace HasEntries

theorem apply (h : s.HasEntries collection) (hmode : s.mode = .documents ("/" ++ collection))
    (cache : ContextCache) (event : ChangeEvent) :
    (s.apply cache event).2.1.HasEntries collection := by
  by_cases hdestroyed : s.isDestroyed = true
  · rw [Synchronizer.apply, if_pos hdestroyed]
    exact h
  · obtain ⟨entries, hentries⟩ := h
    have hafter := hentries.after cache event
    rw [← hmode, ← contexts_apply hdestroyed] at hafter
    exact ⟨_, hafter⟩

theorem applyAll (h : s.HasEntries collection)
    (hmode : s.mode = .documents ("/" ++ collection)) (cache : ContextCache)
    (events : List ChangeEvent) : (s.applyAll cache events).2.1.HasEntries collection := by
  induction events generalizing s cache with
  | nil => exact h
  | cons event rest ih =>
      exact ih (h.apply hmode cache event) ((s.mode_apply cache event).trans hmode) _

end HasEntries

end Synchronizer

namespace Viewing

open Synchronizer

variable {v : Viewing} {collection : String}

/-- Whatever is done to a view of a collection, its contexts can be entered. -/
theorem hasEntries_act (h : v.view.HasEntries collection)
    (hmode : v.view.mode = .documents ("/" ++ collection)) (action : ViewAction) :
    (v.act action).2.view.HasEntries collection := by
  cases action with
  | begin =>
      by_cases hdestroyed : v.view.isDestroyed = true
      · rw [begin_of_isDestroyed hdestroyed]
        exact h
      · rw [begin_of_not_isDestroyed hdestroyed]
        exact hasEntries_of_nil rfl
  | attach name query feed =>
      by_cases hdestroyed : v.view.isDestroyed = true
      · rw [attach_of_isDestroyed hdestroyed]
        exact h
      · rw [attach_of_not_isDestroyed hdestroyed]
        exact h
  | abandon =>
      rw [act, abandon]
      split <;> exact h
  | apply event => exact h.apply hmode v.cache event
  | pump =>
      have hview : v.drain.2.view = v.view := v.drain_keeps.1
      have hentries : v.drain.2.view.HasEntries collection := hview.symm ▸ h
      exact hentries.applyAll (hview.symm ▸ hmode) v.drain.2.cache v.drain.1
  | destroy =>
      by_cases hdestroyed : v.view.isDestroyed = true
      · rw [destroy_of_isDestroyed hdestroyed]
        exact h
      · rw [destroy_of_not_isDestroyed hdestroyed]
        exact hasEntries_of_nil rfl
  | ask path => exact h
  | disturb feed next => exact h

theorem hasEntries_run (h : v.view.HasEntries collection)
    (hmode : v.view.mode = .documents ("/" ++ collection)) (actions : List ViewAction) :
    (v.run actions).view.HasEntries collection := by
  induction actions generalizing v with
  | nil => exact h
  | cons action rest ih =>
      exact ih (hasEntries_act h hmode action) ((v.mode_act action).trans hmode)

/-- Two documents, of one collection or of two whose names have no opening parenthesis, have the
same path only if they are one document. So after any actions on a view of a collection every
context in it stands for one document of the collection, and the next change puts a new entry
before that of the document that it names, or at the end if there is none, or takes out that of
the document that it names, if there is one; all other entries stay as they are, in their
order. -/
theorem entries_found_by_path (collection : String) (cache : ContextCache)
    (actions : List ViewAction) :
    (∀ (other : String) (a b : DocumentId), '(' ∉ collection.toList → '(' ∉ other.toList →
      (documentPath ("/" ++ collection) a = documentPath ("/" ++ other) b ↔
        collection = other ∧ a = b)) ∧
      let v := (start (.documents ("/" ++ collection)) cache).run actions
      ∃ entries, AreEntered collection entries v.view.contexts ∧
        (∀ others, AreEntered collection others v.view.contexts → others = entries) ∧
        (.destroy ∉ actions → ∀ event,
          AreEntered collection
            (entriesAfter entries
              (v.cache.getOrCreate (documentPath ("/" ++ collection) event.id)).1 event)
            (v.act (.apply event)).2.view.contexts) := by
  refine ⟨fun other a b hcollection hother => Components.pathOf_inj_iff hcollection hother, ?_⟩
  intro v
  have hmode : v.view.mode = .documents ("/" ++ collection) := mode_run _ actions
  obtain ⟨entries, hentries⟩ : v.view.HasEntries collection :=
    hasEntries_run (hasEntries_of_nil rfl) rfl actions
  refine ⟨entries, hentries, fun others hothers => hentries.eq hothers, fun hkept event => ?_⟩
  have hdestroyed : v.view.isDestroyed ≠ true := by
    rw [Ne, isDestroyed_run]
    exact not_or.mpr ⟨hkept, Bool.false_ne_true⟩
  have hcontexts := contexts_apply hdestroyed v.cache event
  rw [hmode] at hcontexts
  exact hcontexts ▸ hentries.after v.cache event

/-- A plain id that reads like an object id stands before that object id, and stays when the
object id is removed; and a collection of another name has its own path for it. -/
theorem entries_found_by_path_lookalike :
    let hex := DocumentId.objectId "5f"
    let plain := DocumentId.plain "ObjectID(\"5f\")"
    let v := (start (.documents "/notes") .empty).run
      [.apply (.added hex .null none), .apply (.added plain .null (some hex))]
    documentPath "/notes" hex ≠ documentPath "/notes" plain ∧
      documentPath "/notes" hex ≠ documentPath "/notes)" hex ∧
      v.view.contexts.map Context.path =
        ["/notes('ObjectID(\"5f\")')", "/notes(ObjectID(\"5f\"))"] ∧
      (v.act (.apply (.removed hex))).2.view.contexts.map Context.path =
        ["/notes('ObjectID(\"5f\")')"] ∧
      ∃ entries, AreEntered "notes" entries v.view.contexts ∧
        AreEntered "notes" (entries.eraseP fun entry => entry.1 = hex)
          (v.act (.apply (.removed hex))).2.view.contexts := by
  intro hex plain v
  obtain ⟨hpaths, entries, hentries, -, hnext⟩ := entries_found_by_path "notes" .empty
    [.apply (.added hex .null none), .apply (.added plain .null (some hex))]
  refine ⟨fun h => ?_, fun h => ?_, by decide +kernel, by decide +kernel, entries, hentries, ?_⟩
  · have hids := ((hpaths "notes" hex plain (by decide) (by decide)).mp h).2
    exact absurd hids (by decide)
  · have hnames := ((hpaths "notes)" hex hex (by decide) (by decide)).mp h).1
    exact absurd hnames (by decide)
  · exact hnext (by simp) (.removed hex)

end Viewing

end LiveDocuments
