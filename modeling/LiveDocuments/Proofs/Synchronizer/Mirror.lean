import LiveDocuments.Proofs.Model.Basic
import LiveDocuments.Proofs.Path.DocumentPath
import LiveDocuments.Proofs.Store.Replay

/-!
# A view mirrors a strict reader

A view of a collection takes the same changes as a strict reader of the feed, but it
keeps contexts where the reader keeps documents, and it knows them by their paths where
the reader goes by ids. `Lists` ties the two together. As long as the changes are legal
for the reader, the view does with paths what the reader does with ids.
-/

namespace LiveDocuments

open Results

/-! ## Contexts put in and taken out -/

namespace Synchronizer

theorem mem_insertBefore {path : Option String} {context other : Context}
    {contexts : List Context} (h : other ∈ insertBefore path context contexts) :
    other = context ∨ other ∈ contexts := by
  induction contexts with
  | nil => exact .inl (List.mem_singleton.mp h)
  | cons c rest ih =>
      unfold insertBefore at h
      split at h
      · exact List.mem_cons.mp h
      · rcases List.mem_cons.mp h with rfl | hrest
        · exact .inr List.mem_cons_self
        · exact (ih hrest).imp_right (List.mem_cons_of_mem c)

theorem insertBefore_none (context : Context) (contexts : List Context) :
    insertBefore none context contexts = contexts ++ [context] := by
  induction contexts with
  | nil => rfl
  | cons c rest ih =>
      rw [insertBefore, if_neg (by simp), ih]
      rfl

theorem mem_of_mem_eraseFirst {path : String} {contexts : List Context} {other : Context}
    (h : other ∈ eraseFirst path contexts) : other ∈ contexts := by
  induction contexts with
  | nil => exact h
  | cons c rest ih =>
      unfold eraseFirst at h
      split at h
      · exact List.mem_cons_of_mem c h
      · rcases List.mem_cons.mp h with rfl | hrest
        · exact List.mem_cons_self
        · exact List.mem_cons_of_mem c (ih hrest)

theorem map_path_eraseFirst (path : String) (contexts : List Context) :
    (eraseFirst path contexts).map Context.path = (contexts.map Context.path).erase path := by
  induction contexts with
  | nil => rfl
  | cons c rest ih =>
      rw [eraseFirst, List.map_cons, List.erase_cons]
      by_cases h : c.path = path
      · simp [h]
      · simp [h, ih]

end Synchronizer

open Synchronizer

/-! ## The view and the reader -/

/-- The contexts are those of the documents held, in the same order. -/
structure Lists (collection : String) (cache : ContextCache) (contexts : List Context)
    (held : Results) : Prop where
  paths : contexts.map Context.path = (ids held).map (Components.pathOf collection)
  cached : ∀ context ∈ contexts, cache.get? context.path = some context

namespace Lists

variable {collection : String} {cache : ContextCache} {contexts : List Context}
  {held next final : Results}

theorem empty (collection : String) (cache : ContextCache) : Lists collection cache [] [] where
  paths := rfl
  cached := fun _ h => absurd h List.not_mem_nil

/-- Putting a context before that of a document is putting the document there. -/
theorem map_path_insertBefore {before : DocumentId} {entry : DocumentId × Json}
    {context : Context} (hcontext : context.path = Components.pathOf collection entry.1)
    (hpaths : contexts.map Context.path = (ids held).map (Components.pathOf collection))
    (hplace : placeBefore? before entry held = some next) :
    (insertBefore (some (Components.pathOf collection before)) context contexts).map
      Context.path = (ids next).map (Components.pathOf collection) := by
  induction held generalizing contexts next with
  | nil => cases hplace
  | cons first rest ih =>
      cases contexts with
      | nil => cases hpaths
      | cons c others =>
          obtain ⟨hfirst, hothers⟩ := List.cons.inj hpaths
          rw [placeBefore?_cons] at hplace
          by_cases hhere : first.1 = before
          · rw [if_pos hhere] at hplace
            obtain rfl := Option.some.inj hplace
            rw [insertBefore, if_pos (by rw [hfirst, hhere])]
            rw [List.map_cons, List.map_cons, hcontext, hfirst, hothers]
            rfl
          · rw [if_neg hhere] at hplace
            rcases Option.map_eq_some_iff.mp hplace with ⟨more, hmore, rfl⟩
            have hapart : some (Components.pathOf collection before) ≠ some c.path := by
              rw [hfirst]
              intro heq
              exact hhere (Components.pathOf_injective collection (Option.some.inj heq)).symm
            rw [insertBefore, if_neg hapart, List.map_cons, ih hothers hmore, hfirst]
            rfl

theorem apply (h : Lists collection cache contexts held) (hheld : (ids held).Nodup)
    {event : ChangeEvent} (hlegal : receive? held event = some next) :
    Lists collection (contextsAfter (.documents ("/" ++ collection)) cache contexts event).2
      (contextsAfter (.documents ("/" ++ collection)) cache contexts event).1 next := by
  cases event with
  | added id document before =>
      simp only [receive?] at hlegal
      split at hlegal
      · cases hlegal
      simp only [contextsAfter, documentPath_eq]
      have hpath : (cache.getOrCreate (Components.pathOf collection id)).1.path =
          Components.pathOf collection (id, document).1 := cache.path_getOrCreate _
      constructor
      · cases before with
        | none =>
            obtain rfl := Option.some.inj hlegal
            rw [Option.map_none, insertBefore_none, List.map_append, h.paths]
            simp
        | some other =>
            rw [Option.map_some]
            exact map_path_insertBefore hpath h.paths hlegal
      · intro context hcontext
        rcases mem_insertBefore hcontext with rfl | hold
        · rw [hpath]
          exact cache.get?_getOrCreate_self _
        · exact ContextCache.get?_getOrCreate (h.cached context hold)
  | changed id document =>
      simp only [receive?] at hlegal
      split at hlegal
      · obtain rfl := Option.some.inj hlegal
        exact ⟨by rw [ids_revise]; exact h.paths, h.cached⟩
      · cases hlegal
  | removed id =>
      simp only [receive?] at hlegal
      split at hlegal
      · obtain rfl := Option.some.inj hlegal
        simp only [contextsAfter, documentPath_eq]
        constructor
        · have herase : ids (discard id held) = (ids held).erase id := by
            rw [ids_discard, hheld.erase_eq_filter]
            apply List.filter_congr
            intro other _
            exact Bool.eq_iff_iff.mpr (by simp)
          rw [map_path_eraseFirst, h.paths, herase,
            List.map_erase fun _ _ => Components.pathOf_injective collection]
        · exact fun context hcontext => h.cached context (mem_of_mem_eraseFirst hcontext)
      · cases hlegal

/-- A view takes changes that are legal for a reader, and neither what it shows nor its
subscription changes by that. -/
theorem applyAll {limit : Nat} {s : Synchronizer} {events : List ChangeEvent}
    (hmode : s.mode = .documents ("/" ++ collection)) (hphase : s.isDestroyed = false)
    (h : Lists collection cache s.contexts held) (hheld : (ids held).Nodup)
    (hreplays : Replays limit held events final) :
    Lists collection (s.applyAll cache events).2.2 (s.applyAll cache events).2.1.contexts
        final ∧
      (s.applyAll cache events).2.1.mode = s.mode ∧
      (s.applyAll cache events).2.1.phase = s.phase := by
  induction hreplays generalizing s cache with
  | nil _ => exact ⟨h, rfl, rfl⟩
  | @cons held next final event rest _ hlegal _ ih =>
      have happly : s.apply cache event = (notificationsOf s.mode event,
          { s with contexts := (contextsAfter s.mode cache s.contexts event).1 },
          (contextsAfter s.mode cache s.contexts event).2) := by
        rw [Synchronizer.apply, hphase]
        rfl
      rw [Synchronizer.applyAll, happly]
      have hnext := h.apply hheld hlegal
      rw [← hmode] at hnext
      exact ih hmode hphase hnext (nodup_receive? hheld hlegal)

end Lists

end LiveDocuments
