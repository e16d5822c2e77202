import LiveDocuments.Model.Basic
import LiveDocuments.Proofs.Store.Run

/-!
# What a model remembers and raises

A model hands out contexts from its cache, one for each path, and never takes one back.
Much of what it does besides only raises events, which no later step looks at
(`Model.OnlyRaises`).
-/

namespace LiveDocuments

/-! ## The cache of contexts -/

namespace ContextCache

theorem path_of_get? {cache : ContextCache} {path : String} {context : Context}
    (h : cache.get? path = some context) : context.path = path := by
  have := List.find?_some h
  simpa using this

@[simp] theorem path_getOrCreate (cache : ContextCache) (path : String) :
    (cache.getOrCreate path).1.path = path := by
  unfold getOrCreate
  split
  · next h => exact path_of_get? h
  · rfl

theorem get?_getOrCreate_self (cache : ContextCache) (path : String) :
    (cache.getOrCreate path).2.get? path = some (cache.getOrCreate path).1 := by
  unfold getOrCreate
  split
  · next h => exact h
  · next h =>
      have hnone : cache.entries.find? (fun c => c.path = path) = none := h
      simp [get?, List.find?_append, hnone]

theorem get?_getOrCreate {cache : ContextCache} {path other : String} {context : Context}
    (h : cache.get? other = some context) :
    (cache.getOrCreate path).2.get? other = some context := by
  unfold getOrCreate
  split
  · exact h
  · have hsome : cache.entries.find? (fun c => c.path = other) = some context := h
    simp [get?, List.find?_append, hsome]

theorem mem_getOrCreate {cache : ContextCache} {path : String} {context : Context}
    (h : context ∈ (cache.getOrCreate path).2.entries) :
    context ∈ cache.entries ∨ context.path = path := by
  unfold getOrCreate at h
  split at h
  · exact .inl h
  · exact (List.mem_append.mp h).imp_right fun hnew => by rw [List.mem_singleton.mp hnew]

theorem nodup_getOrCreate {cache : ContextCache}
    (h : (cache.entries.map Context.path).Nodup) (path : String) :
    ((cache.getOrCreate path).2.entries.map Context.path).Nodup := by
  unfold getOrCreate
  split
  · exact h
  · next hnone =>
      rw [List.map_append]
      refine List.nodup_append.mpr ⟨h, List.nodup_singleton _, ?_⟩
      intro held hheld other hother heq
      obtain rfl := List.mem_singleton.mp hother
      rcases List.mem_map.mp hheld with ⟨context, hcontext, rfl⟩
      have hmiss := List.find?_eq_none.mp hnone context hcontext
      exact hmiss (decide_eq_true heq)

end ContextCache

/-! ## Faults of paths -/

/-- Whether an error tells that a path cannot be followed. -/
def BindingError.IsPathFault (e : BindingError) : Prop := ∃ path fault, e = .pathFault path fault

theorem Components.isPathFault_of_ofPath {path : String} {e : BindingError}
    (h : ofPath path = .error e) : e.IsPathFault := by
  unfold ofPath at h
  split at h
  · cases h
  · exact ⟨path, _, (Except.error.inj h).symm⟩

namespace Model

theorem isPathFault_of_componentsOf {m : Model} {path : String} {context : Option Context}
    {e : BindingError} (h : m.componentsOf path context = .error e) : e.IsPathFault := by
  unfold componentsOf at h
  split at h
  · exact ⟨path, _, (Except.error.inj h).symm⟩
  · exact Components.isPathFault_of_ofPath h

/-! ## Raising events -/

/-- The second model differs from the first in what has been raised, if at all. -/
def OnlyRaises (m n : Model) : Prop := ∃ emitted, n = { m with emitted := emitted }

namespace OnlyRaises

theorem refl (m : Model) : OnlyRaises m m := ⟨m.emitted, rfl⟩

theorem trans {m n k : Model} (hmn : OnlyRaises m n) (hnk : OnlyRaises n k) :
    OnlyRaises m k := by
  rcases hmn with ⟨_, rfl⟩
  rcases hnk with ⟨emitted, rfl⟩
  exact ⟨emitted, rfl⟩

theorem emit (m : Model) (e : Emission) : OnlyRaises m (m.emit e) := ⟨_, rfl⟩

theorem foldl {α : Type} {f : Model → α → Model} (hf : ∀ m a, OnlyRaises m (f m a))
    (m : Model) (as : List α) : OnlyRaises m (as.foldl f m) := by
  induction as generalizing m with
  | nil => exact refl m
  | cons a rest ih => exact (hf m a).trans (ih (f m a))

theorem report (m : Model) (error : BindingError) (binding : Option BindingId) :
    OnlyRaises m (m.report error binding) := by
  cases binding with
  | none => exact emit m _
  | some id => exact (emit m _).trans (emit _ _)

theorem reportAll (m : Model) (errors : List BindingError) (binding : Option BindingId) :
    OnlyRaises m (m.reportAll errors binding) :=
  foldl (fun m error => report m error binding) m errors

theorem refresh (m : Model) : OnlyRaises m m.refresh :=
  (foldl (fun m _ => emit m _) m m.members).trans (emit _ _)

theorem query (m : Model) (c : Components) (sorters : List Sorter) (filters : List Filter)
    (binding : Option BindingId) : OnlyRaises m (m.query c sorters filters binding).2 := by
  unfold Model.query
  split
  · exact refl m
  split
  · exact reportAll m _ binding
  · exact report m _ binding

end OnlyRaises

theorem query_of_known {m : Model} (halive : m.destroyed = false) {c : Components}
    (hcollection : m.store.hasCollection c.collection = true) (sorters : List Sorter)
    (filters : List Filter) (binding : Option BindingId) :
    m.query c sorters filters binding =
      (.ok ⟨c.collection, (compileQuery c sorters filters m.config.sizeLimit).value⟩,
        m.reportAll (compileQuery c sorters filters m.config.sizeLimit).diagnostics binding) := by
  rw [query, if_neg (Bool.eq_false_iff.mp halive), if_pos hcollection]

theorem query_of_unknown {m : Model} (halive : m.destroyed = false) {c : Components}
    (hcollection : m.store.hasCollection c.collection = false) (sorters : List Sorter)
    (filters : List Filter) (binding : Option BindingId) :
    m.query c sorters filters binding = (.error (.unknownCollection c.collection),
      m.report (.unknownCollection c.collection) binding) := by
  rw [query, if_neg (Bool.eq_false_iff.mp halive), if_neg (Bool.eq_false_iff.mp hcollection)]

theorem cursor_of_query {m n : Model} {c : Components} {sorters : List Sorter}
    {filters : List Filter} {binding : Option BindingId} {cursor : Cursor}
    (h : m.query c sorters filters binding = (.ok cursor, n)) :
    cursor = ⟨c.collection, (compileQuery c sorters filters m.config.sizeLimit).value⟩ := by
  unfold query at h
  split at h
  · cases h
  split at h
  · exact (Except.ok.inj (Prod.mk.inj h).1).symm
  · cases h

/-! ## What following queries leaves alone -/

/-- The second model has the documents, the settings and the refusals of the first, and its
store is in order if that of the first was. -/
structure Keeps (m n : Model) : Prop where
  collections : n.store.collections = m.store.collections
  consistent : m.store.Consistent → n.store.Consistent
  config : n.config = m.config
  destroyed : n.destroyed = m.destroyed
  findRefusal : n.backend.findRefusal = m.backend.findRefusal
  observeRefusal : n.backend.observeRefusal = m.backend.observeRefusal

namespace Keeps

theorem refl (m : Model) : Keeps m m := ⟨rfl, id, rfl, rfl, rfl, rfl⟩

theorem trans {m n k : Model} (hmn : Keeps m n) (hnk : Keeps n k) : Keeps m k where
  collections := hnk.collections.trans hmn.collections
  consistent := fun h => hnk.consistent (hmn.consistent h)
  config := hnk.config.trans hmn.config
  destroyed := hnk.destroyed.trans hmn.destroyed
  findRefusal := hnk.findRefusal.trans hmn.findRefusal
  observeRefusal := hnk.observeRefusal.trans hmn.observeRefusal

theorem of_onlyRaises {m n : Model} (h : OnlyRaises m n) : Keeps m n := by
  rcases h with ⟨_, rfl⟩
  exact ⟨rfl, id, rfl, rfl, rfl, rfl⟩

theorem stopFeeds (m : Model) (feeds : List FeedId) : Keeps m (m.stopFeeds feeds) :=
  ⟨m.store.collections_stopAll feeds, fun h => h.stopAll feeds, rfl, rfl, rfl, rfl⟩

theorem drain (m : Model) (feed : FeedId) :
    Keeps m (m.withStore (m.store.drain feed).2) :=
  ⟨rfl, fun h => h.requeue feed fun _ => [], rfl, rfl, rfl, rfl⟩

theorem observe (m : Model) (name : String) (query : Query) :
    Keeps m { m with backend := (m.backend.observe name query).2 } := by
  cases hrefusal : m.backend.observeRefusal with
  | some reason =>
      simp only [Backend.observe, hrefusal]
      exact ⟨rfl, id, rfl, rfl, rfl, hrefusal.symm⟩
  | none =>
      cases hobserve : m.backend.store.observe name query with
      | error e =>
          simp only [Backend.observe, hrefusal, hobserve]
          exact ⟨rfl, id, rfl, rfl, rfl, hrefusal.symm⟩
      | ok opened =>
          obtain ⟨feed, s⟩ := opened
          simp only [Backend.observe, hrefusal, hobserve]
          obtain ⟨selector, _, _, rfl⟩ := Store.observe_eq_ok hobserve
          exact ⟨rfl, fun h => h.opening name query selector, rfl, rfl, rfl, hrefusal.symm⟩

theorem subscribe (m : Model) (c : Components) (sorters : List Sorter) (filters : List Filter)
    (binding : BindingId) : Keeps m (m.subscribe c sorters filters binding).2 := by
  have hquery := of_onlyRaises (OnlyRaises.query m c sorters filters (some binding))
  unfold Model.subscribe
  split
  · next h =>
      rw [h] at hquery
      exact hquery
  next cursor n h =>
    rw [h] at hquery
    have hobserve := hquery.trans (observe n cursor.collection cursor.query)
    split <;> next heq =>
      rw [heq] at hobserve
      exact ⟨hobserve.collections, hobserve.consistent, hobserve.config, hobserve.destroyed,
        hobserve.findRefusal, hobserve.observeRefusal⟩

end Keeps

end Model

end LiveDocuments
