import LiveDocuments.Proofs.Binding.Limits
import LiveDocuments.Proofs.Model.PlainReading
import LiveDocuments.Proofs.Path.Elements

/-!
# Where a list of elements gets its items

A list of elements keeps the path it resolved, the components that path was read as and the
query for them (`ElementList.Sited`), whatever is asked of it. So the document it finds is the
one that is read for those components (`ElementList.Sited.toOption_readDocument`), and the
context of each item leads back to the item (`ElementList.getProperty_element`).
-/

namespace LiveDocuments

open Model

/-- The context that is handed out for a path is held for it in the end. -/
theorem ContextCache.getElem?_getOrCreateAll (cache : ContextCache) {requested : List String}
    {path : String} {index : Nat} (h : requested[index]? = some path) :
    ∃ context, (cache.getOrCreateAll requested).1[index]? = some context ∧
      (cache.getOrCreateAll requested).2.get? path = some context := by
  induction requested generalizing cache index with
  | nil => cases h
  | cons first rest ih =>
      rw [getOrCreateAll_cons]
      cases index with
      | zero =>
          obtain rfl : first = path := Option.some.inj h
          exact ⟨_, rfl, get?_getOrCreateAll (cache.get?_getOrCreate_self first)⟩
      | succ index => exact ih _ h

namespace ElementList

variable {b : ElementList} {m n : Model} {config : Config}

/-! ## What a list finds -/

/-- The first document that a list finds for its path; none without a query. -/
def found? (b : ElementList) (m : Model) : Option Json :=
  b.core.cursor.bind fun cursor => (m.first cursor).1.toOption.join

theorem exists_first_of_found? {document : Json} (h : b.found? m = some document) :
    ∃ cursor, b.core.cursor = some cursor ∧ (m.first cursor).1 = .ok (some document) := by
  obtain ⟨cursor, hcursor, hanswer⟩ := Option.bind_eq_some_iff.mp h
  refine ⟨cursor, hcursor, ?_⟩
  rcases hfirst : (m.first cursor).1 with e | _ | other <;> rw [hfirst] at hanswer <;>
    cases hanswer
  rfl

theorem items_eq (b : ElementList) (m : Model) :
    b.items m = itemsOf ((b.found? m).bind fun document =>
      valueAt document b.components.property) := by
  unfold items found?
  cases b.core.cursor with
  | none => rfl
  | some cursor =>
      simp only [Option.bind_some]
      rcases (m.first cursor).1 with e | _ | document <;> rfl

/-- A list is asked for what it finds by a query, unless its collection is unknown. -/
def IsQueried (b : ElementList) (m : Model) : Prop :=
  b.core.cursor.isSome ∨ m.store.hasCollection b.components.collection = false

/-! ## What a list keeps -/

/-- A list knows where its path leads under its parent, and asks for what is there. -/
structure Sited (b : ElementList) (config : Config) : Prop where
  resolved : Path.resolve config.legacySyntax b.path (some b.parent.path) = some b.resolved
  components : Components.ofPath b.resolved = .ok b.components
  cursor : ∀ cursor ∈ b.core.cursor, cursor =
    ⟨b.components.collection, (compileQuery b.components [] [] config.sizeLimit).value⟩

end ElementList

theorem Model.cursor_of_subscribe {m n : Model} {c : Components} {sorters : List Sorter}
    {filters : List Filter} {binding : BindingId} {cursor : Cursor} {subscription : Subscription}
    (h : m.subscribe c sorters filters binding = (.ok (cursor, subscription), n)) :
    cursor = ⟨c.collection, (compileQuery c sorters filters m.config.sizeLimit).value⟩ := by
  unfold subscribe at h
  split at h
  · cases h
  · next heq =>
      obtain rfl := cursor_of_query heq
      split at h
      · cases h
      · cases h
        rfl

/-- The cursor of a new query is the one that its components compile to. -/
theorem QueryCore.cursor_run {core : QueryCore} (h : core.isDestroyed = false) {m : Model}
    {c : Components} {sorters : List Sorter} {filters : List Filter} {cursor : Cursor}
    (hcursor : cursor ∈ (core.run m c sorters filters).1.cursor) :
    cursor = ⟨c.collection, (compileQuery c sorters filters m.config.sizeLimit).value⟩ := by
  rw [run_of_inUse h] at hcursor
  split at hcursor
  · next made subscription n heq =>
      rw [(query_process _ n).1] at hcursor
      obtain rfl := Option.some.inj hcursor
      rw [cursor_of_subscribe heq, (core.keeps_asking m).config]
  · cases hcursor

theorem QueryCore.isSome_cursor_run {core : QueryCore} (h : core.isDestroyed = false) {m : Model}
    {c : Components} {sorters : List Sorter} {filters : List Filter}
    (hgrants : m.grants c sorters filters = true) :
    (core.run m c sorters filters).1.cursor.isSome := by
  rw [← (core.keeps_asking m).grants_eq] at hgrants
  obtain ⟨cursor, subscription, n, hsubscribe, -, -⟩ := subscribe_of_grants hgrants core.id
  simp only [run_of_inUse h, hsubscribe, (query_process _ n).1, Option.isSome_some]

/-- The selector for the documents that components name is one that stores accept. -/
theorem isOk_compile_compileQuery (c : Components) (limit : Nat) :
    (Selector.compile (compileQuery c [] [] limit).value.selector).isOk = true := by
  cases hid : c.documentId with
  | some id => rw [query_of_id hid, Store.queryById, compile_single_id]; rfl
  | none =>
      have hselector : (compileQuery c [] [] limit).value.selector = .object [] := by
        simp only [compileQuery, selectorFor, hid]
        rfl
      rw [hselector]
      rfl

namespace ElementList

variable {b : ElementList} {m n : Model} {config : Config}

theorem sited_create {path : String} {parent : Context} {sorters : List Sorter}
    {filters : List Filter} (h : (create m path parent sorters filters).1 = .ok b) :
    b.Sited m.config := by
  cases hcomponents : m.componentsOf path (some parent) with
  | error e =>
      simp only [create, Model.components, hcomponents] at h
      cases h
  | ok c =>
      obtain ⟨resolved, hresolve, hc⟩ :
          ∃ resolved, m.resolve path (some parent) = some resolved ∧
            Components.ofPath resolved = .ok c := by
        unfold componentsOf at hcomponents
        split at hcomponents
        · cases hcomponents
        · exact ⟨_, ‹_›, hcomponents⟩
      have hrun : ∀ cursor ∈ ((QueryCore.create m .elements).1.run
          (QueryCore.create m .elements).2 c [] []).1.cursor,
          cursor = ⟨c.collection, (compileQuery c [] [] m.config.sizeLimit).value⟩ :=
        fun cursor => QueryCore.cursor_run rfl
      simp only [create, Model.components, hcomponents, hresolve, Option.getD_some] at h
      split at h
      · cases h
        exact ⟨hresolve, hc, hrun⟩
      · cases h
        exact ⟨hresolve, hc, fun cursor hcursor => (Option.not_mem_none cursor hcursor).elim⟩

theorem Sited.act (h : b.Sited m.config) (request : BindingAction) {next : ElementList}
    (hnext : ((Binding.list (.elements b)).act m request).1 = .list (.elements next)) :
    next.Sited m.config := by
  cases request with
  | process =>
      cases hnext
      exact ⟨h.resolved, h.components, fun cursor hcursor =>
        h.cursor cursor ((b.core.query_process m).1 ▸ hcursor)⟩
  | refresh force =>
      obtain rfl : (b.refresh m force).1 = next :=
        ListBinding.elements.inj (Binding.list.inj hnext)
      unfold refresh
      split
      · next hforced =>
          simp only [Bool.and_eq_true, Bool.not_eq_true'] at hforced
          exact ⟨h.resolved, h.components, fun cursor hcursor =>
            QueryCore.cursor_run hforced.2 hcursor⟩
      · exact h
  | destroy =>
      cases hnext
      exact ⟨h.resolved, h.components, fun cursor hcursor =>
        (Option.not_mem_none cursor hcursor).elim⟩
  | getContexts start length =>
      cases hnext
      exact ⟨h.resolved, h.components, h.cursor⟩
  | _ =>
      cases hnext
      exact h

theorem Sited.resolve (h : b.Sited m.config) :
    m.resolve b.path (some b.parent) = some b.resolved := h.resolved

theorem Sited.found?_of_unknown (h : b.Sited config)
    (hcollection : m.store.hasCollection b.components.collection = false) :
    b.found? m = none := by
  refine Option.eq_none_iff_forall_ne_some.mpr fun document hfound => ?_
  obtain ⟨cursor, hcursor, hfirst⟩ := exists_first_of_found? hfound
  have hknown := hasCollection_of_first hfirst
  rw [h.cursor cursor hcursor, hcollection] at hknown
  cases hknown

theorem Sited.toOption_readDocument (h : b.Sited m.config) (halive : m.destroyed = false)
    (hqueried : b.IsQueried m) (hid : b.components.documentId.isSome) :
    (m.readDocument b.components).1.toOption.join = b.found? m := by
  cases hcollection : m.store.hasCollection b.components.collection with
  | false =>
      obtain ⟨n, hread⟩ := exists_readDocument_of_unknown halive hid hcollection
      rw [hread, h.found?_of_unknown hcollection]
      rfl
  | true =>
      obtain ⟨cursor, hcursor⟩ := Option.isSome_iff_exists.mp
        (hqueried.resolve_right (by rw [hcollection]; exact Bool.noConfusion))
      obtain ⟨n, hread⟩ := exists_readDocument_of_first halive hid hcollection
      rw [hread, found?, hcursor, Option.bind_some, ← h.cursor cursor hcursor]
      rcases (m.first cursor).1 with e | document <;> rfl

/-- The document that a list finds is the first one that its path names. -/
theorem Sited.found?_eq_firstAt (h : b.Sited m.config) (hqueried : b.IsQueried m)
    (hwilling : m.backend.findRefusal = none) (hroom : 0 < m.config.sizeLimit)
    (hkeyed : Keyed (m.store.documents b.components.collection)) :
    b.found? m = m.store.firstAt b.components := by
  rcases hqueried with hcursor | hunknown
  · obtain ⟨cursor, hcursor⟩ := Option.isSome_iff_exists.mp hcursor
    have hfirst : (m.first cursor).1 = .ok (m.store.firstAt b.components) := by
      rw [← Store.find_compileQuery hkeyed hroom, h.cursor cursor hcursor]
      simp only [first, fetch, Backend.find, hwilling]
      rfl
    rw [found?, hcursor, Option.bind_some, hfirst]
    rfl
  · rw [h.found?_of_unknown hunknown]
    refine (Option.eq_none_iff_forall_ne_some.mpr fun document hdocument => ?_).symm
    have hknown := Store.hasCollection_of_mem (Store.mem_of_firstAt hdocument)
    rw [hunknown] at hknown
    cases hknown

/-! ## A list and a reader -/

/-- A list shows what is read at every path without a lookup that its components are the
components of. -/
theorem Sited.items_eq_itemsAt (h : b.Sited m.config) (halive : m.destroyed = false)
    (hqueried : b.IsQueried m) (hid : b.components.documentId.isSome)
    (hlookup : b.components.hasLookup = false) {path resolved : String}
    {context : Option Context} (hmark : path.toList.head? ≠ some '?')
    (hresolve : m.resolve path context = some resolved)
    (hc : Components.ofPath resolved = .ok b.components) :
    b.items m = m.itemsAt path context := by
  rw [items_eq, itemsAt, getProperty_of_resolve hmark hresolve hc hlookup,
    ← h.toOption_readDocument halive hqueried hid]
  rcases (m.readDocument b.components).1 with e | _ | document <;> rfl

/-- A lookup is listed as the path with a slash in place of its mark is read. -/
theorem Sited.items_of_lookup (h : b.Sited m.config) (halive : m.destroyed = false)
    (hqueried : b.IsQueried m) (hid : b.components.documentId.isSome)
    (hlookup : b.components.hasLookup = false) {rest : List Char}
    (hpath : b.path.toList = '?' :: rest) :
    b.items m = m.itemsAt (String.ofList ('/' :: rest)) (some b.parent) := by
  have hmark : (String.ofList ('/' :: rest)).toList.head? ≠ some '?' := by
    rw [String.toList_ofList]
    simp
  have hresolve : ∀ {path : String} {cs : List Char}, path.toList = cs →
      Path.beginsAbsolute cs = true → m.resolve path (some b.parent) =
        some (String.ofList (Path.trimTrailingSlashes cs)) := by
    rintro path _ rfl habsolute
    exact Path.resolve_of_isAbsolute habsolute _ _
  have hresolved : b.resolved = String.ofList ('?' :: Path.dropTrailingSlashes rest) :=
    Option.some.inj (h.resolved.symm.trans (hresolve hpath rfl))
  refine h.items_eq_itemsAt halive hqueried hid hlookup hmark
    (hresolve (String.toList_ofList) rfl) ?_
  have hc := h.components
  rw [hresolved] at hc
  rw [Components.ofPath_eq_ok_iff, Components.parse, String.toList_ofList] at hc ⊢
  exact hc

theorem Sited.itemsAt_of_whole (h : b.Sited m.config) (hid : b.components.documentId = none)
    (hmark : b.path.toList.head? ≠ some '?') : m.itemsAt b.path (some b.parent) = [] := by
  have hstep : m.readStep b.path (some b.parent) = (.finished (.ok none), m) := by
    simp only [readStep, if_neg hmark, h.resolve, h.components, readDocument_of_whole hid]
  rw [itemsAt, getProperty, read?, hstep]
  rfl

theorem property_ne_of_found? {document : Json} {items : List Json}
    (hfound : b.found? m = some document)
    (harray : valueAt document b.components.property = some (.array items)) :
    b.components.property ≠ "" := by
  obtain ⟨cursor, -, hfirst⟩ := exists_first_of_found? hfound
  obtain ⟨⟨documents, hfind, hmem⟩, -⟩ := find_of_first (Prod.ext_iff.mpr ⟨hfirst, rfl⟩)
  obtain ⟨fields, rfl⟩ := Store.exists_object_of_find hfind hmem
  intro hempty
  rw [hempty, valueAt_empty] at harray
  cases harray

theorem Sited.readDocument_of_found? (h : b.Sited m.config) (halive : m.destroyed = false)
    (hid : b.components.documentId.isSome) {document : Json}
    (hfound : b.found? m = some document) (hn : m.OnlyAsks n) :
    (n.readDocument b.components).1 = .ok (some document) := by
  have hkept := hn.keeps
  obtain ⟨cursor, hcursor, hfirst⟩ := exists_first_of_found? hfound
  have hmade := h.cursor cursor hcursor
  have hcollection : n.store.hasCollection b.components.collection = true := by
    have hknown := hasCollection_of_first hfirst
    rw [hmade] at hknown
    rw [Store.hasCollection, hkept.collections]
    exact hknown
  obtain ⟨k, hread⟩ :=
    exists_readDocument_of_first (hkept.destroyed.trans halive) hid hcollection
  rw [hread, hkept.config, ← hmade, fst_first_of_onlyAsks hn, hfirst]
  rfl

theorem Sited.getProperty_element (h : b.Sited m.config) (halive : m.destroyed = false)
    (hid : b.components.documentId.isSome) (hlookup : b.components.hasLookup = false)
    {document : Json} {items : List Json} (hfound : b.found? m = some document)
    (harray : valueAt document b.components.property = some (.array items)) (hn : m.OnlyAsks n)
    {context : Context} {index : Nat} (hpath : context.path = elementPath b.resolved index) :
    (n.getProperty "" (some context)).1 = .ok items[index]? := by
  have hproperty := property_ne_of_found? hfound harray
  have hc := Components.ofPath_elementPath h.components hproperty
    (Path.getLast?_tail_of_resolve h.resolved) index
  have hresolve : n.resolve "" (some context) = some (elementPath b.resolved index) :=
    hpath ▸ Path.resolve_empty (hpath ▸ isCanonical_elementPath
      (Components.isAbsolute_of_ofPath h.components) index) _
  have hread : (n.readDocument b.components).1 = .ok (some document) :=
    h.readDocument_of_found? halive hid hfound hn
  rw [getProperty_of_resolve (by decide) hresolve hc
    ((Components.hasLookup_elementPath hproperty index).trans hlookup)]
  show (n.readDocument b.components).1.map _ = _
  rw [hread, Except.map, Option.bind_some, valueAt_elementPath harray]

theorem onlyAsks_getContexts (b : ElementList) (m : Model) (start length : Option Nat) :
    m.OnlyAsks (b.getContexts m start length).2.2 :=
  b.onlyAsks_materialize m

/-- A list that is asked for its contexts holds the cached one of every item it finds. -/
theorem exists_context_of_item (b : ElementList) (m : Model) (start length : Option Nat)
    {index : Nat} (h : index < (b.items m).length) :
    ∃ context, (b.getContexts m start length).2.1.contexts[index]? = some context ∧
      context.path = elementPath b.resolved index ∧
      (b.getContexts m start length).2.2.contexts.get? context.path = some context := by
  have hrequested : (b.itemPaths m)[index]? = some (elementPath b.resolved index) := by
    rw [itemPaths, List.getElem?_map, List.getElem?_range h]
    rfl
  obtain ⟨context, hcontext, hheld⟩ :=
    m.contexts.getElem?_getOrCreateAll hrequested
  obtain ⟨hfirst, hsecond⟩ := b.materialize_eq m
  have hpath : context.path = elementPath b.resolved index := ContextCache.path_of_get? hheld
  refine ⟨context, ?_, hpath, ?_⟩
  · show (b.materialize m).1[index]? = _
    rw [hfirst, hcontext]
  · show (b.materialize m).2.contexts.get? context.path = _
    rw [hpath, hsecond, hheld]

/-! ## New lists -/

theorem isQueried_create {path : String} {parent : Context}
    (h : create m path parent [] [] = (.ok b, n)) (halive : m.destroyed = false)
    (hwilling : m.backend.observeRefusal = none) : b.IsQueried n := by
  cases hcomponents : m.componentsOf path (some parent) with
  | error e =>
      simp only [create, Model.components, hcomponents] at h
      cases h
  | ok c =>
      simp only [create, Model.components, hcomponents] at h
      cases h
      cases hcollection : m.store.hasCollection c.collection with
      | true =>
          have hgrants : m.register.2.grants c [] [] = true := by
            have hselector := isOk_compile_compileQuery c m.config.sizeLimit
            simp only [grants, Bool.and_eq_true, Bool.not_eq_true', Option.isNone_iff_eq_none]
            exact ⟨⟨⟨halive, hcollection⟩, hwilling⟩, hselector⟩
          exact .inl (QueryCore.isSome_cursor_run rfl hgrants)
      | false =>
          have hkept := (QueryCore.create m .elements).1.keeps_run m.register.2 c [] []
          have hunknown : ((QueryCore.create m .elements).1.run
              m.register.2 c [] []).2.store.hasCollection c.collection = false := by
            rw [Store.hasCollection, hkept.collections]
            exact hcollection
          exact .inr hunknown

theorem path_create {path : String} {parent : Context} {sorters : List Sorter}
    {filters : List Filter} (h : (create m path parent sorters filters).1 = .ok b) :
    b.path = path ∧ b.parent = parent := by
  simp only [create] at h
  split at h
  · cases h
  · split at h <;> cases h <;> exact ⟨rfl, rfl⟩

end ElementList

end LiveDocuments
