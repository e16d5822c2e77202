import LiveDocuments.Proofs.Binding.Elements
import LiveDocuments.Proofs.Session.Limits

/-!
# Lists of elements and what is read

In every state of a session the lists of elements know where their paths lead, and the
documents of the store can be told apart (`Session.Sited`). So the contexts that a list makes
lead back to the items it found (`Session.elements_read_back`), and how many there are can be
compared with what is read at the path of the list (`Session.elements_as_read`). The two
agree as long as the path names a document and looks nothing up.
-/

namespace LiveDocuments

open Model

namespace Session

/-- Documents have ids, and every list of elements knows its place. -/
structure Sited (s : Session) : Prop where
  limited : s.Limited
  keyed : ∀ name, Keyed (s.model.store.documents name)
  lists : ∀ id b, (id, .list (.elements b)) ∈ s.bindings → b.Sited s.model.config

theorem sited_start (config : Config) : (start .empty config).Sited :=
  ⟨limited_start config, fun _ => keyed_nil, fun _ _ h => absurd h List.not_mem_nil⟩

theorem documents_act {s : Session} (hm : s.model.store.Consistent) {action : SessionAction}
    (hwrite : ∀ write, action ≠ .write write) (name : String) :
    (s.act action).model.store.documents name = s.model.store.documents name := by
  have hcollections : (s.act action).model.store.collections = s.model.store.collections := by
    cases action with
    | write write => exact absurd rfl (hwrite write)
    | destroy =>
        show s.model.destroy.store.collections = s.model.store.collections
        unfold Model.destroy
        split
        · rfl
        · exact Store.collections_stopAll _ _
    | refuse find observe => rfl
    | _ => exact (spares_act hm (by simp) (by simp) (by simp)).collections
  rw [Store.documents, hcollections, ← Store.documents]

theorem Sited.act {s : Session} (h : s.Sited) (action : SessionAction) :
    (s.act action).Sited := by
  have hconfig := config_act h.limited.orderly action
  refine ⟨h.limited.act action, fun name => ?_, fun id b hentry => ?_⟩
  · by_cases hwrite : ∃ write, action = .write write
    · obtain ⟨write, rfl⟩ := hwrite
      exact (Store.keyed_step (h.keyed name) write.operation).1
    · rw [documents_act h.limited.consistent fun write heq => hwrite ⟨write, heq⟩]
      exact h.keyed name
  · rw [hconfig]
    rcases mem_bindings_act hentry with
      ⟨hold, -⟩ | ⟨made, hmade, heq⟩ | ⟨other, request, asked, rfl, hasked, heq⟩
    · exact h.lists id b hold
    · obtain ⟨-, rfl⟩ := Prod.mk.inj heq
      cases makes_of_made? hmade with
      | elements hcreate => exact ElementList.sited_create hcreate
    · obtain ⟨rfl, hb⟩ := Prod.mk.inj heq
      obtain ⟨e, rfl⟩ := Binding.elements_of_act hb.symm
      exact (h.lists id e (mem_of_binding? hasked)).act request hb.symm

theorem sited_run (config : Config) (actions : List SessionAction) :
    ((start .empty config).run actions).Sited :=
  run_of_act Sited (fun _ => .act) (sited_start config) actions

theorem room_run (config : Config) (actions : List SessionAction) :
    0 < ((start .empty config).run actions).model.config.sizeLimit := by
  rw [config_run]
  exact Config.sizeLimit_normalized_pos config

/-! ## Contexts that lead back -/

/-- In every state of a session whose model is not destroyed, let a list of elements have a path
that names a document and a property that is no lookup. If the first document that it finds has an
array at the property, the list that is asked for its contexts holds one for each item: the cached
context for the resolved path with the index behind it, at which just the item is read. What a
list with a query finds is the document that is stored under the id of its path. -/
theorem elements_read_back (config : Config) (actions : List SessionAction) :
    let s := (start .empty config).run actions
    s.model.destroyed = false → ∀ id b, (id, .list (.elements b)) ∈ s.bindings →
      ∀ key, b.components.documentId = some key → b.components.hasLookup = false →
        (b.core.cursor.isSome → s.model.backend.findRefusal = none →
          b.found? s.model = s.model.store.stored? b.components.collection key) ∧
        ∀ document items, b.found? s.model = some document →
          valueAt document b.components.property = some (.array items) →
          ∀ first length, (b.getContexts s.model first length).2.1.size = items.length ∧
            ∀ index item, items[index]? = some item →
              ∃ context,
                (b.getContexts s.model first length).2.1.contexts[index]? = some context ∧
                context.path = ElementList.elementPath b.resolved index ∧
                (b.getContexts s.model first length).2.2.contexts.get? context.path =
                  some context ∧
                ((b.getContexts s.model first length).2.2.getProperty "" (some context)).1 =
                  .ok (some item) := by
  intro s halive id b hb key hkey hlookup
  have hs : s.Sited := sited_run config actions
  have hsited := hs.lists id b hb
  have hid : b.components.documentId.isSome := Option.isSome_of_eq_some hkey
  constructor
  · intro hcursor hwilling
    rw [hsited.found?_eq_firstAt (.inl hcursor) hwilling (room_run config actions)
      (hs.keyed _), Store.firstAt, hkey]
  · intro document items hfound harray first length
    have hitems : b.items s.model = items := by
      rw [b.items_eq, hfound, Option.bind_some, harray, ElementList.itemsOf]
    refine ⟨hitems ▸ b.size_getContexts s.model first length, fun index item hitem => ?_⟩
    have hindex : index < (b.items s.model).length := by
      rw [hitems]
      exact (List.getElem?_eq_some_iff.mp hitem).1
    obtain ⟨context, hcontext, hpath, hheld⟩ :=
      b.exists_context_of_item s.model first length hindex
    refine ⟨context, hcontext, hpath, hheld, ?_⟩
    rw [hsited.getProperty_element halive hid hlookup hfound harray
      (b.onlyAsks_getContexts s.model first length) hpath, hitem]

/-- The list of elements under a number. -/
def elementList? (s : Session) (id : BindingId) : Option ElementList :=
  match s.binding? id with
  | some (.list (.elements b)) => some b
  | _ => none

theorem mem_of_elementList? {s : Session} {id : BindingId} {b : ElementList}
    (h : s.elementList? id = some b) : (id, .list (.elements b)) ∈ s.bindings := by
  unfold elementList? at h
  split at h
  · next hbinding =>
      obtain rfl := Option.some.inj h
      exact mem_of_binding? hbinding
  · cases h

/-- An order with a line that has tags. -/
def taggedOrder : SessionAction :=
  .write (.insert "Orders" (.object [("_id", .string "o1"),
    ("lines", .array [.object [("tags", .array [.string "new", .string "gift"])]])]))

/-- The order, and the list of the tags of its line. -/
def taggedLine : List SessionAction :=
  [taggedOrder, .bindList "lines[0]/tags" (some ⟨"/Orders(o1)", 0⟩) [] []]

/-- The second tag is read under the second context, with an index within its path. -/
theorem elements_read_back_taggedLine :
    ∃ b context, (0, .list (.elements b)) ∈ ((start .empty .default).run taggedLine).bindings ∧
      (b.getContexts ((start .empty .default).run taggedLine).model none none).2.1.contexts[1]? =
        some context ∧
      context.path = "/Orders(o1)/lines[0]/tags[1]" ∧
      ((b.getContexts ((start .empty .default).run taggedLine).model none none).2.2.getProperty ""
        (some context)).1 = .ok (some (.string "gift")) := by
  obtain ⟨b, hb⟩ := Option.isSome_iff_exists.mp
    (by decide +kernel : (((start .empty .default).run taggedLine).elementList? 0).isSome)
  have hcomponents : (((start .empty .default).run taggedLine).elementList? 0).map
      ElementList.components = some ⟨"Orders", some (.plain "o1"), "lines[0].tags"⟩ := by
    decide +kernel
  have hresolved : (((start .empty .default).run taggedLine).elementList? 0).map
      ElementList.resolved = some "/Orders(o1)/lines[0]/tags" := by decide +kernel
  have hfound : (((start .empty .default).run taggedLine).elementList? 0).bind
      (·.found? ((start .empty .default).run taggedLine).model) = some (.object
        [("_id", .string "o1"),
          ("lines", .array [.object [("tags", .array [.string "new", .string "gift"])]])]) := by
    decide +kernel
  rw [hb] at hcomponents hresolved hfound
  have hc := Option.some.inj hcomponents
  have hplace := Option.some.inj hresolved
  obtain ⟨-, hread⟩ := elements_read_back .default taggedLine (by decide +kernel) 0 b
    (mem_of_elementList? hb) (.plain "o1") (by rw [hc]) (by rw [hc]; decide)
  obtain ⟨-, hitems⟩ := hread _ [.string "new", .string "gift"] hfound (by rw [hc]; decide +kernel)
    none none
  obtain ⟨context, hcontext, hpath, -, hvalue⟩ := hitems 1 (.string "gift") rfl
  refine ⟨b, context, mem_of_elementList? hb, hcontext, ?_, hvalue⟩
  rw [hpath, hplace]
  decide

/-! ## Lists and readers -/

theorem isQueried_bindList {s t : Session} (halive : s.model.destroyed = false)
    (hwilling : s.model.backend.observeRefusal = none) {path : String} {parent : Context}
    {id : BindingId} (h : s.bindList path (some parent) [] [] = (.ok id, t)) :
    ∃ b, (id, .list (.elements b)) ∈ t.bindings ∧ b.path = path ∧ b.parent = parent ∧
      b.IsQueried t.model := by
  simp only [bindList, ListBinding.create] at h
  rcases hcreate : ElementList.create s.model path parent [] [] with ⟨e | b, n⟩
  · rw [hcreate] at h
    cases h
  · rw [hcreate] at h
    cases h
    obtain ⟨hpath, hparent⟩ := ElementList.path_create (Prod.ext_iff.mp hcreate).1
    refine ⟨b, List.mem_append_right _ (List.mem_singleton.mpr rfl), hpath, hparent, ?_⟩
    exact ElementList.isQueried_create hcreate halive hwilling

/-- In every state of a session whose model is not destroyed, a new list of elements has a query
if its collection is known, unless the store refuses one. Whatever happens later, a list with a
query that is asked for its contexts holds one for each item of the array at its property, taken
as it is written, in the first document that its path names. At a path that is no lookup and names
a document and a property that is no lookup, this is the array that is read, and where none is
read the list holds no contexts. But nothing is read at a path without a document, whatever the
list shows for it; and a lookup is listed as the path with a slash in place of its mark is
read. -/
theorem elements_as_read (config : Config) (actions : List SessionAction) :
    let s := (start .empty config).run actions
    s.model.destroyed = false →
    (s.model.backend.observeRefusal = none → ∀ path parent id t,
      s.bindList path (some parent) [] [] = (.ok id, t) →
        ∃ b, (id, .list (.elements b)) ∈ t.bindings ∧ b.path = path ∧ b.parent = parent ∧
          b.IsQueried t.model) ∧
    ∀ id b, (id, .list (.elements b)) ∈ s.bindings → b.IsQueried s.model → ∀ first length,
      let shown := (b.getContexts s.model first length).2.1.size
      (s.model.backend.findRefusal = none → shown = (ElementList.itemsOf
        ((s.model.store.firstAt b.components).bind fun document =>
          valueAt document b.components.property)).length) ∧
      (b.path.toList.head? ≠ some '?' → b.components.documentId.isSome →
        b.components.hasLookup = false →
          shown = (s.model.itemsAt b.path (some b.parent)).length) ∧
      (b.path.toList.head? ≠ some '?' → b.components.documentId = none →
        s.model.itemsAt b.path (some b.parent) = []) ∧
      (∀ rest, b.path.toList = '?' :: rest → b.components.documentId.isSome →
        b.components.hasLookup = false →
          shown = (s.model.itemsAt (String.ofList ('/' :: rest)) (some b.parent)).length) := by
  intro s halive
  have hs : s.Sited := sited_run config actions
  refine ⟨fun hwilling path parent id t hbind => isQueried_bindList halive hwilling hbind,
    fun id b hb hqueried first length => ?_⟩
  intro shown
  have hsited := hs.lists id b hb
  have hshown : shown = (b.items s.model).length := b.size_getContexts s.model first length
  refine ⟨fun hwilling => ?_, fun hmark hid hlookup => ?_,
    fun hmark hid => hsited.itemsAt_of_whole hid hmark, fun rest hpath hid hlookup => ?_⟩
  · rw [hshown, b.items_eq, hsited.found?_eq_firstAt hqueried hwilling
      (room_run config actions) (hs.keyed _)]
  · rw [hshown, hsited.items_eq_itemsAt halive hqueried hid hlookup hmark hsited.resolve
      hsited.components]
  · rw [hshown, hsited.items_of_lookup halive hqueried hid hlookup hpath]

/-- A new list for the tags of a line has a query, and shows as many as are read. -/
theorem elements_as_read_taggedLine :
    (∃ t b, ((start .empty .default).run [taggedOrder]).bindList "lines[0]/tags"
        (some ⟨"/Orders(o1)", 0⟩) [] [] = (.ok 0, t) ∧
      (0, .list (.elements b)) ∈ t.bindings ∧ b.IsQueried t.model) ∧
    ∃ b, (0, .list (.elements b)) ∈ ((start .empty .default).run taggedLine).bindings ∧
      (b.getContexts ((start .empty .default).run taggedLine).model none none).2.1.size = 2 ∧
      (((start .empty .default).run taggedLine).model.itemsAt "lines[0]/tags"
        (some ⟨"/Orders(o1)", 0⟩)).length = 2 := by
  constructor
  · have hmade : (((start .empty .default).run [taggedOrder]).bindList "lines[0]/tags"
        (some ⟨"/Orders(o1)", 0⟩) [] []).1 = .ok 0 := by decide +kernel
    rcases hbind : ((start .empty .default).run [taggedOrder]).bindList "lines[0]/tags"
        (some ⟨"/Orders(o1)", 0⟩) [] [] with ⟨result, t⟩
    rw [hbind] at hmade
    obtain rfl : result = .ok 0 := hmade
    obtain ⟨hnew, -⟩ := elements_as_read .default [taggedOrder] (by decide +kernel)
    obtain ⟨b, hb, -, -, hqueried⟩ := hnew (by decide +kernel) _ _ 0 t hbind
    exact ⟨t, b, rfl, hb, hqueried⟩
  · obtain ⟨b, hb⟩ := Option.isSome_iff_exists.mp
      (by decide +kernel : (((start .empty .default).run taggedLine).elementList? 0).isSome)
    have hplace : (((start .empty .default).run taggedLine).elementList? 0).map
        (fun b => (b.path, b.parent, b.components, b.core.cursor.isSome)) =
          some ("lines[0]/tags", ⟨"/Orders(o1)", 0⟩,
            ⟨"Orders", some (.plain "o1"), "lines[0].tags"⟩, true) := by
      decide +kernel
    have hsize : (((start .empty .default).run taggedLine).elementList? 0).map
        (fun b => (b.getContexts ((start .empty .default).run taggedLine).model none none).2.1.size)
          = some 2 := by
      decide +kernel
    rw [hb] at hplace hsize
    obtain ⟨hpath, hparent, hc, hcursor⟩ : b.path = "lines[0]/tags" ∧
        b.parent = ⟨"/Orders(o1)", 0⟩ ∧
        b.components = ⟨"Orders", some (.plain "o1"), "lines[0].tags"⟩ ∧
        b.core.cursor.isSome = true := by simpa using hplace
    obtain ⟨-, hread, -, -⟩ := (elements_as_read .default taggedLine (by decide +kernel)).2 0 b
      (mem_of_elementList? hb) (.inl hcursor) none none
    have hshown := hread (by rw [hpath]; decide) (by rw [hc]; rfl) (by rw [hc]; decide)
    rw [hpath, hparent] at hshown
    have htwo := Option.some.inj hsize
    exact ⟨b, mem_of_elementList? hb, htwo, hshown.symm.trans htwo⟩

/-- A document that names another one, and lists for a collection without a document, for the
tags of the other one by a lookup, and for the same by a lookup within a path. -/
def linkedTags : List SessionAction :=
  [.write (.insert "C" (.object [("_id", .string "a"), ("k", .string "x"),
      ("items", .array [.ofInt 1, .ofInt 2])])),
    .write (.insert "K" (.object [("_id", .string "x"),
      ("tags", .array [.ofInt 1, .ofInt 2])])),
    .bindList "/C/items" (some ⟨"/C(a)", 0⟩) [] [],
    .bindList "?K(k)/tags" (some ⟨"/C(a)", 0⟩) [] [],
    .bindList "/C(a)/?K(k)/tags" (some ⟨"/C(a)", 0⟩) [] []]

/-- The first list shows what is not read, and the two others do not show what is. -/
theorem listed_otherwise_than_read :
    let s := (start .empty .default).run linkedTags
    let shown := fun id => (s.elementList? id).map fun b =>
      (b.getContexts s.model none none).2.1.size
    let read := fun path => (s.model.getProperty path (some ⟨"/C(a)", 0⟩)).1
    (shown 0 = some 2 ∧ read "/C/items" = .ok none) ∧
      (shown 1 = some 0 ∧ read "?K(k)/tags" = .ok (some (.array [.ofInt 1, .ofInt 2]))) ∧
      (shown 2 = some 0 ∧
        read "/C(a)/?K(k)/tags" = .ok (some (.array [.ofInt 1, .ofInt 2]))) := by
  intro s shown read
  have hread : ∀ {path : String} {result : Except BindingError (Option Json)},
      (s.model.readWithin 2 path (some ⟨"/C(a)", 0⟩)).map Reading.result = some result →
        read path = result := getProperty_of_readWithin
  exact ⟨⟨by decide +kernel, hread (by decide +kernel)⟩,
    ⟨by decide +kernel, hread (by decide +kernel)⟩,
    ⟨by decide +kernel, hread (by decide +kernel)⟩⟩

end Session

end LiveDocuments
