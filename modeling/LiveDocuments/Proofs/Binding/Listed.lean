import LiveDocuments.Proofs.Binding.Documents
import LiveDocuments.Proofs.Model.OwnPath

/-!
# Reading what is listed

A list serves a context for each document it lists, and reading the context should give
the document. It does so for every list at all times exactly if the stored value of the
id is the stored form of the id and the id is read back from a path
(`listed_reads_back_iff`).
-/

namespace LiveDocuments

open Results

namespace DocumentList

theorem sound_act {view : DocumentList × Model} (h : view.2.Sound) (action : ListAction) :
    (act view action).2.Sound := by
  cases action with
  | store operation => exact h.step operation
  | filter filters => exact h.of_keeps (keeps_requery { view.1 with filters := filters } view.2)
  | sort sorters => exact h.of_keeps (keeps_requery { view.1 with sorters := sorters } view.2)
  | refresh force =>
      cases force with
      | true => exact h.of_keeps (keeps_requery view.1 view.2)
      | false => exact h.of_keeps (.of_onlyRaises (.emit _ _))
  | process => exact h.of_keeps (QueryCore.keeps_process view.1.core view.2)

/-- A list on a collection and its model at some point of a run of the two. Between what
happens to the list, the model may be put to any other use. -/
inductive Running (collection : String) : DocumentList × Model → Prop where
  | create {start made : Model} {sorters : List Sorter} {filters : List Filter}
      {b : DocumentList} (hstore : start.store.Reachable) (halive : start.destroyed = false)
      (hanswers : start.backend.findRefusal = none)
      (hwilling : start.backend.observeRefusal = none)
      (hroom : 0 < start.config.sizeLimit)
      (hcreate : DocumentList.create start ("/" ++ collection) sorters filters =
        (.ok b, made)) : Running collection (b, made)
  | act {view : DocumentList × Model} (hview : Running collection view) (action : ListAction) :
      Running collection (DocumentList.act view action)
  | aside {list : DocumentList} {m n : Model} (hview : Running collection (list, m))
      (hkeeps : m.Keeps n) : Running collection (list, n)

/-- A list on a collection that has just processed its changes, and its model. -/
def Serving (collection : String) (list : DocumentList) (m : Model) : Prop :=
  ∃ view, Running collection view ∧ act view .process = (list, m)

theorem Running.sound {collection : String} {view : DocumentList × Model}
    (h : Running collection view) : view.2.Sound := by
  induction h with
  | create hstore halive hanswers hwilling hroom hcreate =>
      have hstart : Model.Sound _ := ⟨hstore.consistent, halive, hanswers, hroom⟩
      exact hstart.of_keeps (keeps_create hcreate)
  | act hview action ih => exact sound_act ih action
  | aside hview hkeeps ih => exact ih.of_keeps hkeeps

theorem Serving.sound {collection : String} {list : DocumentList} {m : Model}
    (h : Serving collection list m) : m.Sound := by
  rcases h with ⟨view, hview, hprocess⟩
  have hend := (hview.act .process).sound
  rw [hprocess] at hend
  exact hend

/-! ## A list of one document -/

/-- A document of an id and nothing else. -/
def labelled (value : Json) : Json := .object [(idKey, value)]

/-- A run after which a collection holds nothing but a document of that id. -/
def shelving (collection : String) (value : Json) : List StoreOperation :=
  [.create collection, .insert collection (labelled value)]

theorem get?_labelled (value : Json) : (labelled value).get? idKey = some value := by
  simp [labelled, Json.get?, Json.lookup_cons]

theorem idOf?_labelled {value : Json} {id : DocumentId}
    (hid : DocumentId.ofJson? value = some id) : idOf? (labelled value) = some id := by
  simp [idOf?, get?_labelled, hid]

theorem documents_shelving (collection : String) {value : Json} {id : DocumentId}
    (hid : DocumentId.ofJson? value = some id) (name : String) :
    (Store.empty.run (shelving collection value)).documents name =
      if collection = name then [labelled value] else [] := by
  simp only [shelving, Store.run_cons, Store.run_nil, Store.step, Store.insert,
    idOf?_labelled hid]
  rw [Store.documents_write, Store.documents_createCollection, Store.documents_createCollection]
  rfl

/-- A model over a store with nothing but the document. -/
def shelf (collection : String) (value : Json) : Model :=
  .new (.ofStore (Store.empty.run (shelving collection value))) .default

theorem componentsOf_shelf {collection : String} (value : Json) (hname : collection ≠ "")
    (hslash : '/' ∉ collection.toList) (hparen : '(' ∉ collection.toList) :
    (shelf collection value).componentsOf ("/" ++ collection) none =
      .ok ⟨collection, none, ""⟩ := by
  have hchars : ("/" ++ collection).toList = '/' :: collection.toList := by
    rw [String.toList_append]
    rfl
  have hlast : collection.toList.getLast? ≠ some '/' :=
    fun h => hslash (List.mem_of_getLast? h)
  have hresolve : (shelf collection value).resolve ("/" ++ collection) none =
      some ("/" ++ collection) := by
    have hlocate : Path.locate (shelf collection value).config.legacySyntax
        ('/' :: collection.toList) none = some ('/' :: collection.toList) := rfl
    rw [Model.resolve, Option.map_none, Path.resolve, Option.map_none, hchars, hlocate,
      Option.map_some, Path.trimTrailingSlashes_cons, Path.dropTrailingSlashes_eq_self hlast,
      ← hchars, String.ofList_toList]
  rw [Model.componentsOf, hresolve]
  exact Components.ofPath_collection hname hslash hparen

theorem exists_create_shelf {collection : String} (value : Json) (hname : collection ≠ "")
    (hslash : '/' ∉ collection.toList) (hparen : '(' ∉ collection.toList) :
    ∃ b made, create (shelf collection value) ("/" ++ collection) [] [] = (.ok b, made) ∧
      b.components = ⟨collection, none, ""⟩ ∧ b.sorters = [] ∧ b.filters = [] := by
  have hmade := create_of_componentsOf (componentsOf_shelf value hname hslash hparen) [] []
  refine ⟨_, _, hmade, ?_, ?_, ?_⟩ <;> rw [requery_fst] <;> rfl

theorem find_labelled {s : Store} {collection : String} {value : Json} {id : DocumentId}
    (hid : DocumentId.ofJson? value = some id)
    (hdocuments : s.documents collection = [labelled value]) {limit : Nat} (hlimit : 0 < limit) :
    s.find collection (compileQuery ⟨collection, none, ""⟩ [] [] limit).value =
      .ok [labelled value] := by
  have hselector : Selector.compile (.object []) = .ok (.all []) := rfl
  have hresults : Results.of [labelled value] (.all []) none limit =
      [(id, labelled value)] := by
    have hfound : [labelled value].filter (Selector.all []).accepts = [labelled value] := by
      rw [List.filter_cons_of_pos (by simp), List.filter_nil]
    rw [Results.of, hfound, List.filterMap_cons_some (by rw [withId?, idOf?_labelled hid]; rfl)]
    exact List.take_of_length_le hlimit
  show s.find collection ⟨.object [], limit, none⟩ = _
  rw [Store.find, hselector, hdocuments]
  show Except.ok ((Results.of [labelled value] (.all []) none limit).map Prod.snd) = _
  rw [hresults]
  rfl

/-- A list on the collection that has processed its changes shows the document, and the
store holds no other. -/
theorem exists_process_shelf {collection : String} {value : Json} {id : DocumentId}
    (hname : collection ≠ "") (hslash : '/' ∉ collection.toList)
    (hparen : '(' ∉ collection.toList) (hid : DocumentId.ofJson? value = some id) :
    ∃ b made list m,
      create (shelf collection value) ("/" ++ collection) [] [] = (.ok b, made) ∧
      act (b, made) .process = (list, m) ∧
      (∀ name, m.store.documents name = if collection = name then [labelled value] else []) ∧
      list.contexts.map Context.path = [Components.pathOf collection id] := by
  have hstart : (shelf collection value).Sound :=
    ⟨Store.consistent_empty.run _, rfl, rfl, Config.sizeLimit_normalized_pos _⟩
  have hshelved : ∀ name, (shelf collection value).store.documents name =
      if collection = name then [labelled value] else [] :=
    fun name => documents_shelving collection hid name
  have hmem : labelled value ∈ (shelf collection value).store.documents collection := by
    rw [hshelved, if_pos rfl]
    exact List.mem_singleton_self _
  obtain ⟨b, made, hcreate, hcomponents, hsorters, hfilters⟩ :=
    exists_create_shelf value hname hslash hparen
  obtain ⟨hfollows, -⟩ := follows_create hstart.consistent rfl rfl hcreate
    (by rw [hcomponents]; exact (hstart.reads hmem).exists_collection)
    (by rw [hcomponents]; exact ⟨_, rfl⟩)
  have hkeeps := (keeps_create hcreate).trans (QueryCore.keeps_process b.core made)
  have hdocuments : ∀ name, (b.process made).2.2.store.documents name =
      if collection = name then [labelled value] else [] := by
    intro name
    rw [← hshelved name]
    show (Store.lookup name (b.core.process made).2.2.store.collections).getD [] = _
    rw [hkeeps.collections]
    rfl
  refine ⟨b, made, (b.process made).2.1, (b.process made).2.2, hcreate, rfl, hdocuments, ?_⟩
  rcases hfollows.process with ⟨-, results, hfind, hids, -, hlists⟩
  have hquery : (b.process made).2.1.query (b.process made).2.2 =
      (compileQuery ⟨collection, none, ""⟩ [] [] (b.process made).2.2.config.sizeLimit).value := by
    show (compileQuery b.components b.sorters b.filters _).value = _
    rw [hcomponents, hsorters, hfilters]
  have hcollection : (b.process made).2.1.components.collection = collection :=
    congrArg Components.collection hcomponents
  have hroom : 0 < (b.process made).2.2.config.sizeLimit := hkeeps.config ▸ hstart.room
  rw [hquery, hcollection, find_labelled hid (by rw [hdocuments, if_pos rfl]) hroom] at hfind
  rcases List.map_eq_singleton_iff.mp (Except.ok.inj hfind).symm with ⟨entry, rfl, hentry⟩
  have hown := hids entry (List.mem_singleton_self _)
  rw [hentry, idOf?_labelled hid] at hown
  have hpaths := hlists.paths
  rw [hcollection, ids_cons, ← Option.some.inj hown] at hpaths
  exact hpaths

/-! ## What is read back -/

/-- If the only document there is can be read by its path, the path was read back to the id
that the document is stored under. -/
theorem comesThrough_of_getProperty {m : Model} {collection : String} {value found : Json}
    {id : DocumentId} {context : Context} (hslash : '/' ∉ collection.toList)
    (hparen : '(' ∉ collection.toList) (hid : DocumentId.ofJson? value = some id)
    (hdocuments : ∀ name,
      m.store.documents name = if collection = name then [labelled value] else [])
    (hpath : context.path = Components.pathOf collection id)
    (hread : (m.getProperty "" (some context)).1 = .ok (some found)) :
    value.same id.toJson = true ∧ id.IsInline := by
  obtain ⟨c, key, document, stored, hc, hkey, hfound, hstored, hsame⟩ :=
    Model.stored_of_getProperty hpath hread
  have hdocument : document = labelled value := by
    rw [hdocuments] at hfound
    split at hfound
    · exact List.mem_singleton.mp hfound
    · exact absurd hfound List.not_mem_nil
  rw [hdocument, get?_labelled] at hstored
  obtain rfl := Option.some.inj hstored
  have hid' := DocumentId.ofJson?_of_same hsame
  rw [hid] at hid'
  obtain rfl := Option.some.inj hid'
  exact ⟨hsame, Components.isInline_of_ofPath hslash hparen hc hkey⟩

/-- For a well-named collection and a stored id: in every state of every list on the collection,
the context of a document with that id reads back the document, exactly if the id is stored in the
form in which it is asked for and is read back from a path. -/
theorem listed_reads_back_iff (collection : String) (value : Json) (id : DocumentId)
    (hname : collection ≠ "") (hslash : '/' ∉ collection.toList)
    (hparen : '(' ∉ collection.toList) (hid : DocumentId.ofJson? value = some id) :
    (∀ list m, Serving collection list m → ∀ document ∈ m.store.documents collection,
      document.get? idKey = some value → ∀ context ∈ list.contexts,
        context.path = Components.pathOf collection id →
          (m.getProperty "" (some context)).1 = .ok (some document)) ↔
      value.same id.toJson = true ∧ id.IsInline := by
  constructor
  · intro hall
    obtain ⟨b, made, list, m, hcreate, hrun, hdocuments, hpaths⟩ :=
      exists_process_shelf hname hslash hparen hid
    have hserving : Serving collection list m :=
      ⟨_, .create ⟨_, rfl⟩ rfl rfl rfl (Config.sizeLimit_normalized_pos _) hcreate, hrun⟩
    rcases List.map_eq_singleton_iff.mp hpaths with ⟨context, hcontexts, hpath⟩
    have hcontext : context ∈ list.contexts := by
      rw [hcontexts]
      exact List.mem_singleton_self _
    have hmem : labelled value ∈ m.store.documents collection := by
      rw [hdocuments, if_pos rfl]
      exact List.mem_singleton_self _
    have hread := hall list m hserving _ hmem (get?_labelled value) context hcontext hpath
    exact comesThrough_of_getProperty hslash hparen hid hdocuments hpath hread
  · rintro ⟨hsame, hinline⟩ list m hserving document hmem hvalue context _ hpath
    have hm := hserving.sound
    exact Model.getProperty_own (hm.reads hmem) (hm.consistent.distinct collection) hm.room
      hslash hparen hmem hvalue hsame hinline hpath

/-- A document with a plain id is listed and read back. -/
theorem listed_reads_back_plain :
    ∃ list m, ∃ context ∈ list.contexts, Serving "C" list m ∧
      context.path = Components.pathOf "C" (.plain "a") ∧
      (m.getProperty "" (some context)).1 = .ok (some (labelled (.string "a"))) := by
  have hid : DocumentId.ofJson? (.string "a") = some (.plain "a") := rfl
  have hname : "C" ≠ "" := by decide
  have hslash : '/' ∉ "C".toList := by decide
  have hparen : '(' ∉ "C".toList := by decide
  obtain ⟨b, made, list, m, hcreate, hrun, hdocuments, hpaths⟩ :=
    exists_process_shelf hname hslash hparen hid
  have hserving : Serving "C" list m :=
    ⟨_, .create ⟨_, rfl⟩ rfl rfl rfl (Config.sizeLimit_normalized_pos _) hcreate, hrun⟩
  rcases List.map_eq_singleton_iff.mp hpaths with ⟨context, hcontexts, hpath⟩
  have hcontext : context ∈ list.contexts := by
    rw [hcontexts]
    exact List.mem_singleton_self _
  have hmem : labelled (.string "a") ∈ m.store.documents "C" := by
    rw [hdocuments, if_pos rfl]
    exact List.mem_singleton_self _
  have hcomesThrough : (Json.string "a").same (DocumentId.plain "a").toJson = true ∧
      (DocumentId.plain "a").IsInline := by
    decide
  exact ⟨list, m, context, hcontext, hserving, hpath,
    (listed_reads_back_iff "C" (.string "a") (.plain "a") hname hslash hparen hid).mpr
      hcomesThrough list m hserving _ hmem rfl context hcontext hpath⟩

/-- A document whose id holds a slash is listed, but not read back. -/
theorem slashed_not_read_back :
    ∃ list m, Serving "C" list m ∧ labelled (.string "a/b") ∈ m.store.documents "C" ∧
      list.contexts.map Context.path = ["/C(a/b)"] ∧
      ∀ context ∈ list.contexts, (m.getProperty "" (some context)).1 =
        .error (.pathFault "/C(a/b)" .unterminatedId) := by
  have hid : DocumentId.ofJson? (.string "a/b") = some (.plain "a/b") := rfl
  obtain ⟨b, made, list, m, hcreate, hrun, hdocuments, hpaths⟩ :=
    exists_process_shelf (by decide : "C" ≠ "") (by decide : '/' ∉ "C".toList)
      (by decide : '(' ∉ "C".toList) hid
  have hwritten : Components.pathOf "C" (.plain "a/b") = "/C(a/b)" := by decide +kernel
  have hfault : Components.ofPath (Components.pathOf "C" (.plain "a/b")) =
      .error (.pathFault "/C(a/b)" .unterminatedId) := by decide +kernel
  refine ⟨list, m,
    ⟨_, .create ⟨_, rfl⟩ rfl rfl rfl (Config.sizeLimit_normalized_pos _) hcreate, hrun⟩,
    ?_, hwritten ▸ hpaths, ?_⟩
  · rw [hdocuments, if_pos rfl]
    exact List.mem_singleton_self _
  · intro context hcontext
    have hpath := List.mem_map_of_mem (f := Context.path) hcontext
    rw [hpaths] at hpath
    exact Model.getProperty_of_fault (List.mem_singleton.mp hpath) hfault

end DocumentList

end LiveDocuments
