import LiveDocuments.Proofs.Model.OwnPath
import LiveDocuments.Proofs.Path.Chains

/-!
# Following chains of lookups

A chain of lookups follows foreign keys through the store: each lookup takes the id that
stands under its key and goes on at the document that is stored under the id
(`Store.follow`). Reading knows no chains. It goes by the path of one document after the
other, and what is left to do is a property that is parsed anew on every leg. The two agree
(`getProperty_chain`) as long as every id on the way fits a path.
-/

namespace LiveDocuments

/-- The id that stands under a key of a document. -/
def Json.linked? (document : Json) (key : String) : Option DocumentId :=
  (valueAt document key).bind DocumentId.ofJson?

namespace Store

/-! ## Chains followed in the store -/

/-- What is done with the document that is stored under an id; nothing if it is missing. -/
def visit (s : Store) (name : String) (id : DocumentId)
    (go : Json → Except BindingError (Option Json)) : Except BindingError (Option Json) :=
  match s.fetch name id with
  | .ok (some document) => go document
  | result => result

/-- The value that a chain leads to from a document. It is missing if an id is. -/
def followFrom (s : Store) (document : Json) : Chain → Except BindingError (Option Json)
  | .property segments => .ok (valueAt document (".".intercalate segments))
  | .lookup collection key rest =>
      match document.linked? key with
      | none => .ok none
      | some id => s.visit collection id fun next => s.followFrom next rest

/-- The value that a chain leads to from the document stored under an id. -/
def follow (s : Store) (name : String) (id : DocumentId) (chain : Chain) :
    Except BindingError (Option Json) :=
  s.visit name id fun document => s.followFrom document chain

/-- The ids that are met on the way from a document. -/
def metFrom (s : Store) (document : Json) : Chain → List DocumentId
  | .property _ => []
  | .lookup collection key rest =>
      match document.linked? key with
      | none => []
      | some id => id :: (s.stored? collection id).elim [] fun next => s.metFrom next rest

/-- The ids that are met on the way, with the one it starts from. -/
def met (s : Store) (name : String) (id : DocumentId) (chain : Chain) : List DocumentId :=
  id :: (s.stored? name id).elim [] fun document => s.metFrom document chain

end Store

theorem valueAt_empty (value : Json) : valueAt value "" = some value := by
  have hsteps : Property.steps "".toList = [] := by decide
  rw [valueAt, hsteps, Property.walk_nil]

namespace Model

/-! ## What reading comes to -/

/-- The result of reading a path under a context; nothing if reading does not end. -/
def value? (m : Model) (path : String) (context : Option Context) :
    Option (Except BindingError (Option Json)) :=
  (m.read? path context).map Reading.result

/-- The result of reading after one leg of it. -/
def outcome? : ReadStep × Model → Option (Except BindingError (Option Json))
  | (.finished result, _) => some result
  | (.follow path context, m) => m.value? path (some context)

theorem value?_eq_outcome? (m : Model) (path : String) (context : Option Context) :
    m.value? path context = outcome? (m.readStep path context) := by
  rw [value?, read?]
  rcases m.readStep path context with ⟨result | ⟨rest, next⟩, n⟩
  · rfl
  · show Option.map Reading.result ((n.read? rest (some next)).bind _) = n.value? rest (some next)
    rw [value?]
    cases n.read? rest (some next) <;> rfl

theorem getProperty_of_value? {m : Model} {path : String} {context : Option Context}
    {result : Except BindingError (Option Json)} (h : m.value? path context = some result) :
    (m.getProperty path context).1 = result := by
  rcases Option.map_eq_some_iff.mp h with ⟨r, hr, rfl⟩
  rw [getProperty, hr]

/-! ## A leg of a chain -/

/-- The leg goes to the document that is stored under an id, and on with a property of it. -/
def Reaches (m : Model) (name : String) (id : DocumentId) (c : Components)
    (leg : ReadStep × Model) : Prop :=
  ∃ n, n.Sound ∧ n.store = m.store ∧ leg =
    match m.store.fetch name id with
    | .ok (some document) => n.readProperty document c
    | result => (.finished result, n)

theorem reaches_of_resolve {m : Model} (hm : m.Sound) {path resolved : String}
    {context : Option Context} {c : Components} {id : DocumentId}
    (hmark : path.toList.head? ≠ some '?') (hresolve : m.resolve path context = some resolved)
    (hc : Components.ofPath resolved = .ok c) (hid : c.documentId = some id) :
    m.Reaches c.collection id c (m.readStep path context) := by
  obtain ⟨n, hread, hn, hstore⟩ := readDocument_fetch hm hid
  refine ⟨n, hn, hstore, ?_⟩
  simp only [readStep, if_neg hmark, hresolve, hc, hread]
  rcases m.store.fetch c.collection id with e | _ | document <;> rfl

theorem reaches_of_owner {m : Model} (hm : m.Sound) {path : String} {context : Context}
    {owner c : Components} {id : DocumentId} (hmark : path.toList.head? = some '?')
    (howner : ((Components.ofPath context.path).bind fun c => Components.ofPath c.documentPath) =
      .ok owner) (hid : owner.documentId = some id) (hlookup : c.hasLookup = true)
    (hpath : Components.ofPath path = Components.ofPath c.property) :
    m.Reaches owner.collection id c (m.readStep path (some context)) := by
  obtain ⟨n, hread, hn, hstore⟩ := readDocument_fetch hm hid
  refine ⟨n, hn, hstore, ?_⟩
  simp only [readStep, if_pos hmark, readFromOwner, howner, hread]
  rcases m.store.fetch owner.collection id with e | _ | document
  · rfl
  · rfl
  · have hne : c.property ≠ "" := by
      intro hempty
      rw [Components.hasLookup, hempty] at hlookup
      exact absurd hlookup (by decide)
    simp only [readProperty, if_neg hne, if_pos hlookup, lookup, hpath]

section Chains

variable {m : Model} {name : String} {id : DocumentId} {context : Context} {chain : Chain}

/-- Under the context of a document a relative path denotes a property of the document. -/
theorem exists_resolve_under (m : Model) (hname : Path.IsName name) (hid : id.IsInline)
    (hcontext : context.path = Components.pathOf name id) {path : String}
    (hrelative : Path.beginsAbsolute path.toList = false) :
    ∃ resolved, m.resolve path (some context) = some resolved ∧
      Components.ofPath resolved = .ok ⟨name, some id, String.ofList
        (Components.restoreSeparator (Text.join '.' (Text.segments '/' path.toList)))⟩ := by
  by_cases hempty : path = ""
  · subst hempty
    exact ⟨_, m.resolve_pathOf hcontext,
      Components.ofPath_pathOf_of_isInline hname.slash hname.opening hid⟩
  · have hlast : context.path.toList.getLast? ≠ some '/' := by
      rw [hcontext, Components.toList_pathOf, ← List.cons_append, ← List.cons_append,
        ← List.append_assoc, List.getLast?_concat]
      decide
    have hlocate : Path.locate m.config.legacySyntax path.toList (some context.path.toList) =
        some (context.path.toList ++ '/' :: path.toList) := by
      rw [Path.locate, if_neg (mt String.toList_eq_nil_iff.mp hempty), hrelative,
        if_neg Bool.false_ne_true]
      simp only [Path.under, if_neg hlast]
    refine ⟨_, ?_, Path.ofPath_trimTrailingSlashes
      (Components.ofChars_behind hname hid path.toList)⟩
    rw [resolve, Option.map_some, Path.resolve, Option.map_some, hlocate, Option.map_some,
      hcontext]

theorem exists_resolve_behind (m : Model) (hname : Path.IsName name) (hid : id.IsInline)
    (path : String) :
    ∃ resolved, m.resolve (Components.pathOf name id ++ "/" ++ path) none = some resolved ∧
      Components.ofPath resolved = .ok ⟨name, some id, String.ofList
        (Components.restoreSeparator (Text.join '.' (Text.segments '/' path.toList)))⟩ := by
  have hchars : (Components.pathOf name id ++ "/" ++ path).toList =
      (Components.pathOf name id).toList ++ '/' :: path.toList := by
    simp [String.toList_append]
  refine ⟨_, ?_, Path.ofPath_trimTrailingSlashes
    (Components.ofChars_behind hname hid path.toList)⟩
  rw [resolve, Option.map_none, Path.resolve, Option.map_none, hchars, Components.toList_pathOf]
  rfl

theorem reaches_under (hm : m.Sound) (hname : Path.IsName name) (hid : id.IsInline)
    (hcontext : context.path = Components.pathOf name id) (hchain : chain.IsPlain)
    {path : String} (hpath : chain.Spells path) :
    m.Reaches name id ⟨name, some id, chain.toProperty⟩ (m.readStep path (some context)) := by
  cases chain with
  | property segments =>
      cases hpath with
      | property hrelative hcut =>
          obtain ⟨resolved, hresolve, hc⟩ := exists_resolve_under m hname hid hcontext hrelative
          rw [hcut] at hc
          exact reaches_of_resolve hm (Path.head?_of_relative hrelative) hresolve hc rfl
  | lookup collection key rest =>
      have hproperty := Chain.spells_toProperty hchain
      have hdocument := Components.ofPath_pathOf_of_isInline hname.slash hname.opening hid
      have howner : ((Components.ofPath context.path).bind fun c =>
          Components.ofPath c.documentPath) = .ok ⟨name, some id, ""⟩ := by
        rw [hcontext, hdocument]
        exact hdocument
      exact reaches_of_owner hm hpath.head?_lookup howner rfl
        (beq_iff_eq.mpr hproperty.head?_lookup) ((hpath.ofPath hchain.1 hchain.2.1).trans
          (hproperty.ofPath hchain.1 hchain.2.1).symm)

theorem reaches_behind (hm : m.Sound) (hname : Path.IsName name) (hid : id.IsInline)
    (hchain : chain.IsPlain) :
    m.Reaches name id ⟨name, some id, chain.toProperty⟩
      (m.readStep (Components.pathOf name id ++ "/" ++ chain.toPath) none) := by
  obtain ⟨resolved, hresolve, hc⟩ := exists_resolve_behind m hname hid chain.toPath
  rw [Chain.segments_toPath hchain] at hc
  refine reaches_of_resolve hm ?_ hresolve hc rfl
  rw [String.toList_append, String.toList_append, Components.toList_pathOf]
  exact (by decide : some '/' ≠ some '?')

/-! ## The legs put together -/

theorem outcome?_of_reaches {leg : ReadStep × Model} {c : Components}
    (hleg : m.Reaches name id c leg) {go : Json → Except BindingError (Option Json)}
    (hgo : ∀ (n : Model) (document : Json), n.Sound → n.store = m.store →
      m.store.stored? name id = some document →
        outcome? (n.readProperty document c) = some (go document)) :
    outcome? leg = some (m.store.visit name id go) := by
  obtain ⟨n, hn, hstore, hleg⟩ := hleg
  rw [hleg, Store.visit]
  cases hfetch : m.store.fetch name id with
  | error e => rfl
  | ok found =>
      cases found with
      | none => rfl
      | some document => exact hgo n document hn hstore (Store.stored?_of_fetch hfetch)

/-- A lookup goes on by the path of its document, with the rest of the chain as a property. -/
theorem outcome?_follow (hm : m.Sound) (hname : Path.IsName name) (hid : id.IsInline)
    (hchain : chain.IsPlain) {go : Json → Except BindingError (Option Json)}
    (hgo : ∀ (n : Model) (document : Json), n.Sound → n.store = m.store →
      m.store.stored? name id = some document →
        outcome? (n.readProperty document ⟨name, some id, chain.toProperty⟩) =
          some (go document)) :
    outcome? (.follow chain.toProperty (m.contextFor (Components.pathOf name id)).1,
      (m.contextFor (Components.pathOf name id)).2) = some (m.store.visit name id go) := by
  have hcontext : (m.contextFor (Components.pathOf name id)).1.path = Components.pathOf name id :=
    m.contexts.path_getOrCreate _
  rw [outcome?, value?_eq_outcome?]
  exact outcome?_of_reaches (reaches_under (hm.contextFor _) hname hid hcontext hchain
    (Chain.spells_toProperty hchain)) hgo

/-- From a document on, the property that a chain is read as leads where the chain does. -/
theorem outcome?_readProperty (hm : m.Sound) {document : Json} {c : Components}
    (hproperty : c.property = chain.toProperty) (hchain : chain.IsPlain)
    (hmet : ∀ id ∈ m.store.metFrom document chain, id.IsInline) :
    outcome? (m.readProperty document c) = some (m.store.followFrom document chain) := by
  have hspells := Chain.spells_toProperty hchain
  rw [← hproperty] at hspells
  -- by induction on the chain: a leg takes off one lookup and leaves the rest as a property
  induction chain generalizing m document c with
  | property segments =>
      have hjoined := hproperty.trans (Chain.toProperty_property hchain)
      rw [Store.followFrom, ← hjoined]
      cases hspells with
      | property hrelative =>
          have hlookup : ¬ c.hasLookup = true :=
            mt eq_of_beq (Path.head?_of_relative hrelative)
          by_cases hempty : c.property = ""
          · rw [readProperty, if_pos hempty, hempty, valueAt_empty]
            rfl
          · rw [readProperty, if_neg hempty, if_neg hlookup]
            rfl
  | lookup collection key rest ih =>
      obtain ⟨hcollection, hkey, hrest⟩ := hchain
      have hlookup : c.hasLookup = true := beq_iff_eq.mpr hspells.head?_lookup
      have hc := hspells.ofPath hcollection hkey
      have hne : c.property ≠ "" := by
        intro hempty
        rw [hempty] at hc
        cases hc
      rw [readProperty, if_neg hne, if_pos hlookup, Store.followFrom]
      cases hlinked : document.linked? key with
      | none =>
          rw [lookup_eq_of_none m hc rfl hlinked]
          rfl
      | some next =>
          rw [Store.metFrom, hlinked] at hmet
          obtain ⟨hnext, hbehind⟩ := List.forall_mem_cons.mp hmet
          rw [lookup_eq m hc rfl hlinked]
          refine outcome?_follow hm hcollection hnext hrest fun n found hn hstore hfound => ?_
          rw [hfound] at hbehind
          rw [← hstore] at hbehind ⊢
          exact ih hn rfl hrest hbehind (Chain.spells_toProperty hrest)

/-- Under the context of a document and behind the path of the document alike, a chain of lookups
is read as it is followed in the store. -/
theorem getProperty_chain (hm : m.Sound) (hname : Path.IsName name) (hchain : chain.IsPlain)
    (hmet : ∀ met ∈ m.store.met name id chain, met.IsInline)
    (hcontext : context.path = Components.pathOf name id) :
    (m.getProperty chain.toPath (some context)).1 = m.store.follow name id chain ∧
      (m.getProperty (Components.pathOf name id ++ "/" ++ chain.toPath) none).1 =
        m.store.follow name id chain := by
  rw [Store.met] at hmet
  obtain ⟨hid, hbehind⟩ := List.forall_mem_cons.mp hmet
  have hread : ∀ path base, m.Reaches name id ⟨name, some id, chain.toProperty⟩
      (m.readStep path base) → (m.getProperty path base).1 = m.store.follow name id chain := by
    intro path base hleg
    refine getProperty_of_value? ((value?_eq_outcome? m path base).trans ?_)
    refine outcome?_of_reaches hleg fun n document hn hstore hfound => ?_
    rw [hfound] at hbehind
    rw [← hstore] at hbehind ⊢
    exact outcome?_readProperty hn rfl hchain hbehind
  exact ⟨hread _ _ (reaches_under hm hname hid hcontext hchain (Chain.spells_toPath hchain)),
    hread _ _ (reaches_behind hm hname hid hchain)⟩

end Chains

/-- A model over orders that name their customers, and customers that name their agents. -/
def trading : Model :=
  .new (.ofStore (Store.empty.run
    [.insert "Orders" (.object [("_id", .string "o1"), ("customer", .string "c1")]),
      .insert "Customers" (.object [("_id", .string "c1"),
        ("agent", Json.single "$oid" (.string "ff"))]),
      .insert "Agents" (.object [("_id", Json.single "$oid" (.string "ff")),
        ("office", .object [("city", .string "Lima")])])])) .default

/-- From an order by way of its customer to the city of the agent. -/
def cityOfAgent : Chain :=
  .lookup "Customers" "customer" (.lookup "Agents" "agent" (.property ["office", "city"]))

theorem getProperty_chain_cityOfAgent :
    (trading.getProperty "?Customers(customer)/?Agents(agent)/office/city"
        (some ⟨"/Orders(o1)", 0⟩)).1 = .ok (some (.string "Lima")) ∧
      (trading.getProperty "/Orders(o1)/?Customers(customer)/?Agents(agent)/office/city" none).1 =
        .ok (some (.string "Lima")) := by
  have hm : trading.Sound := .new (Store.consistent_empty.run _) _
  have hname : Path.IsName "Orders" := by decide
  have hchain : cityOfAgent.IsPlain :=
    ⟨by decide, by decide, by decide, by decide, by decide, by decide⟩
  have hmet : ∀ id ∈ trading.store.met "Orders" (.plain "o1") cityOfAgent, id.IsInline := by
    decide +kernel
  have hcontext : (Context.mk "/Orders(o1)" 0).path = Components.pathOf "Orders" (.plain "o1") := by
    decide +kernel
  have hpath : cityOfAgent.toPath = "?Customers(customer)/?Agents(agent)/office/city" := by
    decide +kernel
  have hbehind : Components.pathOf "Orders" (.plain "o1") ++ "/" ++ cityOfAgent.toPath =
      "/Orders(o1)/?Customers(customer)/?Agents(agent)/office/city" := by decide +kernel
  have hfollow : trading.store.follow "Orders" (.plain "o1") cityOfAgent =
      .ok (some (.string "Lima")) := by decide +kernel
  have hread := getProperty_chain hm hname hchain hmet hcontext
  rwa [hbehind, hpath, hfollow] at hread

end Model

end LiveDocuments
