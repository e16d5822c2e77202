import LiveDocuments.Proofs.Model.PlainReading
import LiveDocuments.Proofs.Path.Nesting
import LiveDocuments.Proofs.Path.Stability

/-!
# Reading under nested contexts

What a path is read as depends on the documents and the settings of a model and on the path
of the context, but not on the contexts that were handed out, on what was raised or on how
often the store was asked (`Model.value?_congr`). So a value can as well be read by way of a
context that was made for the first part of its path (`Model.getProperty_nested`).
-/

namespace LiveDocuments

/-- What kind of error it is, whatever path it tells of. -/
def BindingError.kind : BindingError → BindingError
  | pathFault _ fault => .pathFault "" fault
  | endlessLookup _ => .endlessLookup ""
  | error => error

namespace Model

/-- The two legs come to one result, or go on along one path. -/
inductive ReadStep.Alike : ReadStep → ReadStep → Prop
  | finished (result : Except BindingError (Option Json)) :
      Alike (.finished result) (.finished result)
  | follow (path : String) {here there : Context} (h : here.path = there.path) :
      Alike (.follow path here) (.follow path there)

open ReadStep (Alike)

/-! ## Documents -/

namespace OnlyAsks

variable {m n : Model}

theorem symm (h : m.OnlyAsks n) : n.OnlyAsks m := by
  rcases h with ⟨_, _, _, rfl⟩
  exact ⟨m.contexts, m.emitted, m.backend.asked, rfl⟩

/-- What two models come to by asking differs no more than they did. -/
theorem after {k l : Model} (h : m.OnlyAsks n) (hm : m.OnlyAsks k) (hn : n.OnlyAsks l) :
    k.OnlyAsks l :=
  hm.symm.trans (h.trans hn)

theorem resolve_eq (h : m.OnlyAsks n) (path : String) (context : Option Context) :
    n.resolve path context = m.resolve path context := by
  rcases h with ⟨_, _, _, rfl⟩
  rfl

theorem fst_readDocument (h : m.OnlyAsks n) (c : Components) :
    (n.readDocument c).1 = (m.readDocument c).1 := by
  have hsame : n.store = m.store ∧ n.config = m.config ∧ n.destroyed = m.destroyed := by
    rcases h with ⟨_, _, _, rfl⟩
    exact ⟨rfl, rfl, rfl⟩
  obtain ⟨hstore, hconfig, hdestroyed⟩ := hsame
  cases hid : c.documentId with
  | none => rw [readDocument_of_whole hid, readDocument_of_whole hid]
  | some id =>
      have hnamed : c.documentId.isSome := by rw [hid]; rfl
      cases halive : m.destroyed with
      | true =>
          simp only [Model.readDocument, Model.query, hdestroyed.trans halive, halive, if_true]
          split <;> rfl
      | false =>
          cases hcollection : m.store.hasCollection c.collection with
          | false =>
              obtain ⟨k, hk⟩ := exists_readDocument_of_unknown halive hnamed hcollection
              obtain ⟨l, hl⟩ := exists_readDocument_of_unknown (hdestroyed.trans halive) hnamed
                (hstore ▸ hcollection)
              rw [hk, hl]
          | true =>
              obtain ⟨k, hk⟩ := exists_readDocument_of_first halive hnamed hcollection
              obtain ⟨l, hl⟩ := exists_readDocument_of_first (hdestroyed.trans halive) hnamed
                (hstore ▸ hcollection)
              rw [hk, hl, hconfig, fst_first_of_onlyAsks h]

end OnlyAsks

/-! ## Legs -/

variable {m n : Model}

theorem alike_lookup (m n : Model) (document : Json) (path : String) :
    Alike (m.lookup document path).1 (n.lookup document path).1 := by
  unfold lookup
  split
  · exact .finished _
  split
  · exact .finished _
  split
  · exact .finished _
  · refine .follow _ ?_
    exact (m.contexts.path_getOrCreate _).trans (n.contexts.path_getOrCreate _).symm

theorem alike_readProperty (m n : Model) (document : Json) (c : Components) :
    Alike (m.readProperty document c).1 (n.readProperty document c).1 := by
  unfold readProperty
  split
  · exact .finished _
  split
  · exact alike_lookup m n document c.property
  · exact .finished _

/-- What is done with the first document for components, if there is one. -/
def fromDocument (m : Model) (c : Components) (go : Model → Json → ReadStep × Model) :
    ReadStep × Model :=
  match m.readDocument c with
  | (.ok (some document), n) => go n document
  | (result, n) => (.finished result, n)

theorem alike_fromDocument (h : m.OnlyAsks n) (c : Components)
    {go : Model → Json → ReadStep × Model}
    (hgo : ∀ k l document, Alike (go k document).1 (go l document).1) :
    Alike (m.fromDocument c go).1 (n.fromDocument c go).1 := by
  have hread := h.fst_readDocument c
  unfold fromDocument
  generalize m.readDocument c = here at hread
  generalize n.readDocument c = there at hread
  obtain ⟨result, k⟩ := here
  obtain ⟨other, l⟩ := there
  obtain rfl : other = result := hread
  rcases other with _ | _ | document
  · exact .finished _
  · exact .finished _
  · exact hgo k l document

/-- A path that is no lookup is read from the components of what it denotes. -/
theorem readStep_of_components {path resolved : String} {context : Option Context}
    {c : Components} (hmark : path.toList.head? ≠ some '?')
    (hresolve : m.resolve path context = some resolved)
    (hc : Components.ofPath resolved = .ok c) :
    m.readStep path context = m.fromDocument c fun n document => n.readProperty document c := by
  simp only [readStep, if_neg hmark, hresolve, hc]
  rfl

theorem readStep_of_fault {path resolved : String} {context : Option Context}
    {e : BindingError} (hmark : path.toList.head? ≠ some '?')
    (hresolve : m.resolve path context = some resolved)
    (he : Components.ofPath resolved = .error e) :
    m.readStep path context = (.finished (.error e), m) := by
  simp only [readStep, if_neg hmark, hresolve, he]

theorem alike_readStep (h : m.OnlyAsks n) (path : String) {here there : Option Context}
    (hpath : here.map Context.path = there.map Context.path) :
    Alike (m.readStep path here).1 (n.readStep path there).1 := by
  by_cases hmark : path.toList.head? = some '?'
  · simp only [readStep, if_pos hmark]
    rcases here with _ | here <;> rcases there with _ | there
    · exact .finished _
    · cases hpath
    · cases hpath
    · simp only [readFromOwner, Option.some.inj hpath]
      split
      · exact .finished _
      · next owner _ =>
          exact alike_fromDocument h owner fun k l document => alike_lookup k l document path
  · have hresolve : n.resolve path there = m.resolve path here := by
      rw [h.resolve_eq, resolve, resolve, hpath]
    cases hresolved : m.resolve path here with
    | none =>
        simp only [readStep, if_neg hmark, hresolve, hresolved]
        exact .finished _
    | some resolved =>
        rw [hresolved] at hresolve
        cases hc : Components.ofPath resolved with
        | error e =>
            rw [readStep_of_fault hmark hresolved hc, readStep_of_fault hmark hresolve hc]
            exact .finished _
        | ok c =>
            rw [readStep_of_components hmark hresolved hc, readStep_of_components hmark hresolve hc]
            exact alike_fromDocument h c fun k l document => alike_readProperty k l document c

/-! ## Readings -/

theorem result_readWithin_congr (limit : Nat) (h : m.OnlyAsks n) (path : String)
    {here there : Option Context} (hpath : here.map Context.path = there.map Context.path) :
    (m.readWithin limit path here).map Reading.result =
      (n.readWithin limit path there).map Reading.result := by
  induction limit generalizing m n path here there with
  | zero => rfl
  | succ limit ih =>
      have hstep := alike_readStep h path hpath
      have hafter := h.after (.readStep m path here) (.readStep n path there)
      rw [readWithin, readWithin]
      generalize m.readStep path here = first at hstep hafter
      generalize n.readStep path there = second at hstep hafter
      obtain ⟨s, k⟩ := first
      obtain ⟨t, l⟩ := second
      cases hstep with
      | finished result => rfl
      | follow rest hnext =>
          rw [Option.map_map, Option.map_map]
          exact ih hafter rest (congrArg some hnext)

theorem value?_eq_some_iff {path : String} {context : Option Context}
    {result : Except BindingError (Option Json)} :
    m.value? path context = some result ↔
      ∃ limit, (m.readWithin limit path context).map Reading.result = some result := by
  simp only [value?, Option.map_eq_some_iff, readWithin_eq_some_iff]
  constructor
  · rintro ⟨r, hr, hresult⟩
    exact ⟨r.legs, r, ⟨hr, Nat.le_refl _⟩, hresult⟩
  · rintro ⟨_, r, ⟨hr, -⟩, hresult⟩
    exact ⟨r, hr, hresult⟩

/-- Models that differ by what was asked of them read a path as the same under contexts of one
path, and one reading ends if the other does. -/
theorem value?_congr (h : m.OnlyAsks n) (path : String) {here there : Option Context}
    (hpath : here.map Context.path = there.map Context.path) :
    m.value? path here = n.value? path there := by
  refine Option.ext fun result => ?_
  rw [value?_eq_some_iff, value?_eq_some_iff]
  exact exists_congr fun limit => by rw [result_readWithin_congr limit h path hpath]

theorem outcome?_congr {here there : ReadStep × Model} (h : Alike here.1 there.1)
    (hmodels : here.2.OnlyAsks there.2) : outcome? here = outcome? there := by
  rcases here with ⟨s, k⟩
  rcases there with ⟨t, l⟩
  cases h with
  | finished result => rfl
  | follow path hnext => exact value?_congr hmodels path (congrArg some hnext)

/-- Paths that name the same, or nothing for one reason, are read as the same. -/
theorem value?_of_parse_eq (h : m.OnlyAsks n) {path other resolved otherResolved : String}
    {here there : Option Context} (hmark : path.toList.head? ≠ some '?')
    (hother : other.toList.head? ≠ some '?') (hresolved : m.resolve path here = some resolved)
    (hotherResolved : n.resolve other there = some otherResolved)
    (hparse : Components.parse resolved = Components.parse otherResolved) :
    (m.value? path here).map (·.mapError BindingError.kind) =
      (n.value? other there).map (·.mapError BindingError.kind) := by
  rw [value?_eq_outcome?, value?_eq_outcome?]
  cases hc : Components.parse resolved with
  | error fault =>
      have hfault : ∀ text, Components.parse text = .error fault →
          Components.ofPath text = .error (.pathFault text fault) := by
        intro text htext
        rw [Components.ofPath, htext]
      rw [readStep_of_fault hmark hresolved (hfault _ hc),
        readStep_of_fault hother hotherResolved (hfault _ (hparse ▸ hc))]
      rfl
  | ok c =>
      have hhere := readStep_of_components hmark hresolved (Components.ofPath_eq_ok_iff.mpr hc)
      have hthere := readStep_of_components hother hotherResolved
        (Components.ofPath_eq_ok_iff.mpr (hparse ▸ hc))
      refine congrArg _ (outcome?_congr ?_ (h.after (.readStep m path here)
        (.readStep n other there)))
      rw [hhere, hthere]
      exact alike_fromDocument h c fun k l document => alike_readProperty k l document c

theorem mapError_kind_getProperty (m : Model) (path : String) (context : Option Context) :
    (m.getProperty path context).1.mapError BindingError.kind =
      ((m.value? path context).map (·.mapError BindingError.kind)).getD
        (.error (.endlessLookup "")) := by
  rw [getProperty, value?]
  cases m.read? path context <;> rfl

/-- Under a context with an absolute path, two relative paths may be resolved one after the other
or joined by a slash first: what they denote is read as the same components, or not at all.
Reading the second path under the context that is made for the first one ends if reading the
joined path does, and comes to the same value or to an error of the same kind. -/
theorem getProperty_nested (m : Model) (context : Context) (outer inner : String)
    (hcontext : Path.isAbsolute context.path = true)
    (houter : outer ≠ "" ∧ Path.isAbsolute outer = false)
    (hinner : inner ≠ "" ∧ Path.isAbsolute inner = false) :
    (∀ legacySyntax, ∃ base nested joined,
      Path.resolve legacySyntax outer (some context.path) = some base ∧
      Path.resolve legacySyntax inner (some base) = some nested ∧
      Path.resolve legacySyntax (outer ++ "/" ++ inner) (some context.path) = some joined ∧
      Components.parse nested = Components.parse joined) ∧
    ∀ made n, m.createContext outer (some context) = (made, n) →
      (n.read? inner (some made)).isSome =
        (m.read? (outer ++ "/" ++ inner) (some context)).isSome ∧
      (n.getProperty inner (some made)).1.mapError BindingError.kind =
        (m.getProperty (outer ++ "/" ++ inner) (some context)).1.mapError BindingError.kind := by
  have hpaths := Path.parse_nested hcontext houter hinner
  refine ⟨hpaths, fun made n hmade => ?_⟩
  obtain ⟨base, nested, joined, hbase, hnested, hjoined, hparse⟩ := hpaths m.config.legacySyntax
  have hasks : m.OnlyAsks n := by
    have hcreate := OnlyAsks.createContext m outer (some context)
    rwa [hmade] at hcreate
  have hpath : made.path = base := by
    have hfor : (m.createContext outer (some context)).1.path = base := by
      rw [createContext, resolve, Option.map_some, hbase, Option.getD_some]
      exact m.contexts.path_getOrCreate base
    rwa [hmade] at hfor
  have hinside : n.resolve inner (some made) = some nested := by
    rw [hasks.resolve_eq, resolve, Option.map_some, hpath, hnested]
  have houtside : m.resolve (outer ++ "/" ++ inner) (some context) = some joined := hjoined
  have hvalue := value?_of_parse_eq hasks.symm (Path.head?_of_relative hinner.2)
    (Path.head?_of_relative ((Path.isAbsolute_joined houter.1 inner).trans houter.2)) hinside
    houtside hparse
  refine ⟨?_, ?_⟩
  · have hsome := congrArg Option.isSome hvalue
    simpa only [value?, Option.isSome_map] using hsome
  · rw [mapError_kind_getProperty, mapError_kind_getProperty, hvalue]

/-- A lookup is made on the way to a context and read through behind it. -/
theorem getProperty_nested_tradedAgent :
    Path.isAbsolute "//" = true ∧
      ∀ made n, trading.createContext "Orders(o1)//?Customers(customer)///" (some ⟨"//", 0⟩) =
        (made, n) →
        (n.getProperty "agent//$oid/" (some made)).1.mapError BindingError.kind =
          .ok (some (.string "ff")) := by
  have hread : (trading.getProperty
      ("Orders(o1)//?Customers(customer)///" ++ "/" ++ "agent//$oid/") (some ⟨"//", 0⟩)).1 =
        .ok (some (.string "ff")) := by
    have hwithin : (trading.readWithin 3
        ("Orders(o1)//?Customers(customer)///" ++ "/" ++ "agent//$oid/") (some ⟨"//", 0⟩)).map
          Reading.result = some (.ok (some (.string "ff"))) := by
      decide +kernel
    exact getProperty_of_readWithin hwithin
  refine ⟨rfl, fun made n hmade => ?_⟩
  have hnested := getProperty_nested trading ⟨"//", 0⟩ "Orders(o1)//?Customers(customer)///"
    "agent//$oid/" rfl (by decide) (by decide)
  rw [(hnested.2 made n hmade).2, hread]
  rfl

end Model

end LiveDocuments
