import LiveDocuments.Model.Reading
import LiveDocuments.Proofs.Model.Basic
import LiveDocuments.Proofs.Path.DocumentPath
import LiveDocuments.Proofs.Path.Segments
import LiveDocuments.Proofs.Store.Run

/-!
# When reading ends

A leg of reading either finishes or goes on with what is left of the lookup path. As
long as the context it starts from is whole, that is, its path is cut at no slash but the
first, a leg leaves a shorter path than it was given. A context that is not whole puts a
part of the id of its document into the path again, and that part may hold a lookup of
its own. So reading is endless exactly if it comes to such contexts again and again.
-/

namespace LiveDocuments

/-- The path has no slash but the first, so that it is read as one segment. -/
def Context.IsWhole (c : Context) : Prop := '/' ∉ c.path.toList.tail

/-- The context of a document is whole if the id of the document has no slash. -/
theorem Context.isWhole_iff {context : Context} {collection : String} {id : DocumentId}
    (hcollection : '/' ∉ collection.toList)
    (hpath : context.path = Components.pathOf collection id) :
    context.IsWhole ↔ '/' ∉ id.name.toList := by
  rw [IsWhole, hpath, Components.toList_pathOf, ← DocumentId.slash_mem_chars_iff]
  simp [hcollection]

namespace Path

/-! ## What a resolved path adds to the property -/

theorem dropTrailingSlashes_prefix (cs : List Char) : dropTrailingSlashes cs <+: cs := by
  have h := List.reverse_prefix.mpr (List.dropWhile_suffix (l := cs.reverse) (· == '/'))
  rwa [List.reverse_reverse] at h

theorem dropTrailingSlashes_eq_self {cs : List Char} (h : cs.getLast? ≠ some '/') :
    dropTrailingSlashes cs = cs := by
  cases hrev : cs.reverse with
  | nil =>
      rw [List.reverse_eq_nil_iff.mp hrev]
      rfl
  | cons c rest =>
      have hlast : cs.getLast? = some c := by
        rw [List.getLast?_eq_head?_reverse, hrev, List.head?_cons]
      have hc : ¬ (c == '/') = true := by
        intro heq
        exact h (by rw [hlast, eq_of_beq heq])
      rw [dropTrailingSlashes, hrev, List.dropWhile_cons, if_neg hc, ← hrev, List.reverse_reverse]

theorem trimTrailingSlashes_prefix (cs : List Char) : trimTrailingSlashes cs <+: cs := by
  cases cs with
  | nil => exact List.prefix_rfl
  | cons c rest => exact List.cons_prefix_cons.mpr ⟨rfl, dropTrailingSlashes_prefix rest⟩

theorem under_prefix {mark : Char} {front : List Char} (hfront : '/' ∉ front)
    (path : List Char) :
    under (mark :: front) path <+: mark :: (front ++ '/' :: path) ∨
      (under (mark :: front) path).length ≤ path.length + 1 := by
  unfold under
  split
  · next hlast =>
      cases front with
      | nil => exact .inr (by simp)
      | cons c others =>
          rw [List.getLast?_cons_cons] at hlast
          exact absurd (List.mem_of_getLast? hlast) hfront
  · exact .inl List.prefix_rfl

/-- What a path denotes is as long as the path and one separator, or stands behind the
first segment of the base. -/
theorem locate_cases {legacySyntax : Bool} {path cs : List Char} {context : Option (List Char)}
    (h : locate legacySyntax path context = some cs)
    (hwhole : ∀ base ∈ context, '/' ∉ base.tail) :
    cs.length ≤ path.length + 1 ∨
      ∃ mark front, '/' ∉ front ∧ cs <+: mark :: (front ++ '/' :: path) := by
  unfold locate at h
  split at h
  · next hempty =>
      have hbase := hwhole cs h
      cases cs with
      | nil => exact .inl (Nat.zero_le _)
      | cons mark front =>
          exact .inr ⟨mark, front, hbase, List.cons_prefix_cons.mpr ⟨rfl, List.prefix_append _ _⟩⟩
  split at h
  · obtain rfl := Option.some.inj h
    exact .inl (Nat.le_succ _)
  cases context with
  | none =>
      cases legacySyntax with
      | false => cases h
      | true =>
          obtain rfl := Option.some.inj h
          exact .inl (Nat.le_refl _)
  | some base =>
      obtain rfl := Option.some.inj h
      cases base with
      | nil => exact .inl (Nat.le_refl _)
      | cons mark front =>
          have hfront : '/' ∉ front := hwhole _ rfl
          rcases under_prefix hfront path with hprefix | hshort
          · exact .inr ⟨mark, front, hfront, hprefix⟩
          · exact .inl hshort

/-- Under a whole context a path resolves to something with no longer a property. -/
theorem length_property_le {legacySyntax : Bool} {path resolved : String}
    {context : Option Context} {c : Components}
    (hresolve : resolve legacySyntax path (context.map Context.path) = some resolved)
    (hwhole : ∀ base ∈ context, base.IsWhole) (hc : Components.ofPath resolved = .ok c) :
    c.property.length ≤ path.length := by
  rcases Option.map_eq_some_iff.mp hresolve with ⟨cs, hlocate, rfl⟩
  have htrimmed : (String.ofList (trimTrailingSlashes cs)).toList <+: cs := by
    rw [String.toList_ofList]
    exact trimTrailingSlashes_prefix cs
  have hbases : ∀ base ∈ (context.map Context.path).map String.toList, '/' ∉ base.tail := by
    intro base hbase
    rcases Option.map_eq_some_iff.mp hbase with ⟨_, hpath, rfl⟩
    rcases Option.map_eq_some_iff.mp hpath with ⟨inner, hinner, rfl⟩
    exact hwhole inner hinner
  rw [← String.length_toList (s := path)]
  rcases locate_cases hlocate hbases with hshort | ⟨mark, front, hfront, hprefix⟩
  · have hless := Components.length_property_lt hc
    have hlength := htrimmed.length_le
    rw [String.length_toList] at hlength
    omega
  · exact Components.length_property_le_of_prefix hfront (htrimmed.trans hprefix) hc

end Path

namespace Model

/-! ## Where a leg leads -/

/-- A lookup goes on with the property of its path, at a document of its collection. -/
theorem follow_of_lookup {m n : Model} {document : Json} {path rest : String}
    {context : Context} (h : m.lookup document path = (.follow rest context, n)) :
    ∃ c key id, Components.ofPath path = .ok c ∧ rest = c.property ∧
      (valueAt document key).bind DocumentId.ofJson? = some id ∧
      context.path = Components.pathOf c.collection id ∧ n.store = m.store := by
  unfold lookup at h
  split at h
  · cases h
  next c hc =>
    split at h
    · cases h
    next key _ =>
      split at h
      · cases h
      next id hid =>
        cases h
        exact ⟨c, key.name, id, hc, rfl, hid, m.contexts.path_getOrCreate _, rfl⟩

theorem follow_of_readProperty {m n : Model} {document : Json} {c : Components}
    {rest : String} {context : Context}
    (h : m.readProperty document c = (.follow rest context, n)) :
    m.lookup document c.property = (.follow rest context, n) := by
  unfold readProperty at h
  split at h
  · cases h
  split at h
  · exact h
  · cases h

/-- The first document of a cursor is one that the store finds; the store is left alone. -/
theorem find_of_first {m n : Model} {cursor : Cursor} {document : Json}
    (h : m.first cursor = (.ok (some document), n)) :
    (∃ documents, m.store.find cursor.collection cursor.query = .ok documents ∧
      document ∈ documents) ∧ n.store = m.store := by
  obtain ⟨hfirst, rfl⟩ := Prod.mk.inj h
  refine ⟨?_, rfl⟩
  have hfound : (m.backend.find cursor.collection cursor.query).1.map List.head? =
      .ok (some document) := hfirst
  unfold Backend.find at hfound
  split at hfound
  · cases hfound
  cases hfind : m.backend.store.find cursor.collection cursor.query with
  | error e =>
      rw [hfind] at hfound
      cases hfound
  | ok documents =>
      rw [hfind] at hfound
      exact ⟨documents, hfind, List.mem_of_head? (Except.ok.inj hfound)⟩

/-- A document that is read is one that the store finds for an id; the store is left
alone. -/
theorem find_of_readDocument {m n : Model} {c : Components} {document : Json}
    (h : m.readDocument c = (.ok (some document), n)) :
    (∃ id, c.documentId = some id) ∧
      (∃ documents, m.store.find c.collection (compileQuery c [] [] m.config.sizeLimit).value =
        .ok documents ∧ document ∈ documents) ∧ n.store = m.store := by
  unfold readDocument at h
  split at h
  · cases h
  next hnamed =>
    refine ⟨Option.isSome_iff_exists.mp ?_, ?_⟩
    · cases hid : c.documentId with
      | none => exact absurd (by rw [hid]; rfl) hnamed
      | some _ => rfl
    split at h
    · cases h
    next cursor k hcursor =>
      obtain rfl := cursor_of_query hcursor
      have hraises := OnlyRaises.query m c [] [] none
      rw [hcursor] at hraises
      rcases hraises with ⟨_, rfl⟩
      split at h
      · cases h
      next hfirst =>
        obtain ⟨hfound, rfl⟩ := Prod.mk.inj h
        obtain rfl := Except.ok.inj hfound
        exact find_of_first hfirst

/-- A leg that goes on does so by a lookup from a document of the store. Its path is no
longer than that of the leg if the context of the leg is whole. -/
theorem follow_of_readStep {m n : Model} {path rest : String} {context : Option Context}
    {next : Context} (h : m.readStep path context = (.follow rest next, n)) :
    ∃ k name document lookupPath, document ∈ m.store.documents name ∧ k.store = m.store ∧
      lookup k document lookupPath = (.follow rest next, n) ∧
      ((∀ base ∈ context, base.IsWhole) → lookupPath.length ≤ path.length) := by
  unfold readStep at h
  split at h
  · cases context with
    | none => cases h
    | some base =>
        simp only [readFromOwner] at h
        split at h
        · cases h
        split at h
        · next hread =>
            obtain ⟨_, ⟨_, hfind, hmem⟩, hstore⟩ := find_of_readDocument hread
            exact ⟨_, _, _, path, Store.mem_of_find hfind hmem, hstore, h,
              fun _ => Nat.le_refl _⟩
        · cases h
  split at h
  · cases h
  next resolved hresolved =>
    split at h
    · cases h
    next c hc =>
      split at h
      · next hread =>
          obtain ⟨_, ⟨_, hfind, hmem⟩, hstore⟩ := find_of_readDocument hread
          exact ⟨_, _, _, c.property, Store.mem_of_find hfind hmem, hstore,
            follow_of_readProperty h, fun hwhole => Path.length_property_le hresolved hwhole hc⟩
      · cases h

/-- From a whole context a leg leaves less of the path than it was given. -/
theorem length_lt_of_follow {m n : Model} {path rest : String} {context : Option Context}
    {next : Context} (h : m.readStep path context = (.follow rest next, n))
    (hwhole : ∀ base ∈ context, base.IsWhole) : rest.length < path.length := by
  obtain ⟨_, _, _, _, _, _, hlookup, hle⟩ := follow_of_readStep h
  obtain ⟨c, _, _, hc, rfl, _, _, _⟩ := follow_of_lookup hlookup
  exact Nat.lt_of_lt_of_le (Components.length_property_lt hc) (hle hwhole)

theorem readStep_of_resolve {m n : Model} {path resolved : String} {context : Option Context}
    {c : Components} {document : Json} (hmark : path.toList.head? ≠ some '?')
    (hresolve : m.resolve path context = some resolved)
    (hc : Components.ofPath resolved = .ok c)
    (hread : m.readDocument c = (.ok (some document), n)) :
    m.readStep path context = n.readProperty document c := by
  simp only [readStep, if_neg hmark, hresolve, hc, hread]

theorem lookup_eq (m : Model) {document : Json} {path : String} {c : Components}
    {key id : DocumentId} (hc : Components.ofPath path = .ok c)
    (hkey : c.documentId = some key)
    (hid : (valueAt document key.name).bind DocumentId.ofJson? = some id) :
    m.lookup document path =
      (.follow c.property (m.contextFor (Components.pathOf c.collection id)).1,
        (m.contextFor (Components.pathOf c.collection id)).2) := by
  simp only [lookup, hc, hkey, hid]

theorem lookup_eq_of_none (m : Model) {document : Json} {path : String} {c : Components}
    {key : DocumentId} (hc : Components.ofPath path = .ok c) (hkey : c.documentId = some key)
    (hid : (valueAt document key.name).bind DocumentId.ofJson? = none) :
    m.lookup document path = (.finished (.ok none), m) := by
  simp only [lookup, hc, hkey, hid]

/-- The model reads documents of the collection without refusal. -/
structure Reads (m : Model) (collection : String) : Prop where
  exists_collection : m.store.hasCollection collection = true
  alive : m.destroyed = false
  willing : m.backend.findRefusal = none

theorem readDocument_eq {m : Model} {c : Components} (h : m.Reads c.collection)
    (hid : c.documentId.isSome) {documents : List Json}
    (hfind : m.store.find c.collection (compileQuery c [] [] m.config.sizeLimit).value =
      .ok documents) :
    ∃ n, m.readDocument c = (.ok documents.head?, n) ∧ n.Reads c.collection ∧
      n.store = m.store ∧ n.config = m.config := by
  have hcursor := query_of_known h.alive h.exists_collection [] [] none
  obtain ⟨_, hreport⟩ := OnlyRaises.reportAll m
    (compileQuery c [] [] m.config.sizeLimit).diagnostics none
  have hnamed : c.documentId.isNone = false := Option.isNone_eq_false_iff.mpr hid
  have hfound : m.backend.store.find c.collection
      (compileQuery c [] [] m.config.sizeLimit).value = .ok documents := hfind
  rw [hreport] at hcursor
  simp only [readDocument, hnamed, hcursor, first, fetch, Backend.find, h.willing, hfound]
  exact ⟨_, rfl, ⟨h.exists_collection, h.alive, rfl⟩, rfl, rfl⟩

/-! ## The legs of reading -/

/-- Where a leg starts. -/
structure Place where
  model : Model
  path : String
  context : Option Context

namespace Place

/-- The start of the next leg, if there is one. -/
def next? (p : Place) : Option Place :=
  match p.model.readStep p.path p.context with
  | (.finished _, _) => none
  | (.follow path context, m) => some ⟨m, path, some context⟩

/-- The start of the leg of that number, counted from zero; nothing if reading is over
by then. -/
def leg? (p : Place) : Nat → Option Place
  | 0 => some p
  | k + 1 => p.next?.bind fun q => q.leg? k

@[simp] theorem leg?_zero (p : Place) : p.leg? 0 = some p := rfl

theorem leg?_succ (p : Place) (k : Nat) : p.leg? (k + 1) = p.next?.bind fun q => q.leg? k := rfl

theorem leg?_add (p : Place) (j k : Nat) :
    p.leg? (j + k) = (p.leg? j).bind fun q => q.leg? k := by
  induction j generalizing p with
  | zero => rw [Nat.zero_add, leg?_zero, Option.bind_some]
  | succ j ih =>
      rw [Nat.succ_add, leg?_succ, leg?_succ]
      cases p.next? with
      | none => rfl
      | some q => exact ih q

/-- The leg starts from a whole context, or from none. -/
def IsWhole (p : Place) : Prop := ∀ base ∈ p.context, base.IsWhole

theorem length_lt_of_next? {p q : Place} (h : p.next? = some q) (hwhole : p.IsWhole) :
    q.path.length < p.path.length := by
  unfold next? at h
  split at h
  · cases h
  · next hstep =>
      obtain rfl := Option.some.inj h
      exact length_lt_of_follow hstep hwhole

/-- Legs that all start from whole contexts come to an end, for the path gets shorter. -/
theorem ends_of_isWhole (p : Place) (h : ∀ k, ∀ q ∈ p.leg? k, q.IsWhole) :
    ∃ k, k ≤ p.path.length + 1 ∧ p.leg? k = none := by
  induction hlength : p.path.length using Nat.strongRecOn generalizing p with
  | ind length ih =>
      cases hnext : p.next? with
      | none =>
          refine ⟨1, by omega, ?_⟩
          rw [leg?_succ, hnext]
          rfl
      | some q =>
          have hless := length_lt_of_next? hnext (h 0 p rfl)
          have hlegs : ∀ k, ∀ r ∈ q.leg? k, r.IsWhole := by
            intro k r hr
            refine h (k + 1) r ?_
            rw [leg?_succ, hnext]
            exact hr
          obtain ⟨k, hk, hnone⟩ := ih q.path.length (hlength ▸ hless) q hlegs rfl
          refine ⟨k + 1, by omega, ?_⟩
          rw [leg?_succ, hnext]
          exact hnone

/-- Reading is over by some leg exactly if from some leg on all contexts are whole. -/
theorem ends_iff (p : Place) :
    (∃ k, p.leg? k = none) ↔ ∃ n, ∀ k, n ≤ k → ∀ q ∈ p.leg? k, q.IsWhole := by
  constructor
  · rintro ⟨n, hnone⟩
    refine ⟨n, fun k hk q hq => ?_⟩
    obtain ⟨more, rfl⟩ := Nat.exists_eq_add_of_le hk
    rw [leg?_add, hnone] at hq
    cases hq
  · rintro ⟨n, hwhole⟩
    cases hn : p.leg? n with
    | none => exact ⟨n, hn⟩
    | some q =>
        obtain ⟨k, _, hnone⟩ := q.ends_of_isWhole fun k r hr => by
          refine hwhole (n + k) (Nat.le_add_right n k) r ?_
          rw [leg?_add, hn]
          exact hr
        refine ⟨n + k, ?_⟩
        rw [leg?_add, hn]
        exact hnone

/-! ## Following the legs -/

/-- What reading comes to from a place. -/
def reading? (p : Place) : Option Reading := p.model.read? p.path p.context

theorem reading?_of_next?_eq_none {p : Place} (h : p.next? = none) :
    ∃ r, p.reading? = some r ∧ r.legs = 1 := by
  unfold next? at h
  split at h
  · next result m hstep =>
      refine ⟨⟨result, 1, m⟩, ?_, rfl⟩
      rw [reading?, Model.read?, hstep]
  · cases h

theorem reading?_of_next?_eq_some {p q : Place} (h : p.next? = some q) :
    p.reading? = q.reading?.map fun r => { r with legs := r.legs + 1 } := by
  unfold next? at h
  unfold reading?
  split at h
  · cases h
  · next hstep =>
      obtain rfl := Option.some.inj h
      rw [read?, hstep]
      exact Option.map_eq_bind.symm

theorem leg?_of_reading? {p : Place} {r : Reading} (h : p.reading? = some r) :
    p.leg? r.legs = none := by
  induction hlegs : r.legs generalizing p r with
  | zero =>
      cases hnext : p.next? with
      | none =>
          obtain ⟨s, hs, hone⟩ := reading?_of_next?_eq_none hnext
          obtain rfl := Option.some.inj (h.symm.trans hs)
          omega
      | some q =>
          rw [reading?_of_next?_eq_some hnext] at h
          rcases Option.map_eq_some_iff.mp h with ⟨s, _, rfl⟩
          cases hlegs
  | succ k ih =>
      rw [leg?_succ]
      cases hnext : p.next? with
      | none => rfl
      | some q =>
          rw [reading?_of_next?_eq_some hnext] at h
          rcases Option.map_eq_some_iff.mp h with ⟨s, hs, rfl⟩
          exact ih hs (Nat.succ.inj hlegs)

/-- Reading is over within so many legs if the last of them does not start. -/
theorem reading?_of_leg? {p : Place} {k : Nat} (h : p.leg? k = none) :
    ∃ r, p.reading? = some r ∧ r.legs ≤ k := by
  induction k generalizing p with
  | zero => cases h
  | succ k ih =>
      cases hnext : p.next? with
      | none =>
          obtain ⟨r, hr, hone⟩ := reading?_of_next?_eq_none hnext
          exact ⟨r, hr, by omega⟩
      | some q =>
          rw [leg?_succ, hnext] at h
          obtain ⟨r, hr, hle⟩ := ih h
          rw [reading?_of_next?_eq_some hnext, hr]
          exact ⟨_, rfl, Nat.succ_le_succ hle⟩

theorem isSome_reading?_iff (p : Place) : p.reading?.isSome ↔ ∃ k, p.leg? k = none := by
  constructor
  · intro h
    rcases Option.isSome_iff_exists.mp h with ⟨r, hr⟩
    exact ⟨r.legs, leg?_of_reading? hr⟩
  · rintro ⟨k, hk⟩
    obtain ⟨r, hr, _⟩ := reading?_of_leg? hk
    exact Option.isSome_iff_exists.mpr ⟨r, hr⟩

end Place

/-- Reading a path under a context comes to an end exactly if, from some leg on, every leg starts
from a context whose path has no slash but the first. -/
theorem read?_isSome_iff (m : Model) (path : String) (context : Option Context) :
    (m.read? path context).isSome ↔
      ∃ n, ∀ k, n ≤ k → ∀ q ∈ (Place.mk m path context).leg? k, q.IsWhole :=
  (Place.isSome_reading?_iff ⟨m, path, context⟩).trans (Place.ends_iff _)

/-! ## Legs that are counted -/

theorem legs_pos_of_read? {m : Model} {path : String} {context : Option Context} {r : Reading}
    (h : m.read? path context = some r) : 0 < r.legs := by
  rw [read?] at h
  split at h
  · obtain rfl := Option.some.inj h
    exact Nat.one_pos
  · obtain ⟨s, -, hs⟩ := Option.bind_eq_some_iff.mp h
    obtain rfl := Option.some.inj hs
    exact Nat.succ_pos s.legs

/-- Reading followed for so many legs is reading to the end, if it takes no more. -/
theorem readWithin_eq_some_iff {limit : Nat} {m : Model} {path : String}
    {context : Option Context} {r : Reading} :
    m.readWithin limit path context = some r ↔
      m.read? path context = some r ∧ r.legs ≤ limit := by
  induction limit generalizing m path context r with
  | zero =>
      refine iff_of_false (fun h => nomatch h) fun h => ?_
      exact absurd (legs_pos_of_read? h.1) (Nat.not_lt.mpr h.2)
  | succ limit ih =>
      rw [readWithin, read?]
      split
      · rw [Option.some.injEq]
        refine (and_iff_left_of_imp ?_).symm
        rintro rfl
        exact Nat.succ_le_succ (Nat.zero_le limit)
      · next rest next n _ =>
          rw [Option.map_eq_some_iff]
          constructor
          · rintro ⟨s, hs, rfl⟩
            obtain ⟨hread, hlegs⟩ := ih.mp hs
            exact ⟨Option.bind_eq_some_iff.mpr ⟨s, hread, rfl⟩, Nat.succ_le_succ hlegs⟩
          · rintro ⟨hread, hlegs⟩
            obtain ⟨s, hs, hr⟩ := Option.bind_eq_some_iff.mp hread
            obtain rfl := Option.some.inj hr
            exact ⟨s, ih.mpr ⟨hs, Nat.le_of_succ_le_succ hlegs⟩, rfl⟩

theorem getProperty_of_readWithin {limit : Nat} {m : Model} {path : String}
    {context : Option Context} {result : Except BindingError (Option Json)}
    (h : (m.readWithin limit path context).map Reading.result = some result) :
    (m.getProperty path context).1 = result := by
  obtain ⟨r, hr, rfl⟩ := Option.map_eq_some_iff.mp h
  rw [getProperty, (readWithin_eq_some_iff.mp hr).1]

/-! ## A document that leads to itself -/

/-- A document with an id that is read as another path than it was written to. -/
def echo : Json := .object [("_id", .string "'1"), ("next'", .string "1)/?A(next")]

/-- A path to the document and on from it. Looking up what stands under `next'` leads to
the path again. -/
def echoPath : String := "/A('1)/?A(next')"

/-- What the path names. -/
def echoSource : Components := ⟨"A", some (.plain "'1"), "?A(next')"⟩

/-- A model over a store with that document only. -/
def echoing : Model :=
  .new (.ofStore (Store.empty.run [.create "A", .insert "A" echo])) .default

/-- What stays the same of the model from leg to leg. -/
structure Echoes (m : Model) : Prop where
  reads : m.Reads "A"
  store : m.store = echoing.store
  config : m.config = .default

theorem echoes_echoing : Echoes echoing := ⟨⟨by decide +kernel, rfl, rfl⟩, rfl, rfl⟩

theorem readStep_echo {m : Model} (h : Echoes m) {path : String} {context : Option Context}
    (hmark : path.toList.head? ≠ some '?')
    (hresolve : m.resolve path context = some echoPath) :
    ∃ n next, m.readStep path context = (.follow "" next, n) ∧ next.path = echoPath ∧
      Echoes n := by
  have hc : Components.ofPath echoPath = .ok echoSource := by decide +kernel
  have hlookup : Components.ofPath echoSource.property =
      .ok ⟨"A", some (.plain "next'"), ""⟩ := by decide +kernel
  have hfind : m.store.find echoSource.collection
      (compileQuery echoSource [] [] m.config.sizeLimit).value = .ok [echo] := by
    rw [h.store, h.config]
    decide +kernel
  have hid : (valueAt echo "next'").bind DocumentId.ofJson? = some (.plain "1)/?A(next") := by
    decide +kernel
  have hpath : Components.pathOf "A" (.plain "1)/?A(next") = echoPath := by decide +kernel
  obtain ⟨n, hread, hn, hstore, hconfig⟩ := readDocument_eq h.reads rfl hfind
  refine ⟨(n.contextFor echoPath).2, (n.contextFor echoPath).1, ?_,
    n.contexts.path_getOrCreate _, ⟨hn.exists_collection, hn.alive, hn.willing⟩,
    hstore.trans h.store, hconfig.trans h.config⟩
  rw [readStep_of_resolve hmark hresolve hc hread, readProperty, if_neg (by decide +kernel),
    if_pos (by decide +kernel), lookup_eq n hlookup rfl hid, hpath]

theorem leg?_echoing (k : Nat) : (Place.mk echoing echoPath none).leg? k ≠ none := by
  have step : ∀ p : Place, Echoes p.model → p.path.toList.head? ≠ some '?' →
      p.model.resolve p.path p.context = some echoPath → p.leg? k ≠ none := by
    induction k with
    | zero => exact fun _ _ _ _ => Option.some_ne_none _
    | succ k ih =>
        intro p hp hmark hresolve
        obtain ⟨n, next, hstep, hnext, hn⟩ := readStep_echo hp hmark hresolve
        have hq : p.next? = some ⟨n, "", some next⟩ := by rw [Place.next?, hstep]
        rw [Place.leg?_succ, hq]
        refine ih ⟨n, "", some next⟩ hn (show "".toList.head? ≠ some '?' by decide) ?_
        show Path.resolve n.config.legacySyntax "" (some next.path) = some echoPath
        rw [hn.config, hnext]
        decide +kernel
  exact step _ echoes_echoing (by decide +kernel) (by decide +kernel)

/-- Reading the path never ends. -/
theorem read?_echoing : echoing.read? echoPath none = none := by
  refine Option.eq_none_iff_forall_ne_some.mpr fun r hr => ?_
  have hleg : (Place.mk echoing echoPath none).leg? r.legs = none := Place.leg?_of_reading? hr
  exact leg?_echoing r.legs hleg

/-! ## Stores on which reading always ends -/

/-- No value in a document of the store that can be read as an id holds a slash. -/
def NamesInline (s : Store) : Prop :=
  ∀ name, ∀ document ∈ s.documents name, ∀ key id,
    (valueAt document key).bind DocumentId.ofJson? = some id → '/' ∉ id.name.toList

namespace Place

/-- A leg leaves the store alone, and on a store without slashes it leads to a whole
context. -/
theorem isWhole_of_next? {p q : Place} (h : p.next? = some q)
    (hstore : NamesInline p.model.store) :
    q.model.store = p.model.store ∧ q.IsWhole := by
  unfold next? at h
  split at h
  · cases h
  next hstep =>
    obtain rfl := Option.some.inj h
    obtain ⟨_, name, document, _, hmem, hread, hlookup, _⟩ := follow_of_readStep hstep
    obtain ⟨c, key, id, hc, _, hid, hpath, hleft⟩ := follow_of_lookup hlookup
    refine ⟨hleft.trans hread, ?_⟩
    intro base hbase
    obtain rfl := Option.some.inj hbase
    exact (Context.isWhole_iff (Components.slash_not_mem_collection hc) hpath).mpr
      (hstore name document hmem key id hid)

theorem isWhole_of_leg? {p q : Place} {k : Nat} (hstore : NamesInline p.model.store)
    (h : p.leg? (k + 1) = some q) : q.model.store = p.model.store ∧ q.IsWhole := by
  induction k generalizing p with
  | zero =>
      rw [leg?_succ] at h
      cases hnext : p.next? with
      | none =>
          rw [hnext] at h
          cases h
      | some r =>
          rw [hnext] at h
          obtain rfl := Option.some.inj h
          exact isWhole_of_next? hnext hstore
  | succ k ih =>
      rw [leg?_succ] at h
      cases hnext : p.next? with
      | none =>
          rw [hnext] at h
          cases h
      | some r =>
          rw [hnext] at h
          obtain ⟨hsame, _⟩ := isWhole_of_next? hnext hstore
          rw [← hsame] at hstore ⊢
          exact ih hstore h

end Place

/-- On a store where no value that can be read as an id holds a slash, reading ends. -/
theorem read?_isSome_of_namesInline (m : Model) (path : String) (context : Option Context)
    (hstore : NamesInline m.store) : (m.read? path context).isSome := by
  refine (Place.isSome_reading?_iff ⟨m, path, context⟩).mpr ((Place.ends_iff _).mpr ⟨1, ?_⟩)
  intro k hk q hq
  obtain ⟨j, rfl⟩ := Nat.exists_eq_add_of_le' hk
  exact (Place.isWhole_of_leg? hstore hq).2

end Model

end LiveDocuments
