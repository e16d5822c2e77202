import LiveDocuments.Path.Resolution
import LiveDocuments.Proofs.Path.RoundTrip
import Mathlib.Data.List.Induction

/-!
# Chains of lookups as paths

A chain of lookups such as `?Orders(order)/?Customers(customer)/name` is a path under the
context of a document, and it can also be put behind the path of the document. There it
becomes the property: its segments are joined with dots, and only the dot behind the first
`)` is turned back into a slash (`Chain.toProperty`). So two paths stand for a chain, and
what is left of either behind the first lookup is the rest of the chain as a property.
-/

namespace LiveDocuments

namespace Path

/-- The marks that paths are made with. -/
def marks : List Char := ['(', ')', '/', '\'', '"']

/-- A text that names a collection or a key in a chain of lookups. -/
def IsName (text : String) : Prop := ∀ mark ∈ marks, mark ∉ text.toList

instance : DecidablePred IsName :=
  fun text => List.decidableBAll (fun mark => mark ∉ text.toList) marks

namespace IsName

variable {text : String} (h : IsName text)

include h

theorem slash : '/' ∉ text.toList := h '/' (by decide)

theorem opening : '(' ∉ text.toList := h '(' (by decide)

theorem closing : ')' ∉ text.toList := h ')' (by decide)

theorem not_isQuote {c : Char} (hc : c ∈ text.toList) : DocumentId.isQuote c = false := by
  have hsingle : c ≠ '\'' := fun heq => h '\'' (by decide) (heq ▸ hc)
  have hdouble : c ≠ '"' := fun heq => h '"' (by decide) (heq ▸ hc)
  simp [DocumentId.isQuote, hsingle, hdouble]

end IsName

theorem head?_of_relative {cs : List Char} (h : beginsAbsolute cs = false) :
    cs.head? ≠ some '?' := by
  intro hmark
  obtain ⟨rest, rfl⟩ := List.head?_eq_some_iff.mp hmark
  cases h

/-! ## Slashes at the end of a path -/

theorem segments_dropTrailingSlashes (cs : List Char) :
    Text.segments '/' (dropTrailingSlashes cs) = Text.segments '/' cs := by
  induction cs using List.reverseRecOn with
  | nil => rfl
  | append_singleton front c ih =>
      have hdrop : dropTrailingSlashes (front ++ [c]) =
          if (c == '/') = true then dropTrailingSlashes front else front ++ [c] := by
        rw [dropTrailingSlashes, List.reverse_concat, List.dropWhile_cons]
        split
        · rfl
        · rw [List.reverse_cons, List.reverse_reverse]
      rw [hdrop]
      split
      · next hc => rw [ih, eq_of_beq hc, Text.segments_concat]
      · rfl

theorem ofChars_trimTrailingSlashes (cs : List Char) :
    Components.ofChars (trimTrailingSlashes cs) = Components.ofChars cs := by
  cases cs with
  | nil => rfl
  | cons c rest =>
      rw [trimTrailingSlashes_cons]
      by_cases hmark : c = '?' ∨ c = '/'
      · rcases hmark with rfl | rfl <;>
          rw [Components.ofChars, Components.ofChars, segments_dropTrailingSlashes]
      · obtain ⟨hlookup, hslash⟩ := not_or.mp hmark
        simp [Components.ofChars, hlookup, hslash]

theorem ofPath_trimTrailingSlashes {cs : List Char} {c : Components}
    (h : Components.ofChars cs = .ok c) :
    Components.ofPath (String.ofList (trimTrailingSlashes cs)) = .ok c := by
  rw [Components.ofPath, Components.parse, String.toList_ofList, ofChars_trimTrailingSlashes, h]

end Path

theorem Components.ofChars_behind {name : String} {id : DocumentId} (hname : Path.IsName name)
    (hid : id.IsInline) (cs : List Char) :
    ofChars ((pathOf name id).toList ++ '/' :: cs) = .ok ⟨name, some id,
      String.ofList (restoreSeparator (Text.join '.' (Text.segments '/' cs)))⟩ := by
  have hchars : '/' ∉ id.chars := fun hmem =>
    DocumentId.slash_not_mem_of_isInline hid ((DocumentId.slash_mem_chars_iff id).mp hmem)
  have hslash : '/' ∉ name.toList ++ '(' :: (id.chars ++ [')']) := by
    simp [hname.slash, hchars]
  have hsegment := parseSegment_document hname.opening id.chars
  rw [String.ofList_toList] at hsegment
  rw [toList_pathOf, List.cons_append, ofChars, Text.segments_append hslash, if_neg (by simp),
    List.singleton_append, ofSegments_cons hsegment]
  show Except.ok (Components.mk name (some (DocumentId.ofText id.toText)) _) = _
  rw [DocumentId.ofText_toText hid]

/-- Lookups one after the other, each with a collection and the key that an id of it stands
under, and the property that is read at their end. -/
inductive Chain where
  | property (segments : List String)
  | lookup (collection key : String) (rest : Chain)

namespace Chain

/-- The segment of a lookup without its mark. -/
def hop (collection key : String) : List Char :=
  collection.toList ++ '(' :: (key.toList ++ [')'])

/-- The segments of the chain. -/
def pieces : Chain → List (List Char)
  | property segments => segments.map String.toList
  | lookup collection key rest => ('?' :: hop collection key) :: rest.pieces

/-- The chain as a path of its own. -/
def toPath (chain : Chain) : String := String.ofList (Text.join '/' chain.pieces)

/-- The chain as it is read behind the path of a document. -/
def toProperty (chain : Chain) : String :=
  String.ofList (Components.restoreSeparator (Text.join '.' chain.pieces))

/-- Names and segments are free of what would be read as the form of the path. -/
def IsPlain : Chain → Prop
  | property segments =>
      (∀ segment ∈ segments, segment ≠ "" ∧ '(' ∉ segment.toList ∧ ')' ∉ segment.toList ∧
        '/' ∉ segment.toList) ∧ ∀ first ∈ segments.head?, first.toList.head? ≠ some '?'
  | lookup collection key rest => Path.IsName collection ∧ Path.IsName key ∧ rest.IsPlain

/-! ## The first lookup -/

theorem parseSegment_hop {collection key : String} (hcollection : Path.IsName collection)
    (hkey : Path.IsName key) :
    Components.parseSegment (hop collection key) = .ok (collection, some (.plain key)) := by
  rw [hop, Components.parseSegment_document hcollection.opening, String.ofList_toList,
    String.ofList_toList, DocumentId.ofText_of_not_isQuote fun _ => hkey.not_isQuote]

theorem slash_not_mem_hop {collection key : String} (hcollection : Path.IsName collection)
    (hkey : Path.IsName key) : '/' ∉ hop collection key := by
  simp [hop, hcollection.slash, hkey.slash]

theorem hop_ne_nil (collection key : String) : hop collection key ≠ [] := by simp [hop]

/-- The separator behind a lookup is restored, so that the lookup stays a segment. -/
theorem segments_restoreSeparator {collection key : String} (hcollection : Path.IsName collection)
    (hkey : Path.IsName key) (others : List (List Char)) :
    Text.segments '/' (Components.restoreSeparator
      (Text.join '.' (hop collection key :: others))) =
        hop collection key :: Text.segments '/' (Text.join '.' others) := by
  have hslash := slash_not_mem_hop hcollection hkey
  have hfront : ')' ∉ collection.toList ++ '(' :: key.toList := by
    simp [hcollection.closing, hkey.closing]
  have hhop : ∀ behind, hop collection key ++ behind =
      (collection.toList ++ '(' :: key.toList) ++ ')' :: behind := by simp [hop]
  cases others with
  | nil =>
      have hend := hhop []
      rw [List.append_nil] at hend
      rw [Text.join_singleton, hend, Components.restoreSeparator_no_dot hfront (by simp), ← hend,
        Text.segments_of_not_mem hslash, if_neg (hop_ne_nil collection key)]
      simp
  | cons next more =>
      rw [Text.join_cons_cons, hhop, Components.restoreSeparator_dot hfront, ← hhop,
        Text.segments_append hslash, if_neg (hop_ne_nil collection key)]
      rfl

theorem pieces_fit {chain : Chain} (h : chain.IsPlain) :
    ∀ piece ∈ chain.pieces, piece ≠ [] ∧ '/' ∉ piece := by
  induction chain with
  | property segments =>
      intro piece hpiece
      rcases List.mem_map.mp hpiece with ⟨segment, hsegment, rfl⟩
      obtain ⟨hne, -, -, hslash⟩ := h.1 segment hsegment
      exact ⟨mt String.toList_eq_nil_iff.mp hne, hslash⟩
  | lookup collection key rest ih =>
      obtain ⟨hcollection, hkey, hrest⟩ := h
      refine List.forall_mem_cons.mpr ⟨⟨List.cons_ne_nil _ _, ?_⟩, ih hrest⟩
      rw [List.mem_cons, not_or]
      exact ⟨by decide, slash_not_mem_hop hcollection hkey⟩

theorem slash_not_mem_join {chain : Chain} (h : chain.IsPlain) :
    '/' ∉ Text.join '.' chain.pieces :=
  Text.not_mem_join (by decide) fun piece hpiece => (pieces_fit h piece hpiece).2

theorem segments_toPath {chain : Chain} (h : chain.IsPlain) :
    Text.segments '/' chain.toPath.toList = chain.pieces := by
  rw [toPath, String.toList_ofList, Text.segments_join (pieces_fit h)]

/-! ## Two paths for a chain -/

/-- The path is read as the chain, lookup by lookup. -/
inductive Spells (path : String) : Chain → Prop where
  | property {segments : List String} (hrelative : Path.beginsAbsolute path.toList = false)
      (hcut : Text.join '.' (Text.segments '/' path.toList) =
        Text.join '.' (segments.map String.toList)) : Spells path (.property segments)
  | lookup {collection key : String} {rest : Chain} {cs : List Char} {others : List (List Char)}
      (hpath : path.toList = '?' :: cs) (hcut : Text.segments '/' cs = hop collection key :: others)
      (hrest : Text.join '.' others = Text.join '.' rest.pieces) :
      Spells path (.lookup collection key rest)

/-- A path for a lookup names its collection and key, and the rest is left as a property. -/
theorem Spells.ofPath {path collection key : String} {rest : Chain}
    (h : Spells path (.lookup collection key rest)) (hcollection : Path.IsName collection)
    (hkey : Path.IsName key) :
    Components.ofPath path = .ok ⟨collection, some (.plain key), rest.toProperty⟩ := by
  cases h with
  | lookup hpath hcut hrest =>
      rw [Components.ofPath, Components.parse, hpath, Components.ofChars, hcut,
        Components.ofSegments_cons (parseSegment_hop hcollection hkey), hrest, toProperty]

theorem Spells.head?_lookup {path collection key : String} {rest : Chain}
    (h : Spells path (.lookup collection key rest)) : path.toList.head? = some '?' := by
  cases h with
  | lookup hpath => rw [hpath, List.head?_cons]

theorem beginsAbsolute_join (separator : Char) {segments : List String}
    (h : (property segments).IsPlain) :
    Path.beginsAbsolute (Text.join separator (segments.map String.toList)) = false := by
  cases segments with
  | nil => rfl
  | cons first others =>
      obtain ⟨hfits, hmark⟩ := h
      obtain ⟨hne, -, -, hslash⟩ := hfits first List.mem_cons_self
      have hlookup := hmark first rfl
      cases hfirst : first.toList with
      | nil => exact absurd (String.toList_eq_nil_iff.mp hfirst) hne
      | cons c cs =>
          rw [hfirst] at hlookup hslash
          rw [List.map_cons, hfirst, Text.join_cons_append]
          have hc : c ≠ '/' ∧ c ≠ '?' :=
            ⟨fun heq => hslash (heq ▸ List.mem_cons_self), fun heq => hlookup (congrArg some heq)⟩
          simp [Path.beginsAbsolute, hc]

theorem spells_toPath {chain : Chain} (h : chain.IsPlain) : Spells chain.toPath chain := by
  cases chain with
  | property segments =>
      refine .property ?_ (by rw [segments_toPath h, pieces])
      rw [toPath, String.toList_ofList]
      exact beginsAbsolute_join '/' h
  | lookup collection key rest =>
      obtain ⟨hcollection, hkey, hrest⟩ := h
      have hpath : (lookup collection key rest).toPath.toList =
          '?' :: Text.join '/' (hop collection key :: rest.pieces) := by
        rw [toPath, String.toList_ofList, pieces, Text.join_cons_append]
      exact .lookup hpath (Text.segments_join (List.forall_mem_cons.mpr
        ⟨⟨hop_ne_nil collection key, slash_not_mem_hop hcollection hkey⟩, pieces_fit hrest⟩)) rfl

theorem toList_toProperty_property {segments : List String} (h : (property segments).IsPlain) :
    (property segments).toProperty.toList = Text.join '.' (segments.map String.toList) := by
  have hparen : ')' ∉ Text.join '.' (segments.map String.toList) := by
    refine Text.not_mem_join (by decide) fun piece hpiece => ?_
    rcases List.mem_map.mp hpiece with ⟨segment, hsegment, rfl⟩
    exact (h.1 segment hsegment).2.2.1
  rw [toProperty, String.toList_ofList, pieces, Components.restoreSeparator_of_not_mem hparen]

theorem toProperty_property {segments : List String} (h : (property segments).IsPlain) :
    (property segments).toProperty = ".".intercalate segments := by
  rw [← String.toList_inj, toList_toProperty_property h, String.toList_intercalate,
    Text.join_eq_intercalate]
  rfl

theorem spells_toProperty {chain : Chain} (h : chain.IsPlain) :
    Spells chain.toProperty chain := by
  cases chain with
  | property segments =>
      have hkept := toList_toProperty_property h
      refine .property ?_ ?_
      · rw [hkept]
        exact beginsAbsolute_join '.' h
      · rw [hkept]
        exact Text.join_segments_of_not_mem '.' (slash_not_mem_join h)
  | lookup collection key rest =>
      obtain ⟨hcollection, hkey, hrest⟩ := h
      -- only the separator behind this lookup comes back, so the rest is one segment
      refine .lookup ?_ (segments_restoreSeparator hcollection hkey rest.pieces)
        (Text.join_segments_of_not_mem '.' (slash_not_mem_join hrest))
      rw [toProperty, String.toList_ofList, pieces, Text.join_cons_append,
        Components.restoreSeparator_cons_of_ne (by decide)]

end Chain

end LiveDocuments
