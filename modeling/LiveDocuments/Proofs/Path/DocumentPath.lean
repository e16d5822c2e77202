import LiveDocuments.Proofs.Path.Segments
import LiveDocuments.Synchronizer.Basic
import Mathlib.Data.List.Basic
import Mathlib.Data.List.TakeWhile

/-!
# The paths of documents

Two documents of a collection never have the same path: the three printed forms of an
id begin differently, and each of them gives the id away. Reading is less faithful than
writing. A path is cut at every slash, also at one inside an id, and an object id ends
at its first double quote; `DocumentId.IsInline` is what an id has to avoid so that the
path of its document reads back to it.
-/

namespace LiveDocuments

namespace Text

theorem bne_of_not_mem {mark : Char} {cs : List Char} (h : mark ∉ cs) :
    ∀ c ∈ cs, (c != mark) = true := by
  intro c hc
  have hne : c ≠ mark := fun heq => h (heq ▸ hc)
  simpa using hne

/-- Reading up to a mark reads all there is exactly if there is no mark. -/
theorem takeWhile_bne_eq_self_iff {mark : Char} {cs : List Char} :
    cs.takeWhile (· != mark) = cs ↔ mark ∉ cs := by
  rw [List.takeWhile_eq_self_iff]
  constructor
  · intro hall hmem
    exact absurd (hall mark hmem) (by simp)
  · exact bne_of_not_mem

theorem eq_of_append_mark {mark : Char} {front front' rest rest' : List Char}
    (hfront : mark ∉ front) (hfront' : mark ∉ front')
    (h : front ++ mark :: rest = front' ++ mark :: rest') : front = front' ∧ rest = rest' := by
  have hcut : ∀ {before : List Char}, mark ∉ before → ∀ behind,
      (before ++ mark :: behind).takeWhile (· != mark) = before := by
    intro before hbefore behind
    rw [List.takeWhile_append_of_pos (bne_of_not_mem hbefore),
      List.takeWhile_cons_of_neg (by simp), List.append_nil]
  have hsame : front = front' := by rw [← hcut hfront rest, h, hcut hfront' rest']
  subst hsame
  exact ⟨rfl, (List.cons.inj (List.append_cancel_left h)).2⟩

end Text

namespace DocumentId

/-! ## Printed forms -/

theorem chars_plain_of_quotes {text : String} (h : needsQuotes text.toList = true) :
    (plain text).chars = '\'' :: (text.toList ++ ['\'']) := if_pos h

theorem chars_plain_of_bare {text : String} (h : needsQuotes text.toList = false) :
    (plain text).chars = text.toList := if_neg (Bool.not_eq_true _ ▸ h)

theorem wrapperWord_eq : wrapperWord = ['O', 'b', 'j', 'e', 'c', 't'] := by decide

theorem chars_objectId (hex : String) :
    (objectId hex).chars =
      wrapperWord ++ 'I' :: 'D' :: '(' :: '"' :: (hex.toList ++ ['"', ')']) := by
  have hchars : (objectId hex).chars =
      "ObjectID(\"".toList ++ hex.toList ++ "\")".toList := rfl
  have hfront : "ObjectID(\"".toList = wrapperWord ++ ['I', 'D', '(', '"'] := by decide
  have hback : "\")".toList = ['"', ')'] := by decide
  rw [hchars, hfront, hback]
  simp only [List.append_assoc, List.cons_append, List.nil_append]

theorem not_wrapperWord_of_bare {cs : List Char} (h : needsQuotes cs = false) :
    wrapperWord.isPrefixOf cs = false := (Bool.or_eq_false_iff.mp h).1

theorem mem_of_bare {cs : List Char} (h : needsQuotes cs = false) {c : Char} (hc : c ∈ cs) :
    c ≠ '(' ∧ c ≠ ')' ∧ isQuote c = false := by
  have hnone := List.any_eq_false.mp (Bool.or_eq_false_iff.mp h).2 c hc
  simpa [and_assoc] using hnone

theorem slash_mem_chars_iff (id : DocumentId) : '/' ∈ id.chars ↔ '/' ∈ id.name.toList := by
  cases id with
  | plain text =>
      cases h : needsQuotes text.toList
      · rw [chars_plain_of_bare h]
        rfl
      · rw [chars_plain_of_quotes h]
        simp [name]
  | objectId hex =>
      have hword : '/' ∉ wrapperWord := by decide
      rw [chars_objectId]
      simp [name, hword]

theorem ne_quoted_of_bare {cs : List Char} (h : needsQuotes cs = false) (rest : List Char) :
    cs ≠ '\'' :: rest := by
  rintro rfl
  have := (mem_of_bare h List.mem_cons_self).2.2
  simp [isQuote] at this

theorem ne_wrapped_of_bare {cs : List Char} (h : needsQuotes cs = false) (rest : List Char) :
    cs ≠ wrapperWord ++ rest := by
  rintro rfl
  have := not_wrapperWord_of_bare h
  rw [List.isPrefixOf_iff_prefix.mpr (List.prefix_append _ _)] at this
  cases this

theorem quoted_ne_wrapped (front rest : List Char) : '\'' :: front ≠ wrapperWord ++ rest := by
  intro heq
  have hhead : some '\'' = some 'O' := congrArg List.head? heq
  exact absurd hhead (by decide)

/-- The path text of an id determines the id: a quoted form begins with a quote, an object
id with its word, and a bare form with neither. -/
theorem chars_injective {a b : DocumentId} (h : a.chars = b.chars) : a = b := by
  cases a with
  | plain s =>
      cases b with
      | plain t =>
          cases hs : needsQuotes s.toList <;> cases ht : needsQuotes t.toList
          · rw [chars_plain_of_bare hs, chars_plain_of_bare ht] at h
            rw [String.toList_inj.mp h]
          · rw [chars_plain_of_bare hs, chars_plain_of_quotes ht] at h
            exact absurd h (ne_quoted_of_bare hs _)
          · rw [chars_plain_of_quotes hs, chars_plain_of_bare ht] at h
            exact absurd h.symm (ne_quoted_of_bare ht _)
          · rw [chars_plain_of_quotes hs, chars_plain_of_quotes ht] at h
            rw [String.toList_inj.mp (List.append_cancel_right (List.cons.inj h).2)]
      | objectId hex =>
          rw [chars_objectId] at h
          cases hs : needsQuotes s.toList
          · rw [chars_plain_of_bare hs] at h
            exact absurd h (ne_wrapped_of_bare hs _)
          · rw [chars_plain_of_quotes hs] at h
            exact absurd h (quoted_ne_wrapped _ _)
  | objectId hex =>
      rw [chars_objectId] at h
      cases b with
      | plain t =>
          cases ht : needsQuotes t.toList
          · rw [chars_plain_of_bare ht] at h
            exact absurd h.symm (ne_wrapped_of_bare ht _)
          · rw [chars_plain_of_quotes ht] at h
            exact absurd h.symm (quoted_ne_wrapped _ _)
      | objectId other =>
          rw [chars_objectId] at h
          have hbehind := List.append_cancel_left h
          simp only [List.cons.injEq, true_and] at hbehind
          rw [String.toList_inj.mp (List.append_cancel_right hbehind)]

/-! ## Reading printed forms -/

theorem unquote?_of_not_isQuote {c : Char} (h : isQuote c = false) (rest : List Char) :
    unquote? (c :: rest) = none := by
  rw [unquote?, h, if_neg (by simp)]

theorem ofText_of_not_isQuote {text : String} (h : ∀ c ∈ text.toList, isQuote c = false) :
    ofText text = plain text := by
  have hunquote : unquote? text.toList = none := by
    cases hcs : text.toList with
    | nil => rfl
    | cons c rest => exact unquote?_of_not_isQuote (h c (hcs ▸ List.mem_cons_self)) rest
  have hunwrap : unwrap? text.toList = none := by
    unfold unwrap?
    split
    · rfl
    next rest hrest =>
      have happend := List.isPrefixOf?_eq_some_iff_append_eq.mp hrest
      have hnone : rest.dropWhile (fun c => !isQuote c) = [] := by
        refine List.dropWhile_eq_nil_iff.mpr fun c hc => ?_
        simp [h c (happend ▸ List.mem_append_right _ hc)]
      rw [hnone]
  rw [ofText, hunquote, hunwrap]

theorem sublist_of_unquote? {cs inner : List Char} (h : unquote? cs = some inner) :
    inner.Sublist cs := by
  cases cs with
  | nil => cases h
  | cons c rest =>
      simp only [unquote?] at h
      split at h
      · obtain rfl := Option.some.inj h
        exact (List.dropLast_sublist rest).trans (List.sublist_cons_self c rest)
      · cases h

theorem sublist_of_unwrap? {cs inner : List Char} (h : unwrap? cs = some inner) :
    inner.Sublist cs := by
  unfold unwrap? at h
  split at h
  · cases h
  next rest hrest =>
    split at h
    · cases h
    next quote more hmore =>
      obtain rfl := Option.some.inj h
      have hsuffix : wrapperWord ++ rest = cs := List.isPrefixOf?_eq_some_iff_append_eq.mp hrest
      have hinner : (quote :: more).Sublist rest := hmore ▸ List.dropWhile_sublist _
      have hrest' : rest.Sublist cs := hsuffix ▸ List.sublist_append_right wrapperWord rest
      exact ((List.takeWhile_sublist _).trans (List.sublist_cons_self quote more)).trans
        (hinner.trans hrest')

theorem name_ofText_sublist (text : String) :
    (ofText text).name.toList.Sublist text.toList := by
  unfold ofText
  split
  · next h => simpa [name] using sublist_of_unquote? h
  · split
    · next h => simpa [name] using sublist_of_unwrap? h
    · exact List.Sublist.refl _

theorem ofText_toText_plain (text : String) : ofText (plain text).toText = plain text := by
  unfold ofText
  rw [toList_toText]
  cases h : needsQuotes text.toList
  · rw [chars_plain_of_bare h]
    have hunquote : unquote? text.toList = none := by
      cases hcs : text.toList with
      | nil => rfl
      | cons c rest =>
          exact unquote?_of_not_isQuote (mem_of_bare h (hcs ▸ List.mem_cons_self)).2.2 rest
    have hunwrap : unwrap? text.toList = none := by
      have hprefix : wrapperWord.isPrefixOf? text.toList = none := by
        cases hp : wrapperWord.isPrefixOf? text.toList with
        | none => rfl
        | some rest =>
            have happend := List.isPrefixOf?_eq_some_iff_append_eq.mp hp
            exact absurd happend.symm (ne_wrapped_of_bare h rest)
      rw [unwrap?, hprefix]
    rw [hunquote, hunwrap]
    simp only [toText, chars_plain_of_bare h, String.ofList_toList]
  · rw [chars_plain_of_quotes h]
    have hunquote : unquote? ('\'' :: (text.toList ++ ['\''])) = some text.toList := by
      simp [unquote?, isQuote]
    rw [hunquote]
    simp only [String.ofList_toList]

/-- Of an object id is read back what stands before its first double quote. -/
theorem ofText_toText_objectId (hex : String) :
    ofText (objectId hex).toText = objectId (String.ofList (hex.toList.takeWhile (· != '"'))) := by
  have hunquote : unquote? (objectId hex).chars = none := by
    rw [chars_objectId, wrapperWord_eq]
    exact unquote?_of_not_isQuote (by decide) _
  have hrest : wrapperWord.isPrefixOf? (objectId hex).chars =
      some ('I' :: 'D' :: '(' :: '"' :: (hex.toList ++ ['"', ')'])) := by
    rw [List.isPrefixOf?_eq_some_iff_append_eq, chars_objectId]
  have hinner : (hex.toList ++ ['"', ')']).takeWhile (· != '"') =
      hex.toList.takeWhile (· != '"') := by
    rw [List.takeWhile_append]
    split
    · next hall =>
        rw [List.takeWhile_cons_of_neg (by decide), List.append_nil]
        exact ((List.takeWhile_prefix _).eq_of_length hall).symm
    · rfl
  have hunwrap : unwrap? (objectId hex).chars = some (hex.toList.takeWhile (· != '"')) := by
    have hdrop : ('I' :: 'D' :: '(' :: '"' :: (hex.toList ++ ['"', ')'])).dropWhile
        (fun c => !isQuote c) = '"' :: (hex.toList ++ ['"', ')']) := rfl
    rw [unwrap?, hrest]
    simp only [hdrop, hinner]
  rw [ofText, toList_toText, hunquote, hunwrap]

/-- The id is read back from its place in a path: it has no slash, and no double quote
that would end an object id. -/
def IsInline : DocumentId → Prop
  | plain text => '/' ∉ text.toList
  | objectId hex => '/' ∉ hex.toList ∧ '"' ∉ hex.toList

instance : DecidablePred IsInline
  | plain text => inferInstanceAs (Decidable ('/' ∉ text.toList))
  | objectId hex => inferInstanceAs (Decidable ('/' ∉ hex.toList ∧ '"' ∉ hex.toList))

theorem slash_not_mem_of_isInline {id : DocumentId} (h : id.IsInline) :
    '/' ∉ id.name.toList := by
  cases id with
  | plain text => exact h
  | objectId hex => exact h.1

theorem ofText_toText {id : DocumentId} (h : id.IsInline) : ofText id.toText = id := by
  cases id with
  | plain text => exact ofText_toText_plain text
  | objectId hex =>
      rw [ofText_toText_objectId, Text.takeWhile_bne_eq_self_iff.mpr h.2, String.ofList_toList]

theorem isInline_of_ofText_toText {id : DocumentId} (hslash : '/' ∉ id.name.toList)
    (h : ofText id.toText = id) : id.IsInline := by
  cases id with
  | plain text => exact hslash
  | objectId hex =>
      refine ⟨hslash, ?_⟩
      rw [ofText_toText_objectId] at h
      have hwhole := congrArg String.toList (objectId.inj h)
      rw [String.toList_ofList] at hwhole
      exact Text.takeWhile_bne_eq_self_iff.mp hwhole

end DocumentId

/-! ## Paths under a collection -/

namespace Components

theorem toList_pathOf (collection : String) (id : DocumentId) :
    (pathOf collection id).toList = '/' :: (collection.toList ++ '(' :: (id.chars ++ [')'])) := by
  simp only [pathOf, String.toList_append, DocumentId.toList_toText, List.append_assoc]
  rfl

/-- Documents of a collection with one path are one document. -/
theorem pathOf_injective (collection : String) {a b : DocumentId}
    (h : pathOf collection a = pathOf collection b) : a = b := by
  have hlist := congrArg String.toList h
  rw [toList_pathOf, toList_pathOf] at hlist
  have hafter := List.append_cancel_left (List.cons.inj hlist).2
  exact DocumentId.chars_injective (List.append_cancel_right (List.cons.inj hafter).2)

theorem pathOf_inj_iff {collection other : String} (hcollection : '(' ∉ collection.toList)
    (hother : '(' ∉ other.toList) {a b : DocumentId} :
    pathOf collection a = pathOf other b ↔ collection = other ∧ a = b := by
  constructor
  · intro h
    have hlist := congrArg String.toList h
    rw [toList_pathOf, toList_pathOf] at hlist
    obtain ⟨hnames, -⟩ := Text.eq_of_append_mark hcollection hother (List.cons.inj hlist).2
    obtain rfl := String.toList_inj.mp hnames
    exact ⟨rfl, pathOf_injective collection h⟩
  · rintro ⟨rfl, rfl⟩
    rfl

/-- The segment of a document gives its collection and what is between the parentheses. -/
theorem parseSegment_document {collection : List Char} (hparen : '(' ∉ collection)
    (inner : List Char) :
    parseSegment (collection ++ '(' :: (inner ++ [')'])) =
      .ok (String.ofList collection, some (DocumentId.ofText (String.ofList inner))) := by
  have hnames := Text.bne_of_not_mem hparen
  have htake : (collection ++ '(' :: (inner ++ [')'])).takeWhile (· != '(') = collection := by
    rw [List.takeWhile_append_of_pos hnames, List.takeWhile_cons_of_neg (by decide),
      List.append_nil]
  have hdrop : (collection ++ '(' :: (inner ++ [')'])).dropWhile (· != '(') =
      '(' :: (inner ++ [')']) := by
    rw [List.dropWhile_append_of_pos hnames, List.dropWhile_cons_of_neg (by decide)]
  simp only [parseSegment, htake, hdrop, List.getLast?_concat, if_true, List.dropLast_concat]

/-- The path of a document in a well-named collection is read as one segment, if the id has
no slash. -/
theorem ofPath_pathOf {collection : String} {id : DocumentId}
    (hslash : '/' ∉ collection.toList) (hparen : '(' ∉ collection.toList)
    (hid : '/' ∉ id.name.toList) :
    ofPath (pathOf collection id) =
      .ok ⟨collection, some (DocumentId.ofText id.toText), ""⟩ := by
  have hchars : '/' ∉ id.chars := fun h => hid ((DocumentId.slash_mem_chars_iff id).mp h)
  have hsegments : Text.segments '/' (collection.toList ++ '(' :: (id.chars ++ [')'])) =
      [collection.toList ++ '(' :: (id.chars ++ [')'])] := by
    rw [Text.segments_of_not_mem (by simp [hslash, hchars]), if_neg (by simp)]
  have hparse : parse (pathOf collection id) =
      .ok ⟨collection, some (DocumentId.ofText id.toText), ""⟩ := by
    rw [parse, toList_pathOf, ofChars, hsegments, ofSegments, parseSegment_document hparen]
    simp only [String.ofList_toList]
    rfl
  rw [ofPath, hparse]

theorem ofPath_pathOf_of_isInline {collection : String} {id : DocumentId}
    (hslash : '/' ∉ collection.toList) (hparen : '(' ∉ collection.toList) (hid : id.IsInline) :
    ofPath (pathOf collection id) = .ok ⟨collection, some id, ""⟩ := by
  rw [ofPath_pathOf hslash hparen (DocumentId.slash_not_mem_of_isInline hid),
    DocumentId.ofText_toText hid]

theorem ofPath_collection {collection : String} (hname : collection ≠ "")
    (hslash : '/' ∉ collection.toList) (hparen : '(' ∉ collection.toList) :
    ofPath ("/" ++ collection) = .ok ⟨collection, none, ""⟩ := by
  have hchars : ("/" ++ collection).toList = '/' :: collection.toList := by
    rw [String.toList_append]
    rfl
  have hnonempty : collection.toList ≠ [] := fun h => hname (String.toList_eq_nil_iff.mp h)
  have hnames := Text.bne_of_not_mem hparen
  have hsegment : parseSegment collection.toList = .ok (collection, none) := by
    rw [parseSegment, Text.takeWhile_bne_eq_self_iff.mpr hparen,
      List.dropWhile_eq_nil_iff.mpr hnames, String.ofList_toList]
  have hparse : parse ("/" ++ collection) = .ok ⟨collection, none, ""⟩ := by
    rw [parse, hchars, ofChars, Text.segments_of_not_mem hslash, if_neg hnonempty, ofSegments,
      hsegment]
    rfl
  rw [ofPath, hparse]

theorem slash_not_mem_name {path : String} {c : Components} (h : ofPath path = .ok c) :
    ∀ id ∈ c.documentId, '/' ∉ id.name.toList := by
  intro id hid hmem
  obtain ⟨segment, hsegment, hparsed⟩ := parseSegment_of_ofPath h
  obtain ⟨inner, hinner, rfl⟩ := (parseSegment_eq_ok hparsed).2 id hid
  have hmem' := (DocumentId.name_ofText_sublist _).subset hmem
  rw [String.toList_ofList] at hmem'
  exact hsegment (hinner.subset hmem')

theorem isInline_of_ofPath {collection : String} {id : DocumentId} {c : Components}
    (hslash : '/' ∉ collection.toList) (hparen : '(' ∉ collection.toList)
    (h : ofPath (pathOf collection id) = .ok c) (hid : c.documentId = some id) :
    id.IsInline := by
  have hname := slash_not_mem_name h id hid
  rw [ofPath_pathOf hslash hparen hname] at h
  obtain rfl := Except.ok.inj h
  exact DocumentId.isInline_of_ofText_toText hname (Option.some.inj hid)

end Components

theorem Synchronizer.documentPath_eq (collection : String) :
    documentPath ("/" ++ collection) = Components.pathOf collection := rfl

end LiveDocuments
