import LiveDocuments.Proofs.Path.DocumentPath

/-!
# Paths that are read back

Components are written to a path and the path is read again. They come back exactly if
(`parse_toPath_iff`) the collection has neither a slash nor an opening parenthesis and is
not missing altogether, the id fits a path, and the property is one that reading can make:
joining segments leaves no slash, and restoring the separator of a lookup puts one in, just
behind the first closing parenthesis, if a dot was there.
-/

namespace LiveDocuments

namespace Components

/-! ## Properties as reading makes them -/

/-- The first closing parenthesis, if there is one, has no dot directly behind it. -/
def NoDotBehind (cs : List Char) : Prop :=
  ∀ front rest, cs = front ++ ')' :: '.' :: rest → ')' ∈ front

/-- A property as reading makes it: without slashes, or with a single one, which stands
directly behind the first closing parenthesis and in front of something. -/
inductive IsProperty : List Char → Prop where
  | joined {cs : List Char} (hslash : '/' ∉ cs) (hdot : NoDotBehind cs) : IsProperty cs
  | separated {front rest : List Char} (hparen : ')' ∉ front) (hfront : '/' ∉ front)
      (hrest : '/' ∉ rest) (hne : rest ≠ []) : IsProperty (front ++ ')' :: '/' :: rest)

theorem restoreSeparator_cons_of_ne {c : Char} (h : c ≠ ')') (rest : List Char) :
    restoreSeparator (c :: rest) = c :: restoreSeparator rest := by
  conv => lhs; unfold restoreSeparator
  exact if_neg h

theorem restoreSeparator_append {front : List Char} (h : ')' ∉ front) (rest : List Char) :
    restoreSeparator (front ++ rest) = front ++ restoreSeparator rest := by
  induction front with
  | nil => rfl
  | cons c front ih =>
      obtain ⟨hc, hfront⟩ := not_or.mp (fun hmem => h (List.mem_cons.mpr hmem))
      rw [List.cons_append, restoreSeparator_cons_of_ne (Ne.symm hc), ih hfront, List.cons_append]

theorem restoreSeparator_of_not_mem {cs : List Char} (h : ')' ∉ cs) :
    restoreSeparator cs = cs := by
  have happend := restoreSeparator_append h []
  rwa [List.append_nil, restoreSeparator_nil, List.append_nil] at happend

theorem restoreSeparator_dot {front : List Char} (h : ')' ∉ front) (rest : List Char) :
    restoreSeparator (front ++ ')' :: '.' :: rest) = front ++ ')' :: '/' :: rest :=
  restoreSeparator_append h _

theorem restoreSeparator_no_dot {front behind : List Char} (h : ')' ∉ front)
    (hdot : behind.head? ≠ some '.') :
    restoreSeparator (front ++ ')' :: behind) = front ++ ')' :: behind := by
  rw [restoreSeparator_append h]
  cases behind with
  | nil => rfl
  | cons c rest =>
      have hc : c ≠ '.' := fun heq => hdot (by rw [heq, List.head?_cons])
      simp [restoreSeparator, hc]

theorem restoreSeparator_cases (cs : List Char) :
    (NoDotBehind cs ∧ restoreSeparator cs = cs) ∨
      ∃ front rest, ')' ∉ front ∧ cs = front ++ ')' :: '.' :: rest ∧
        restoreSeparator cs = front ++ ')' :: '/' :: rest := by
  by_cases hmem : ')' ∈ cs
  · obtain ⟨front, behind, rfl, hfront⟩ := List.eq_append_cons_of_mem hmem
    by_cases hdot : behind.head? = some '.'
    · obtain ⟨rest, rfl⟩ := List.head?_eq_some_iff.mp hdot
      exact .inr ⟨front, rest, hfront, rfl, restoreSeparator_dot hfront rest⟩
    · refine .inl ⟨fun front' rest heq => ?_, restoreSeparator_no_dot hfront hdot⟩
      by_contra hfront'
      obtain ⟨-, rfl⟩ := Text.eq_of_append_mark hfront hfront' heq
      exact hdot rfl
  · refine .inl ⟨fun front rest heq => ?_, restoreSeparator_of_not_mem hmem⟩
    exact absurd (heq ▸ by simp) hmem

theorem restoreSeparator_eq_self {cs : List Char} (h : NoDotBehind cs) :
    restoreSeparator cs = cs := by
  rcases restoreSeparator_cases cs with ⟨-, hkept⟩ | ⟨front, rest, hfront, hcs, -⟩
  · exact hkept
  · exact absurd (h front rest hcs) hfront

theorem restoreSeparator_join_segments_iff {cs : List Char} :
    restoreSeparator (Text.join '.' (Text.segments '/' cs)) = cs ↔ IsProperty cs := by
  constructor
  · have hslash : '/' ∉ Text.join '.' (Text.segments '/' cs) :=
      Text.not_mem_join (by decide) fun _ => Text.not_mem_of_mem_segments
    intro h
    rcases restoreSeparator_cases (Text.join '.' (Text.segments '/' cs)) with
      ⟨hdot, hkept⟩ | ⟨front, rest, hfront, hjoin, hrestored⟩
    · rw [hkept] at h
      rw [h] at hslash hdot
      exact .joined hslash hdot
    · rw [hjoin] at hslash
      obtain rfl : front ++ ')' :: '/' :: rest = cs := hrestored.symm.trans h
      simp only [List.mem_append, List.mem_cons, not_or] at hslash
      refine .separated hfront hslash.1 hslash.2.2.2 ?_
      -- a slash at the end is lost when the segments are cut
      rintro rfl
      have hcut : Text.segments '/' (front ++ [')', '/']) = [front ++ [')']] := by
        rw [List.append_cons front ')' ['/'], Text.segments_append (by simp [hslash.1])]
        simp
      rw [hcut, Text.join_singleton] at hjoin
      have hlength := congrArg List.length hjoin
      simp at hlength
  · rintro (⟨hslash, hdot⟩ | @⟨front, rest, hparen, hfront, hrest, hne⟩)
    · rw [Text.join_segments_of_not_mem '.' hslash, restoreSeparator_eq_self hdot]
    · have hcut : Text.segments '/' (front ++ ')' :: '/' :: rest) = [front ++ [')'], rest] := by
        rw [List.append_cons front ')', Text.segments_append (by simp [hfront]),
          Text.segments_of_not_mem hrest, if_neg (by simp), if_neg hne]
        rfl
      rw [hcut, Text.join_cons_cons, Text.join_singleton, ← List.append_cons,
        restoreSeparator_dot hparen]

/-! ## The first segment -/

/-- What the path of components has before the property. -/
def segment (c : Components) : List Char :=
  match c.documentId with
  | none => c.collection.toList
  | some id => c.collection.toList ++ '(' :: (id.chars ++ [')'])

theorem toList_documentPath (c : Components) : c.documentPath.toList = '/' :: c.segment := by
  unfold documentPath segment
  cases c.documentId with
  | none => exact String.toList_append
  | some id => exact toList_pathOf c.collection id

theorem toList_toPath (c : Components) :
    c.toPath.toList = '/' :: if c.property = "" then c.segment
      else c.segment ++ '/' :: c.property.toList := by
  unfold toPath
  split
  · exact toList_documentPath c
  · rw [String.toList_append, String.toList_append, toList_documentPath]
    simp

theorem segment_eq_nil_iff (c : Components) :
    c.segment = [] ↔ c.collection = "" ∧ c.documentId = none := by
  unfold segment
  cases c.documentId <;> simp

theorem slash_not_mem_segment_iff (c : Components) :
    '/' ∉ c.segment ↔ '/' ∉ c.collection.toList ∧ ∀ id ∈ c.documentId, '/' ∉ id.name.toList := by
  unfold segment
  cases c.documentId with
  | none => simp
  | some id => simp [DocumentId.slash_mem_chars_iff]

theorem parseSegment_segment {c : Components} (hparen : '(' ∉ c.collection.toList) :
    parseSegment c.segment =
      .ok (c.collection, c.documentId.map fun id => DocumentId.ofText id.toText) := by
  unfold segment
  cases c.documentId with
  | none =>
      simp only [parseSegment, Text.takeWhile_bne_eq_self_iff.mpr hparen,
        List.dropWhile_eq_nil_iff.mpr (Text.bne_of_not_mem hparen), String.ofList_toList]
      rfl
  | some id =>
      simp only [parseSegment_document hparen, String.ofList_toList]
      rfl

theorem segments_toPath {c : Components} (hslash : '/' ∉ c.segment) (hne : c.segment ≠ []) :
    Text.segments '/' c.toPath.toList = c.segment :: Text.segments '/' c.property.toList := by
  rw [toList_toPath, Text.segments_separator]
  split
  · next hproperty =>
      rw [Text.segments_of_not_mem hslash, if_neg hne, hproperty]
      rfl
  · rw [Text.segments_append hslash, if_neg hne]
    rfl

theorem ofSegments_cons {first : List Char} {name : String} {id : Option DocumentId}
    (h : parseSegment first = .ok (name, id)) (others : List (List Char)) :
    ofSegments (first :: others) =
      .ok ⟨name, id, String.ofList (restoreSeparator (Text.join '.' others))⟩ := by
  simp only [ofSegments, h]

/-- What the path of components is read as, if its first segment is one segment. -/
theorem parse_toPath {c : Components} (hparen : '(' ∉ c.collection.toList)
    (hslash : '/' ∉ c.segment) (hne : c.segment ≠ []) :
    parse c.toPath = .ok ⟨c.collection, c.documentId.map fun id => DocumentId.ofText id.toText,
      String.ofList (restoreSeparator
        (Text.join '.' (Text.segments '/' c.property.toList)))⟩ := by
  have hcut := segments_toPath hslash hne
  rw [parse]
  rw [toList_toPath] at hcut ⊢
  rw [Text.segments_separator] at hcut
  rw [ofChars, hcut, ofSegments_cons (parseSegment_segment hparen)]

/-! ## Components that come back -/

/-- Components that are what their path says. -/
structure IsWritable (c : Components) : Prop where
  slash : '/' ∉ c.collection.toList
  paren : '(' ∉ c.collection.toList
  named : c.collection ≠ "" ∨ c.documentId ≠ none
  id : ∀ id ∈ c.documentId, id.IsInline
  property : IsProperty c.property.toList

theorem paren_not_mem_collection {path : String} {c : Components} (h : ofPath path = .ok c) :
    '(' ∉ c.collection.toList := by
  obtain ⟨segment, -, hparsed⟩ := parseSegment_of_ofPath h
  rw [(parseSegment_eq_ok hparsed).1, String.toList_ofList]
  intro hmem
  exact absurd (List.mem_takeWhile_imp hmem) (by simp)

theorem eq_of_parseSegment_none {segment : List Char} {name : String}
    (h : parseSegment segment = .ok (name, none)) : segment = name.toList := by
  rw [(parseSegment_eq_ok h).1, String.toList_ofList]
  simp only [parseSegment] at h
  split at h
  · next hrest => exact (Text.takeWhile_bne_eq_self_iff.mpr fun hmem =>
      absurd (List.dropWhile_eq_nil_iff.mp hrest _ hmem) (by simp)).symm
  · split at h <;> cases h

theorem named_of_ofPath {path : String} {c : Components} (h : ofPath path = .ok c) :
    c.collection ≠ "" ∨ c.documentId ≠ none := by
  obtain ⟨_, rest, -, hsegments⟩ := ofSegments_of_ofPath h
  cases hcut : Text.segments '/' rest with
  | nil =>
      rw [hcut] at hsegments
      cases hsegments
  | cons first others =>
      have hne : first ≠ [] := by
        have hmem : first ∈ Text.segments '/' rest := hcut ▸ List.mem_cons_self
        simpa using (List.mem_filter.mp hmem).2
      rw [hcut] at hsegments
      simp only [ofSegments] at hsegments
      split at hsegments
      · cases hsegments
      next collection id hparsed =>
        cases hsegments
        by_contra hnone
        obtain ⟨rfl, rfl⟩ : collection = "" ∧ id = none := by simpa using hnone
        exact hne (eq_of_parseSegment_none hparsed)

/-- Components are what their path is read as exactly if their collection, id and property fit a
path. -/
theorem parse_toPath_iff (c : Components) : parse c.toPath = .ok c ↔ c.IsWritable := by
  constructor
  · intro h
    have hpath : ofPath c.toPath = .ok c := by rw [ofPath, h]
    have hslash := slash_not_mem_collection hpath
    have hparen := paren_not_mem_collection hpath
    have hname := slash_not_mem_name hpath
    have hnamed := named_of_ofPath hpath
    rw [parse_toPath hparen ((slash_not_mem_segment_iff c).mpr ⟨hslash, hname⟩)
      (mt (segment_eq_nil_iff c).mp (by tauto))] at h
    obtain ⟨-, hid, hproperty⟩ := (Components.mk.injEq ..).mp (Except.ok.inj h)
    refine ⟨hslash, hparen, hnamed, fun id hmem => ?_, ?_⟩
    · rw [Option.mem_def.mp hmem] at hid
      exact DocumentId.isInline_of_ofText_toText (hname id hmem) (Option.some.inj hid)
    · have hback := congrArg String.toList hproperty
      rw [String.toList_ofList] at hback
      exact restoreSeparator_join_segments_iff.mp hback
  · rintro ⟨hslash, hparen, hnamed, hid, hproperty⟩
    have hname : ∀ id ∈ c.documentId, '/' ∉ id.name.toList :=
      fun id hmem => DocumentId.slash_not_mem_of_isInline (hid id hmem)
    have hread : c.documentId.map (fun id => DocumentId.ofText id.toText) = c.documentId := by
      cases hdocument : c.documentId with
      | none => rfl
      | some id => rw [Option.map_some, DocumentId.ofText_toText (hid id hdocument)]
    rw [parse_toPath hparen ((slash_not_mem_segment_iff c).mpr ⟨hslash, hname⟩)
      (mt (segment_eq_nil_iff c).mp (by tauto)), hread,
      restoreSeparator_join_segments_iff.mpr hproperty, String.ofList_toList]

end Components

end LiveDocuments
