import LiveDocuments.Error

/-!
# How much of a path is property

A path is cut into segments, the first of them names a collection and a document, and
the others make the property. So the property is shorter than the path, and under the
path of a document it is no longer than what was put behind that path. This is all that
bounds how long lookups can go on.
-/

namespace LiveDocuments

namespace Text

/-! ## Pieces of a text -/

theorem pieces_of_not_mem {separator : Char} {cs : List Char} (h : separator ∉ cs) :
    pieces separator cs = [cs] := by
  induction cs with
  | nil => rfl
  | cons c rest ih =>
      obtain ⟨hc, hrest⟩ := not_or.mp (fun hmem => h (List.mem_cons.mpr hmem))
      rw [pieces, if_neg (Ne.symm hc), ih hrest]

theorem pieces_append_cons (separator : Char) (front rest : List Char) :
    pieces separator (front ++ separator :: rest) =
      pieces separator front ++ pieces separator rest := by
  induction front with
  | nil => simp
  | cons c front ih =>
      rw [List.cons_append, pieces, pieces, ih]
      split
      · rfl
      · cases hfront : pieces separator front with
        | nil => exact absurd hfront (pieces_ne_nil separator front)
        | cons piece others => rfl

theorem not_mem_of_mem_pieces {separator : Char} {piece cs : List Char}
    (h : piece ∈ pieces separator cs) : separator ∉ piece := by
  induction cs generalizing piece with
  | nil =>
      obtain rfl := List.mem_singleton.mp h
      exact List.not_mem_nil
  | cons c rest ih =>
      unfold pieces at h
      split at h
      · rcases List.mem_cons.mp h with rfl | hrest
        · exact List.not_mem_nil
        · exact ih hrest
      · next hc =>
          split at h
          · obtain rfl := List.mem_singleton.mp h
            exact fun hmem => hc (List.mem_singleton.mp hmem).symm
          · next first others hpieces =>
              rw [hpieces] at ih
              rcases List.mem_cons.mp h with rfl | hothers
              · intro hmem
                rcases List.mem_cons.mp hmem with heq | hfirst
                · exact hc heq.symm
                · exact ih List.mem_cons_self hfirst
              · exact ih (List.mem_cons_of_mem _ hothers)

theorem not_mem_of_mem_segments {separator : Char} {piece cs : List Char}
    (h : piece ∈ segments separator cs) : separator ∉ piece :=
  not_mem_of_mem_pieces (List.mem_filter.mp h).1

theorem segments_of_not_mem {separator : Char} {cs : List Char} (h : separator ∉ cs) :
    segments separator cs = if cs = [] then [] else [cs] := by
  rw [segments, pieces_of_not_mem h]
  cases cs <;> simp

theorem segments_append_cons (separator : Char) (front rest : List Char) :
    segments separator (front ++ separator :: rest) =
      segments separator front ++ segments separator rest := by
  rw [segments, pieces_append_cons, List.filter_append, segments, segments]

theorem segments_append {separator : Char} {front : List Char} (h : separator ∉ front)
    (rest : List Char) :
    segments separator (front ++ separator :: rest) =
      (if front = [] then [] else [front]) ++ segments separator rest := by
  rw [segments_append_cons, segments_of_not_mem h]

theorem join_cons_append (separator c : Char) (piece : List Char) (others : List (List Char)) :
    join separator ((c :: piece) :: others) = c :: join separator (piece :: others) := by
  cases others <;> rfl

theorem join_eq_intercalate (separator : Char) (ps : List (List Char)) :
    join separator ps = [separator].intercalate ps := by
  induction ps with
  | nil => rfl
  | cons piece others ih =>
      cases others with
      | nil => rw [join_singleton, List.intercalate_singleton]
      | cons next more =>
          rw [join_cons_cons, ih, List.intercalate_cons_cons, List.append_assoc,
            List.singleton_append]

theorem not_mem_join {mark separator : Char} {ps : List (List Char)} (hmark : mark ≠ separator)
    (h : ∀ piece ∈ ps, mark ∉ piece) : mark ∉ join separator ps := by
  induction ps with
  | nil => exact List.not_mem_nil
  | cons piece others ih =>
      obtain ⟨hpiece, hothers⟩ := List.forall_mem_cons.mp h
      cases others with
      | nil => exact hpiece
      | cons next more =>
          rw [join_cons_cons, List.mem_append, List.mem_cons]
          exact not_or.mpr ⟨hpiece, not_or.mpr ⟨hmark, ih hothers⟩⟩

theorem sublist_join {separator : Char} {piece : List Char} {ps : List (List Char)}
    (h : piece ∈ ps) : piece.Sublist (join separator ps) := by
  induction ps with
  | nil => exact absurd h List.not_mem_nil
  | cons first others ih =>
      cases others with
      | nil =>
          obtain rfl := List.mem_singleton.mp h
          exact List.Sublist.refl piece
      | cons next more =>
          rw [join_cons_cons]
          rcases List.mem_cons.mp h with rfl | hothers
          · exact List.sublist_append_left piece _
          · exact ((ih hothers).cons separator).trans (List.sublist_append_right first _)

theorem sublist_of_mem_segments {separator : Char} {piece cs : List Char}
    (h : piece ∈ segments separator cs) : piece.Sublist cs := by
  have hjoin : piece.Sublist (join separator (pieces separator cs)) :=
    sublist_join (List.mem_filter.mp h).1
  rwa [join_pieces] at hjoin

theorem ne_nil_of_mem_segments {separator : Char} {piece cs : List Char}
    (h : piece ∈ segments separator cs) : piece ≠ [] := by
  simpa using (List.mem_filter.mp h).2

theorem segments_join {separator : Char} {ps : List (List Char)}
    (h : ∀ piece ∈ ps, piece ≠ [] ∧ separator ∉ piece) :
    segments separator (join separator ps) = ps := by
  induction ps with
  | nil => exact segments_nil separator
  | cons piece others ih =>
      obtain ⟨⟨hne, hpiece⟩, hothers⟩ := List.forall_mem_cons.mp h
      cases others with
      | nil => rw [join_singleton, segments_of_not_mem hpiece, if_neg hne]
      | cons next more =>
          rw [join_cons_cons, segments_append hpiece, if_neg hne, ih hothers]
          rfl

theorem segments_concat (separator : Char) (cs : List Char) :
    segments separator (cs ++ [separator]) = segments separator cs := by
  rw [segments_append_cons, segments_nil, List.append_nil]

theorem join_segments_of_not_mem {separator : Char} {cs : List Char} (other : Char)
    (h : separator ∉ cs) : join other (segments separator cs) = cs := by
  rw [segments_of_not_mem h]
  split
  · next hnil => rw [hnil, join_nil]
  · rfl

/-- What begins a text and goes on past its first separator holds all that is before it. -/
theorem prefix_past_separator {separator : Char} {front rest cs : List Char}
    (hfront : separator ∉ front) (hcs : cs <+: front ++ separator :: rest)
    (hpast : separator ∈ cs) : ∃ others, cs = front ++ separator :: others ∧ others <+: rest := by
  have hmark : front ++ [separator] <+: front ++ separator :: rest := ⟨rest, by simp⟩
  have hlonger : front ++ [separator] <+: cs := by
    rcases List.prefix_or_prefix_of_prefix hcs hmark with hshort | hlong
    · rcases List.prefix_concat_iff.mp hshort with rfl | hinside
      · exact List.prefix_rfl
      · exact absurd (hinside.subset hpast) hfront
    · exact hlong
  rcases hlonger with ⟨others, rfl⟩
  refine ⟨others, by simp, ?_⟩
  rw [List.append_assoc] at hcs
  exact (List.cons_prefix_cons.mp ((List.prefix_append_right_inj front).mp hcs)).2

/-! ## The length of joined pieces -/

theorem length_join_cons (separator : Char) (piece : List Char) (others : List (List Char)) :
    (join separator (piece :: others)).length =
      piece.length + if others = [] then 0 else (join separator others).length + 1 := by
  cases others with
  | nil => simp
  | cons next more => simp [join_cons_cons]

theorem length_join_eq (a b : Char) (ps : List (List Char)) :
    (join a ps).length = (join b ps).length := by
  induction ps with
  | nil => rfl
  | cons piece others ih => rw [length_join_cons, length_join_cons, ih]

theorem length_join_le_of_sublist {separator : Char} {some all : List (List Char)}
    (h : some.Sublist all) : (join separator some).length ≤ (join separator all).length := by
  induction h with
  | slnil => exact Nat.le_refl _
  | cons piece hsub ih =>
      rw [length_join_cons]
      split
      · next hall =>
          rw [hall, join_nil] at ih
          exact Nat.le_trans ih (Nat.zero_le _)
      · omega
  | @cons_cons some all piece hsub ih =>
      rw [length_join_cons, length_join_cons]
      by_cases hsome : some = []
      · simp [hsome]
      · have hall : all ≠ [] := by
          rintro rfl
          exact hsome (List.sublist_nil.mp hsub)
        rw [if_neg hsome, if_neg hall]
        omega

theorem length_join_segments_le (a b : Char) (cs : List Char) :
    (join a (segments b cs)).length ≤ cs.length := by
  rw [length_join_eq a b]
  calc (join b (segments b cs)).length
      ≤ (join b (pieces b cs)).length := length_join_le_of_sublist List.filter_sublist
    _ = cs.length := by rw [join_pieces]

theorem length_join_tail_segments_le (a b : Char) (cs : List Char) :
    (join a (segments b cs).tail).length ≤ cs.length :=
  Nat.le_trans (length_join_le_of_sublist (List.tail_sublist _)) (length_join_segments_le a b cs)

theorem length_join_tail_segments_append_le (a : Char) {b : Char} {front : List Char}
    (h : b ∉ front) (rest : List Char) :
    (join a (segments b (front ++ b :: rest)).tail).length ≤ rest.length := by
  rw [segments_append h]
  split
  · exact length_join_tail_segments_le a b rest
  · exact length_join_segments_le a b rest

end Text

namespace Components

/-! ## The length of the property -/

theorem length_restoreSeparator (cs : List Char) :
    (restoreSeparator cs).length = cs.length := by
  induction cs with
  | nil => rfl
  | cons c rest ih =>
      unfold restoreSeparator
      split
      · cases rest with
        | nil => rfl
        | cons d after =>
            by_cases hd : d = '.'
            · subst hd
              rfl
            · split
              · next heq => exact absurd (List.cons.inj heq).1 hd
              · rfl
      · rw [List.length_cons, ih, List.length_cons]

theorem property_ofSegments {segments : List (List Char)} {c : Components}
    (h : ofSegments segments = .ok c) :
    c.property = String.ofList (restoreSeparator (Text.join '.' segments.tail)) := by
  cases segments with
  | nil => cases h
  | cons first others =>
      simp only [ofSegments] at h
      split at h
      · cases h
      · cases h
        rfl

theorem length_property_ofSegments {segments : List (List Char)} {c : Components}
    (h : ofSegments segments = .ok c) :
    c.property.length = (Text.join '.' segments.tail).length := by
  rw [property_ofSegments h, String.length_ofList, length_restoreSeparator]

/-- A path that names something begins with a mark, and its segments stand behind it. -/
theorem ofSegments_of_ofPath {path : String} {c : Components} (h : ofPath path = .ok c) :
    ∃ mark rest, path.toList = mark :: rest ∧
      ofSegments (Text.segments '/' rest) = .ok c := by
  have hparse : ofChars path.toList = .ok c := by
    unfold ofPath parse at h
    split at h
    · next hok => rw [hok, Except.ok.inj h]
    · cases h
  unfold ofChars at hparse
  split at hparse
  · next rest heq => exact ⟨_, rest, heq, hparse⟩
  · next rest heq => exact ⟨_, rest, heq, hparse⟩
  · cases hparse

theorem length_property_lt {path : String} {c : Components} (h : ofPath path = .ok c) :
    c.property.length < path.length := by
  obtain ⟨mark, rest, hpath, hsegments⟩ := ofSegments_of_ofPath h
  have hle := Text.length_join_tail_segments_le '.' '/' rest
  rw [length_property_ofSegments hsegments, ← String.length_toList, hpath, List.length_cons]
  omega

/-! ## What the first segment names -/

theorem parseSegment_eq_ok {segment : List Char} {name : String}
    {documentId : Option DocumentId} (h : parseSegment segment = .ok (name, documentId)) :
    name = String.ofList (segment.takeWhile (· != '(')) ∧
      ∀ id ∈ documentId, ∃ inner, inner.Sublist segment ∧
        id = DocumentId.ofText (String.ofList inner) := by
  simp only [parseSegment] at h
  split at h
  · cases h
    exact ⟨rfl, fun _ h => nomatch h⟩
  next mark rest hrest =>
    split at h
    · cases h
      refine ⟨rfl, fun id hid => ⟨rest.dropLast, ?_, (Option.some.inj hid).symm⟩⟩
      have hsegment : rest.Sublist segment :=
        (hrest ▸ List.sublist_cons_self mark rest).trans (List.dropWhile_sublist _)
      exact (List.dropLast_sublist rest).trans hsegment
    · cases h

theorem parseSegment_of_ofPath {path : String} {c : Components} (h : ofPath path = .ok c) :
    ∃ segment, '/' ∉ segment ∧ parseSegment segment = .ok (c.collection, c.documentId) := by
  obtain ⟨_, rest, _, hsegments⟩ := ofSegments_of_ofPath h
  cases hcut : Text.segments '/' rest with
  | nil =>
      rw [hcut] at hsegments
      cases hsegments
  | cons first others =>
      refine ⟨first, Text.not_mem_of_mem_segments (hcut ▸ List.mem_cons_self), ?_⟩
      rw [hcut] at hsegments
      simp only [ofSegments] at hsegments
      split at hsegments
      · cases hsegments
      next hparsed =>
        cases hsegments
        exact hparsed

theorem slash_not_mem_collection {path : String} {c : Components} (h : ofPath path = .ok c) :
    '/' ∉ c.collection.toList := by
  obtain ⟨segment, hslash, hparsed⟩ := parseSegment_of_ofPath h
  rw [(parseSegment_eq_ok hparsed).1, String.toList_ofList]
  exact fun hmem => hslash ((List.takeWhile_sublist _).subset hmem)

/-! ## The length of the property under a document -/

/-- Under a first segment the property is no longer than what stands behind it. -/
theorem length_property_le_of_prefix {path : String} {c : Components}
    {mark : Char} {front rest : List Char} (hfront : '/' ∉ front)
    (hpath : path.toList <+: mark :: (front ++ '/' :: rest)) (h : ofPath path = .ok c) :
    c.property.length ≤ rest.length := by
  obtain ⟨first, behind, hcons, hsegments⟩ := ofSegments_of_ofPath h
  rw [length_property_ofSegments hsegments]
  rw [hcons] at hpath
  have hbehind := (List.cons_prefix_cons.mp hpath).2
  by_cases hslash : '/' ∈ behind
  · obtain ⟨others, rfl, hothers⟩ := Text.prefix_past_separator hfront hbehind hslash
    exact Nat.le_trans (Text.length_join_tail_segments_append_le '.' hfront others)
      hothers.length_le
  · rw [Text.segments_of_not_mem hslash]
    split <;> exact Nat.zero_le _

end Components

end LiveDocuments
