import LiveDocuments.Proofs.Path.Canonical
import LiveDocuments.Proofs.Path.Stability
import LiveDocuments.Proofs.Path.Walks

/-!
# What the path of an element names

An index is put behind the text of a resolved path, and the result is read like any path:
cut at slashes, joined with dots, with the separator of a lookup restored. The index has none
of the marks that matter, and a resolved path has no slash at its end, so the index ends up
behind the property as it was read (`Components.ofPath_elementPath`).
-/

namespace LiveDocuments

namespace Text

theorem join_append_last (separator : Char) (ps : List (List Char)) (last suffix : List Char) :
    join separator (ps ++ [last ++ suffix]) = join separator (ps ++ [last]) ++ suffix := by
  induction ps with
  | nil => rfl
  | cons piece others ih =>
      have hcons : ∀ final : List Char, join separator (piece :: (others ++ [final])) =
          piece ++ separator :: join separator (others ++ [final]) := by
        intro final
        cases others <;> rfl
      rw [List.cons_append, hcons, ih, List.cons_append, hcons, List.append_assoc,
        List.cons_append]

/-- What is put behind a text that does not end in a separator is put behind its last
segment. -/
theorem exists_last_segment {separator : Char} {cs : List Char} (hne : cs ≠ [])
    (hlast : cs.getLast? ≠ some separator) :
    ∃ front last, segments separator cs = front ++ [last] ∧ ∀ suffix, separator ∉ suffix →
      segments separator (cs ++ suffix) = front ++ [last ++ suffix] := by
  by_cases hmem : separator ∈ cs
  · -- cut behind the last separator
    obtain ⟨back, front, hreverse, hback⟩ :=
      List.eq_append_cons_of_mem (List.mem_reverse.mpr hmem)
    have hcs : cs = front.reverse ++ separator :: back.reverse := by
      rw [← List.reverse_reverse cs, hreverse]
      simp
    have hback' : separator ∉ back.reverse := fun h => hback (List.mem_reverse.mp h)
    have hbackne : back.reverse ≠ [] := by
      intro hnil
      rw [hcs, hnil, List.getLast?_concat] at hlast
      exact hlast rfl
    refine ⟨segments separator front.reverse, back.reverse, ?_, fun suffix hsuffix => ?_⟩
    · rw [hcs, segments_append_cons, segments_of_not_mem hback', if_neg hbackne]
    · have hnot : separator ∉ back.reverse ++ suffix := by
        simp only [List.mem_append, not_or]
        exact ⟨hback', hsuffix⟩
      rw [hcs, List.append_assoc, List.cons_append, segments_append_cons,
        segments_of_not_mem hnot, if_neg (List.append_ne_nil_of_left_ne_nil hbackne suffix)]
  · refine ⟨[], cs, by rw [segments_of_not_mem hmem, if_neg hne, List.nil_append],
      fun suffix hsuffix => ?_⟩
    have hnot : separator ∉ cs ++ suffix := by
      simp only [List.mem_append, not_or]
      exact ⟨hmem, hsuffix⟩
    rw [segments_of_not_mem hnot, if_neg (List.append_ne_nil_of_left_ne_nil hne suffix),
      List.nil_append]

end Text

theorem Path.getLast?_tail_of_resolve {legacySyntax : Bool} {path resolved : String}
    {context : Option String} (h : resolve legacySyntax path context = some resolved) :
    resolved.toList.tail.getLast? ≠ some '/' := by
  obtain ⟨cs, -, rfl⟩ := Option.map_eq_some_iff.mp h
  rw [String.toList_ofList]
  cases cs with
  | nil => simp
  | cons c rest => exact getLast?_dropTrailingSlashes rest

namespace Components

theorem isAbsolute_of_ofPath {path : String} {c : Components} (h : ofPath path = .ok c) :
    Path.isAbsolute path = true := by
  rw [ofPath_eq_ok_iff, parse] at h
  rw [Path.isAbsolute]
  unfold ofChars at h
  split at h
  · next rest htext => rw [htext, Path.beginsAbsolute]
  · next rest htext => rw [htext, Path.beginsAbsolute]
  · cases h

/-- What begins with no dot and has no parenthesis does not matter for the separator. -/
theorem restoreSeparator_append_suffix {suffix : List Char} (hparen : ')' ∉ suffix)
    (hdot : suffix.head? ≠ some '.') (cs : List Char) :
    restoreSeparator (cs ++ suffix) = restoreSeparator cs ++ suffix := by
  by_cases hmem : ')' ∈ cs
  · obtain ⟨front, behind, rfl, hfront⟩ := List.eq_append_cons_of_mem hmem
    by_cases hbehind : behind.head? = some '.'
    · obtain ⟨rest, rfl⟩ := List.head?_eq_some_iff.mp hbehind
      rw [restoreSeparator_dot hfront, List.append_assoc, List.cons_append, List.cons_append,
        restoreSeparator_dot hfront, List.append_assoc, List.cons_append, List.cons_append]
    · have hboth : (behind ++ suffix).head? ≠ some '.' := by
        cases behind with
        | nil => exact hdot
        | cons c rest => exact hbehind
      rw [restoreSeparator_no_dot hfront hbehind, List.append_assoc, List.cons_append,
        restoreSeparator_no_dot hfront hboth]
  · have hnot : ')' ∉ cs ++ suffix := by
      simp only [List.mem_append, not_or]
      exact ⟨hmem, hparen⟩
    rw [restoreSeparator_of_not_mem hnot, restoreSeparator_of_not_mem hmem]

theorem ofSegments_append_suffix {rest suffix : List Char} {c : Components}
    (h : ofSegments (Text.segments '/' rest) = .ok c) (hproperty : c.property ≠ "")
    (hlast : rest.getLast? ≠ some '/') (hslash : '/' ∉ suffix) (hparen : ')' ∉ suffix)
    (hdot : suffix.head? ≠ some '.') :
    ofSegments (Text.segments '/' (rest ++ suffix)) =
      .ok { c with property := String.ofList (c.property.toList ++ suffix) } := by
  have hne : rest ≠ [] := by
    rintro rfl
    cases h
  obtain ⟨front, last, hcut, hbehind⟩ := Text.exists_last_segment hne hlast
  rw [hcut] at h
  rw [hbehind suffix hslash]
  cases front with
  | nil =>
      exact absurd (property_ofSegments h) hproperty
  | cons first others =>
      rw [List.cons_append] at h ⊢
      simp only [ofSegments] at h ⊢
      split at h
      · cases h
      · cases h
        rw [Text.join_append_last, restoreSeparator_append_suffix hparen hdot,
          String.toList_ofList]

/-- The path of an element names the document that the path of the array names, and in it the
element of the property. -/
theorem ofPath_elementPath {resolved : String} {c : Components} (h : ofPath resolved = .ok c)
    (hproperty : c.property ≠ "") (hlast : resolved.toList.tail.getLast? ≠ some '/')
    (index : Nat) :
    ofPath (ElementList.elementPath resolved index) =
      .ok { c with property := ElementList.elementPath c.property index } := by
  have hsuffix : ∀ mark : Char, mark.isDigit = false → mark ≠ '[' → mark ≠ ']' →
      mark ∉ '[' :: ((toString index).toList ++ [']']) := by
    intro mark hmark hopening hclosing
    simp only [List.mem_cons, List.mem_append, List.not_mem_nil, or_false, not_or]
    exact ⟨hopening, Text.not_mem_toString hmark index, hclosing⟩
  have hbehind : ∀ {rest : List Char}, rest.getLast? ≠ some '/' →
      ofSegments (Text.segments '/' rest) = .ok c →
      ofSegments (Text.segments '/' (rest ++ '[' :: ((toString index).toList ++ [']']))) =
        .ok { c with property := ElementList.elementPath c.property index } := by
    intro rest hrest hsegments
    rw [ofSegments_append_suffix hsegments hproperty hrest
      (hsuffix '/' rfl (by decide) (by decide)) (hsuffix ')' rfl (by decide) (by decide))
      (by simp), ← ElementList.toList_elementPath, String.ofList_toList]
  rw [ofPath_eq_ok_iff, parse] at h ⊢
  rw [ElementList.toList_elementPath]
  unfold ofChars at h
  split at h
  · next rest htext =>
      rw [htext] at hlast ⊢
      exact hbehind hlast h
  · next rest htext =>
      rw [htext] at hlast ⊢
      exact hbehind hlast h
  · cases h

theorem hasLookup_elementPath {c : Components} (hproperty : c.property ≠ "") (index : Nat) :
    hasLookup { c with property := ElementList.elementPath c.property index } =
      c.hasLookup := by
  have hne : c.property.toList ≠ [] := fun hnil => hproperty (String.toList_eq_nil_iff.mp hnil)
  rw [hasLookup, hasLookup, ElementList.toList_elementPath, List.head?_append_of_ne_nil _ hne]

end Components

end LiveDocuments
