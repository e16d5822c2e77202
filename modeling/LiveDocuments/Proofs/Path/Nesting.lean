import LiveDocuments.Proofs.Path.Canonical
import LiveDocuments.Proofs.Path.Chains

/-!
# Paths under paths

A relative path is put behind the path of a context, with or without a separator, and loses
the slashes at its end. None of this can be seen when the result is read: it has the segments
of the context and then those of the path. So it does not matter whether two relative paths
are resolved one after the other or joined first (`Path.parse_nested`).
-/

namespace LiveDocuments

namespace Path

/-- The segments of an absolute path, behind its first character. -/
def segmentsOf (path : String) : List (List Char) := Text.segments '/' path.toList.tail

theorem parse_eq_ofSegments {path : String} (h : isAbsolute path = true) :
    Components.parse path = Components.ofSegments (segmentsOf path) := by
  rw [Components.parse, segmentsOf]
  rcases isAbsolute_iff.mp h with hmark | hmark
  · obtain ⟨rest, htext⟩ := List.head?_eq_some_iff.mp hmark
    rw [htext, Components.ofChars, List.tail_cons]
  · obtain ⟨rest, htext⟩ := List.head?_eq_some_iff.mp hmark
    rw [htext, Components.ofChars, List.tail_cons]

theorem segments_tail_trimTrailingSlashes (cs : List Char) :
    Text.segments '/' (trimTrailingSlashes cs).tail = Text.segments '/' cs.tail := by
  cases cs with
  | nil => rfl
  | cons mark rest =>
      rw [trimTrailingSlashes_cons, List.tail_cons, segments_dropTrailingSlashes, List.tail_cons]

/-- A path placed under a base adds its segments, whether or not the base ends in a slash. -/
theorem segments_tail_under {base : List Char} (hbase : base ≠ []) (path : List Char) :
    Text.segments '/' (under base path).tail =
      Text.segments '/' base.tail ++ Text.segments '/' path := by
  unfold under
  obtain ⟨mark, rest, rfl⟩ := List.exists_cons_of_ne_nil hbase
  split
  · next hlast =>
      cases rest using List.reverseRecOn with
      | nil => rfl
      | append_singleton front last =>
          rw [← List.cons_append, List.getLast?_concat] at hlast
          obtain rfl := Option.some.inj hlast
          rw [List.cons_append, List.tail_cons, List.append_assoc, List.singleton_append,
            Text.segments_append_cons, List.tail_cons, Text.segments_concat]
  · rw [List.cons_append, List.tail_cons, Text.segments_append_cons, List.tail_cons]

/-- Under an absolute base a relative path denotes an absolute one, with its own segments
behind those of the base. -/
theorem exists_resolve_relative {base path : String} (hbase : isAbsolute base = true)
    (hpath : path ≠ "") (hrelative : isAbsolute path = false) (legacySyntax : Bool) :
    ∃ resolved, resolve legacySyntax path (some base) = some resolved ∧
      isAbsolute resolved = true ∧
      segmentsOf resolved = segmentsOf base ++ Text.segments '/' path.toList := by
  have hne : base.toList ≠ [] := by
    intro hnil
    rw [isAbsolute, hnil] at hbase
    cases hbase
  have hresolve : resolve legacySyntax path (some base) =
      some (String.ofList (trimTrailingSlashes (under base.toList path.toList))) := by
    rw [isAbsolute] at hrelative
    rw [resolve, Option.map_some]
    unfold locate
    rw [if_neg (mt String.toList_eq_nil_iff.mp hpath), hrelative, if_neg Bool.false_ne_true,
      Option.map_some]
  have hcontext : ∀ context ∈ some base, isAbsolute context = true := by
    rintro context ⟨⟩
    exact hbase
  refine ⟨_, hresolve, (isCanonical_of_resolve hcontext hresolve).1, ?_⟩
  rw [segmentsOf, String.toList_ofList, segments_tail_trimTrailingSlashes,
    segments_tail_under hne, segmentsOf]

theorem isAbsolute_joined {outer : String} (houter : outer ≠ "") (inner : String) :
    isAbsolute (outer ++ "/" ++ inner) = isAbsolute outer := by
  obtain ⟨mark, rest, htext⟩ :=
    List.exists_cons_of_ne_nil (mt String.toList_eq_nil_iff.mp houter)
  rw [isAbsolute, isAbsolute, String.toList_append, String.toList_append, htext,
    List.cons_append, List.cons_append]
  unfold beginsAbsolute
  split <;> simp_all

/-- Under an absolute base, a relative path under what another one denotes is read as the two
joined by a slash: either both name nothing, and for one reason, or they name the same. -/
theorem parse_nested {base outer inner : String} (hbase : isAbsolute base = true)
    (houter : outer ≠ "" ∧ isAbsolute outer = false)
    (hinner : inner ≠ "" ∧ isAbsolute inner = false) (legacySyntax : Bool) :
    ∃ context nested joined, resolve legacySyntax outer (some base) = some context ∧
      resolve legacySyntax inner (some context) = some nested ∧
      resolve legacySyntax (outer ++ "/" ++ inner) (some base) = some joined ∧
      Components.parse nested = Components.parse joined := by
  obtain ⟨context, hcontext, habsolute, houterSegments⟩ :=
    exists_resolve_relative hbase houter.1 houter.2 legacySyntax
  obtain ⟨nested, hnested, hnestedAbsolute, hnestedSegments⟩ :=
    exists_resolve_relative habsolute hinner.1 hinner.2 legacySyntax
  have hjoinedNe : outer ++ "/" ++ inner ≠ "" := by simp
  obtain ⟨joined, hjoined, hjoinedAbsolute, hjoinedSegments⟩ :=
    exists_resolve_relative hbase hjoinedNe ((isAbsolute_joined houter.1 inner).trans houter.2)
      legacySyntax
  refine ⟨context, nested, joined, hcontext, hnested, hjoined, ?_⟩
  have hsegments : segmentsOf nested = segmentsOf joined := by
    have hslash : (outer ++ "/" ++ inner).toList = outer.toList ++ '/' :: inner.toList := by
      simp [String.toList_append]
    rw [hnestedSegments, houterSegments, hjoinedSegments, hslash, Text.segments_append_cons,
      List.append_assoc]
  rw [parse_eq_ofSegments hnestedAbsolute, parse_eq_ofSegments hjoinedAbsolute, hsegments]

end Path

end LiveDocuments
