import LiveDocuments.Binding.Elements
import LiveDocuments.Proofs.Model.Reading

/-!
# Canonical paths

A path is canonical if it is absolute and resolves to itself wherever it stands. Those are
the absolute paths without a slash at the end, and the root. Whatever is resolved under
absolute contexts is canonical, and so are the paths of documents and of elements of arrays.
-/

namespace LiveDocuments

namespace Path

/-- The path is absolute and resolves to itself under every context and setting. -/
def IsCanonical (path : String) : Prop :=
  isAbsolute path = true ∧
    ∀ legacySyntax context, resolve legacySyntax path context = some path

/-! ## What resolving keeps and removes -/

theorem isAbsolute_iff {path : String} :
    isAbsolute path = true ↔ path.toList.head? = some '/' ∨ path.toList.head? = some '?' := by
  rw [isAbsolute]
  cases path.toList with
  | nil => simp [beginsAbsolute]
  | cons c rest =>
      unfold beginsAbsolute
      split <;> simp_all

theorem beginsAbsolute_append {front : List Char} (h : beginsAbsolute front = true)
    (rest : List Char) : beginsAbsolute (front ++ rest) = true := by
  cases front with
  | nil => cases h
  | cons c others =>
      rw [List.cons_append]
      unfold beginsAbsolute at h ⊢
      split at h <;> simp_all

theorem beginsAbsolute_trimTrailingSlashes (cs : List Char) :
    beginsAbsolute (trimTrailingSlashes cs) = beginsAbsolute cs := by
  cases cs with
  | nil => rfl
  | cons c rest =>
      rw [trimTrailingSlashes_cons]
      unfold beginsAbsolute
      split <;> simp_all

theorem getLast?_dropTrailingSlashes (cs : List Char) :
    (dropTrailingSlashes cs).getLast? ≠ some '/' := by
  intro h
  have hhead := List.head?_dropWhile_not (· == '/') cs.reverse
  rw [dropTrailingSlashes, List.getLast?_reverse] at h
  rw [h] at hhead
  exact Bool.false_ne_true hhead.symm

theorem trimTrailingSlashes_idem (cs : List Char) :
    trimTrailingSlashes (trimTrailingSlashes cs) = trimTrailingSlashes cs := by
  cases cs with
  | nil => rfl
  | cons c rest =>
      rw [trimTrailingSlashes_cons, trimTrailingSlashes_cons,
        dropTrailingSlashes_eq_self (getLast?_dropTrailingSlashes rest)]

theorem beginsAbsolute_locate {legacySyntax : Bool} {path cs : List Char}
    {context : Option (List Char)} (hcontext : ∀ base ∈ context, beginsAbsolute base = true)
    (h : locate legacySyntax path context = some cs) : beginsAbsolute cs = true := by
  unfold locate at h
  split at h
  · exact hcontext cs h
  split at h
  · next habsolute =>
      obtain rfl := Option.some.inj h
      exact habsolute
  split at h
  · next base =>
      obtain rfl := Option.some.inj h
      unfold under
      split
      · exact beginsAbsolute_append (hcontext base rfl) path
      · exact beginsAbsolute_append (hcontext base rfl) _
  · split at h
    · obtain rfl := Option.some.inj h
      rfl
    · cases h

theorem resolve_of_isAbsolute {path : String} (h : isAbsolute path = true)
    (legacySyntax : Bool) (context : Option String) :
    resolve legacySyntax path context = some (String.ofList (trimTrailingSlashes path.toList)) := by
  have hne : path.toList ≠ [] := by
    intro hnil
    rw [isAbsolute, hnil] at h
    cases h
  have habsolute : beginsAbsolute path.toList = true := h
  have hlocate : locate legacySyntax path.toList (context.map String.toList) =
      some path.toList := by
    unfold locate
    rw [if_neg hne, if_pos habsolute]
  rw [resolve, hlocate, Option.map_some]

/-! ## Which paths are canonical -/

theorem isCanonical_iff {path : String} :
    IsCanonical path ↔
      isAbsolute path = true ∧ trimTrailingSlashes path.toList = path.toList := by
  refine and_congr_right fun habsolute => ?_
  constructor
  · intro h
    have hresolve := h false none
    rw [resolve_of_isAbsolute habsolute] at hresolve
    have htext := congrArg String.toList (Option.some.inj hresolve)
    rwa [String.toList_ofList] at htext
  · intro h legacySyntax context
    rw [resolve_of_isAbsolute habsolute, h, String.ofList_toList]

theorem isCanonical_of_resolve {legacySyntax : Bool} {path resolved : String}
    {context : Option String} (hcontext : ∀ base ∈ context, isAbsolute base = true)
    (h : resolve legacySyntax path context = some resolved) : IsCanonical resolved := by
  obtain ⟨cs, hlocate, rfl⟩ := Option.map_eq_some_iff.mp h
  have habsolute := beginsAbsolute_locate (by
    intro base hbase
    obtain ⟨text, htext, rfl⟩ := Option.map_eq_some_iff.mp hbase
    exact hcontext text htext) hlocate
  rw [isCanonical_iff, isAbsolute, String.toList_ofList, beginsAbsolute_trimTrailingSlashes]
  exact ⟨habsolute, trimTrailingSlashes_idem cs⟩

theorem resolve_empty {base : String} (h : IsCanonical base) (legacySyntax : Bool) :
    resolve legacySyntax "" (some base) = some base := by
  have hlocate : locate legacySyntax "".toList ((some base).map String.toList) =
      some base.toList := if_pos (by decide)
  rw [resolve, hlocate, Option.map_some, (isCanonical_iff.mp h).2, String.ofList_toList]

theorem isCanonical_root : IsCanonical "/" := isCanonical_iff.mpr ⟨rfl, rfl⟩

theorem isCanonical_of_getLast? {path : String} (h : isAbsolute path = true)
    (hlast : path.toList.getLast? ≠ some '/') : IsCanonical path := by
  refine isCanonical_iff.mpr ⟨h, ?_⟩
  cases htext : path.toList with
  | nil => rfl
  | cons c rest =>
      rw [htext] at hlast
      rw [trimTrailingSlashes_cons, dropTrailingSlashes_eq_self]
      intro hrest
      rw [List.getLast?_cons, hrest] at hlast
      exact hlast rfl

theorem IsCanonical.eq_root {path : String} (h : IsCanonical path)
    (hlast : path.toList.getLast? = some '/') : path = "/" := by
  have htrimmed := (isCanonical_iff.mp h).2
  cases htext : path.toList with
  | nil =>
      rw [htext] at hlast
      cases hlast
  | cons c rest =>
      rw [htext, trimTrailingSlashes_cons] at htrimmed
      have hbehind : rest.getLast? ≠ some '/' :=
        (List.cons.inj htrimmed).2 ▸ getLast?_dropTrailingSlashes rest
      rw [htext, List.getLast?_cons] at hlast
      cases hrest : rest.getLast? with
      | none =>
          rw [hrest, Option.getD_none] at hlast
          rw [← String.toList_inj, htext, List.getLast?_eq_none_iff.mp hrest,
            Option.some.inj hlast]
          rfl
      | some last =>
          rw [hrest] at hlast hbehind
          exact absurd hlast hbehind

/-! ## What resolving comes to -/

/-- Nothing is denoted by a relative path without a context, unless it is taken from the
root. -/
theorem resolve_eq_none_iff {legacySyntax : Bool} {path : String} {context : Option String} :
    resolve legacySyntax path context = none ↔
      context = none ∧ (path = "" ∨ isAbsolute path = false ∧ legacySyntax = false) := by
  rw [resolve, Option.map_eq_none_iff, isAbsolute]
  unfold locate
  by_cases hempty : path = ""
  · simp [hempty]
  rw [if_neg (mt String.toList_eq_nil_iff.mp hempty)]
  by_cases habsolute : beginsAbsolute path.toList = true
  · simp [hempty, habsolute]
  · rw [if_neg habsolute]
    cases context with
    | none => simp [hempty, habsolute]
    | some base => simp

/-- Under an absolute context or none, only an empty path without a context, and a relative one
that is not taken from the root, denote nothing. Whatever else a path denotes begins with a mark
of absolute paths, has no slash at its end unless it is the root, and denotes itself wherever it
stands. -/
theorem resolve_canonically (legacySyntax : Bool) (path : String) (context : Option String)
    (hcontext : ∀ base ∈ context, isAbsolute base = true) :
    (resolve legacySyntax path context = none ↔
      context = none ∧ (path = "" ∨ isAbsolute path = false ∧ legacySyntax = false)) ∧
    ∀ resolved, resolve legacySyntax path context = some resolved →
      (resolved.toList.head? = some '/' ∨ resolved.toList.head? = some '?') ∧
      (resolved.toList.getLast? = some '/' → resolved = "/") ∧
      ∀ otherSyntax other, resolve otherSyntax resolved other = some resolved := by
  refine ⟨resolve_eq_none_iff, fun resolved hresolved => ?_⟩
  have hcanonical := isCanonical_of_resolve hcontext hresolved
  exact ⟨isAbsolute_iff.mp hcanonical.1, hcanonical.eq_root, hcanonical.2⟩

/-- Slashes pile up behind a context and behind a relative path, and are all gone in the
end. -/
theorem resolve_canonically_slashed :
    isAbsolute "?Orders(o1)//" = true ∧
      resolve false "items///" (some "?Orders(o1)//") = some "?Orders(o1)//items" ∧
      resolve true "?Orders(o1)//items" none = some "?Orders(o1)//items" := by
  have hresolved : resolve false "items///" (some "?Orders(o1)//") =
      some "?Orders(o1)//items" := by decide +kernel
  have hcontext : ∀ base ∈ some "?Orders(o1)//", isAbsolute base = true := by
    rintro base ⟨⟩
    rfl
  obtain ⟨-, hall⟩ := resolve_canonically false "items///" (some "?Orders(o1)//") hcontext
  exact ⟨rfl, hresolved, (hall _ hresolved).2.2 true none⟩

end Path

open LiveDocuments.Path

/-- The path of a document is canonical. -/
theorem Components.isCanonical_pathOf (collection : String) (id : DocumentId) :
    IsCanonical (pathOf collection id) := by
  have hlast : (pathOf collection id).toList.getLast? = some ')' := by
    rw [toList_pathOf, ← List.cons_append, ← List.cons_append, ← List.append_assoc,
      List.getLast?_concat]
  refine isCanonical_of_getLast? ?_ (by rw [hlast]; decide)
  rw [isAbsolute, toList_pathOf]
  rfl

theorem ElementList.isCanonical_elementPath {resolved : String} (h : isAbsolute resolved = true)
    (index : Nat) : IsCanonical (elementPath resolved index) := by
  refine isCanonical_of_getLast? ?_ ?_
  · rw [isAbsolute, toList_elementPath]
    exact beginsAbsolute_append h _
  · rw [toList_elementPath, ← List.cons_append, ← List.append_assoc, List.getLast?_concat]
    decide

end LiveDocuments
