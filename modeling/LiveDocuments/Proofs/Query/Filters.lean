import LiveDocuments.Proofs.Selector.Connectives
import LiveDocuments.Query.Compile

/-!
# What a list of filters selects

A list of filters is grouped by property. The alternatives on a property make one clause,
under `$or` if there are several, each range or exclusion is a clause of its own, and
several clauses stand under `$and`. Whatever the order in which the filters come, and
whatever was left out between them, a document is selected exactly if on every property it
is selected by one of the alternatives, if there are any, and by all the others
(`compileSelector_filters`). Each filter counts for what it selects by itself; that need not
be what its operator says.
-/

namespace LiveDocuments

namespace Operator

/-- The operators that name acceptable values. -/
def acceptable : List Operator := [eq, contains, startsWith, endsWith]

/-- The operators that narrow a range or exclude a value. -/
def narrowing : List Operator := [gt, ge, lt, le, between, ne]

end Operator

namespace Filter

/-- A filter that a query can be made of. -/
def IsAccepted (f : Filter) : Prop :=
  f.compound = false ∧ (f.operator ∈ Operator.acceptable ∨ f.operator ∈ Operator.narrowing)

instance : DecidablePred IsAccepted :=
  fun f => inferInstanceAs (Decidable (f.compound = false ∧ _))

/-- The selector of a filter by itself. -/
def alone (f : Filter) : Json := (compileSelector [f]).value

/-- The accepted filters on a property. -/
def acceptedOn (filters : List Filter) (path : String) : List Filter :=
  filters.filter fun f => f.IsAccepted ∧ f.path = path

theorem mem_acceptedOn {filters : List Filter} {path : String} {f : Filter} :
    f ∈ acceptedOn filters path ↔ f ∈ filters ∧ f.IsAccepted ∧ f.path = path := by
  simp [acceptedOn]

theorem isSome_fragment?_iff (f : Filter) : f.fragment?.isSome ↔ f.IsAccepted := by
  cases f with
  | mk path operator value upper compound =>
      cases compound <;> cases operator <;>
        simp [fragment?, fragment, condition?, IsAccepted, Operator.acceptable,
          Operator.narrowing, Except.toOption]

/-- What a filter contributes is on its property, and is an alternative if the operator names
acceptable values and not if it narrows. -/
theorem of_fragment?_eq_some {f : Filter} {g : Fragment} (h : f.fragment? = some g) :
    g.path = f.path ∧ (g.alternative = true ↔ f.operator ∈ Operator.acceptable) ∧
      (g.alternative = false ↔ f.operator ∈ Operator.narrowing) := by
  cases f with
  | mk path operator value upper compound =>
      cases compound <;> cases operator <;>
        simp [fragment?, fragment, condition?, Except.toOption] at h <;>
        subst h <;>
        simp [Operator.isAlternative, Operator.acceptable, Operator.narrowing]

end Filter

namespace Fragment

open Selector

/-! ## The clauses of fragments -/

theorem isRead_allOf_iff {clauses : List Json} :
    IsRead (allOf clauses) ↔ ∀ clause ∈ clauses, IsRead clause := by
  match clauses with
  | [] => exact iff_of_true ⟨.all [], rfl⟩ (by simp)
  | [clause] => simp [allOf]
  | _ :: _ :: _ => exact isRead_all_iff

theorem selects_allOf_iff {clauses : List Json} {document : Json} :
    Selects (allOf clauses) document ↔ ∀ clause ∈ clauses, Selects clause document := by
  match clauses with
  | [] => exact iff_of_true ⟨.all [], rfl, by simp⟩ (by simp)
  | [clause] => simp [allOf]
  | _ :: _ :: _ => exact selects_all_iff

theorem anyOf_cons_cons (f g : Fragment) (rest : List Fragment) :
    anyOf (f :: g :: rest) = [Json.single "$or" (.array ((f :: g :: rest).map clause))] := rfl

theorem isRead_anyOf_iff {fragments : List Fragment} :
    (∀ clause ∈ anyOf fragments, IsRead clause) ↔ ∀ g ∈ fragments, IsRead g.clause := by
  match fragments with
  | [] => simp [anyOf]
  | [g] => simp [anyOf]
  | f :: g :: rest =>
      rw [anyOf_cons_cons, List.forall_mem_singleton, isRead_any_iff, List.forall_mem_map]

theorem selects_anyOf_iff {fragments : List Fragment} {document : Json}
    (hread : ∀ g ∈ fragments, IsRead g.clause) :
    (∀ clause ∈ anyOf fragments, Selects clause document) ↔
      fragments = [] ∨ ∃ g ∈ fragments, Selects g.clause document := by
  match fragments with
  | [] => simp [anyOf]
  | [g] => simp [anyOf]
  | f :: g :: rest =>
      rw [anyOf_cons_cons, List.forall_mem_singleton,
        selects_any_iff (List.forall_mem_map.mpr hread), or_iff_right (List.cons_ne_nil f _)]
      constructor
      · rintro ⟨_, hitem, hselects⟩
        obtain ⟨h, hmem, rfl⟩ := List.mem_map.mp hitem
        exact ⟨h, hmem, hselects⟩
      · rintro ⟨h, hmem, hselects⟩
        exact ⟨h.clause, List.mem_map_of_mem hmem, hselects⟩

/-- The alternatives on a property. -/
def alternativesOn (fragments : List Fragment) (path : String) : List Fragment :=
  (fragments.filter fun g => g.path = path).filter (·.alternative)

theorem mem_alternativesOn {fragments : List Fragment} {path : String} {g : Fragment} :
    g ∈ alternativesOn fragments path ↔
      g ∈ fragments ∧ g.path = path ∧ g.alternative = true := by
  simp only [alternativesOn, List.mem_filter, decide_eq_true_eq, and_assoc]

theorem mem_properties {fragments : List Fragment} {path : String} :
    path ∈ properties fragments ↔ ∃ g ∈ fragments, g.path = path := by
  simp [properties, List.mem_eraseDups]

theorem forall_mem_clausesOf_iff {fragments : List Fragment} {path : String} {P : Json → Prop} :
    (∀ clause ∈ clausesOf fragments path, P clause) ↔
      (∀ clause ∈ anyOf (alternativesOn fragments path), P clause) ∧
        ∀ g ∈ fragments, g.path = path → g.alternative = false → P g.clause := by
  rw [clausesOf, List.forall_mem_append, List.forall_mem_map]
  refine and_congr_right fun _ => forall_congr' fun g => ?_
  simp only [List.mem_filter, decide_eq_true_eq, Bool.not_eq_true', and_imp]

theorem forall_mem_clauses_iff {fragments : List Fragment} {P : Json → Prop} :
    (∀ clause ∈ clauses fragments, P clause) ↔
      ∀ path, (∃ g ∈ fragments, g.path = path) →
        (∀ clause ∈ anyOf (alternativesOn fragments path), P clause) ∧
          ∀ g ∈ fragments, g.path = path → g.alternative = false → P g.clause := by
  simp only [← forall_mem_clausesOf_iff, ← mem_properties, clauses, List.mem_flatMap]
  constructor
  · intro h path hpath clause hclause
    exact h clause ⟨path, hpath, hclause⟩
  · rintro h clause ⟨path, hpath, hclause⟩
    exact h path hpath clause hclause

theorem isRead_clauses_iff (fragments : List Fragment) :
    IsRead (allOf (clauses fragments)) ↔ ∀ g ∈ fragments, IsRead g.clause := by
  rw [isRead_allOf_iff, forall_mem_clauses_iff]
  constructor
  · intro h g hg
    obtain ⟨halternatives, hothers⟩ := h g.path ⟨g, hg, rfl⟩
    cases hkind : g.alternative with
    | false => exact hothers g hg rfl hkind
    | true => exact isRead_anyOf_iff.mp halternatives g (mem_alternativesOn.mpr ⟨hg, rfl, hkind⟩)
  · intro h path _
    refine ⟨isRead_anyOf_iff.mpr fun g hg => h g (mem_alternativesOn.mp hg).1, ?_⟩
    exact fun g hg _ _ => h g hg

/-- All clauses select a document if on every property one of the alternatives does, if
there are any, and everything else. -/
theorem selects_clauses_iff {fragments : List Fragment} {document : Json}
    (hread : ∀ g ∈ fragments, IsRead g.clause) :
    Selects (allOf (clauses fragments)) document ↔
      ∀ path, (∃ g ∈ fragments, g.path = path) →
        ((∀ g ∈ fragments, g.path = path → ¬ g.alternative = true) ∨
          ∃ g ∈ fragments, g.path = path ∧ g.alternative = true ∧ Selects g.clause document) ∧
        ∀ g ∈ fragments, g.path = path → g.alternative = false → Selects g.clause document := by
  rw [selects_allOf_iff, forall_mem_clauses_iff]
  refine forall_congr' fun path => imp_congr_right fun _ => and_congr_left fun _ => ?_
  rw [selects_anyOf_iff fun g hg => hread g (mem_alternativesOn.mp hg).1,
    List.eq_nil_iff_forall_not_mem]
  simp only [mem_alternativesOn, not_and, and_assoc]

end Fragment

namespace Filter

open Selector

/-! ## Filters and what they contribute -/

theorem alone_eq {f : Filter} {g : Fragment} (h : f.fragment? = some g) :
    f.alone = g.clause := by
  have hclauses : Fragment.clauses [g] = [g.clause] := by
    cases hkind : g.alternative <;>
      simp [Fragment.clauses, Fragment.properties, Fragment.clausesOf, Fragment.anyOf, hkind,
        List.eraseDups_cons]
  rw [alone, compileSelector, List.filterMap_cons_some h, List.filterMap_nil, hclauses]
  rfl

theorem alone_of_condition? {f : Filter} (hsimple : f.compound = false) {value : Json}
    (hvalue : f.condition? = some value) : f.alone = Json.single f.path value := by
  have hfragment : f.fragment? = some ⟨f.path, f.operator.isAlternative, value⟩ := by
    simp [fragment?, fragment, hsimple, hvalue, Except.toOption]
  exact alone_eq hfragment

section

variable {filters : List Filter} {path : String}

theorem exists_fragment {f : Filter} (hf : f ∈ acceptedOn filters path) :
    ∃ g ∈ filters.filterMap fragment?, g.path = path ∧ f.fragment? = some g := by
  obtain ⟨hmem, haccepted, hpath⟩ := mem_acceptedOn.mp hf
  obtain ⟨g, hg⟩ := Option.isSome_iff_exists.mp ((isSome_fragment?_iff f).mpr haccepted)
  refine ⟨g, List.mem_filterMap.mpr ⟨f, hmem, hg⟩, ?_, hg⟩
  rw [(of_fragment?_eq_some hg).1, hpath]

theorem exists_filter {g : Fragment} (hg : g ∈ filters.filterMap fragment?)
    (hpath : g.path = path) : ∃ f ∈ acceptedOn filters path, f.fragment? = some g := by
  obtain ⟨f, hf, hfragment⟩ := List.mem_filterMap.mp hg
  refine ⟨f, mem_acceptedOn.mpr ⟨hf, ?_, ?_⟩, hfragment⟩
  · rw [← isSome_fragment?_iff, hfragment]
    rfl
  · rw [← (of_fragment?_eq_some hfragment).1, hpath]

variable {P : Filter → Prop} {Q : Fragment → Prop}

theorem forall_acceptedOn_iff (h : ∀ f g, f.fragment? = some g → (P f ↔ Q g)) :
    (∀ f ∈ acceptedOn filters path, P f) ↔
      ∀ g ∈ filters.filterMap fragment?, g.path = path → Q g := by
  constructor
  · intro hall g hg hpath
    obtain ⟨f, hf, hfragment⟩ := exists_filter hg hpath
    exact (h f g hfragment).mp (hall f hf)
  · intro hall f hf
    obtain ⟨g, hg, hpath, hfragment⟩ := exists_fragment hf
    exact (h f g hfragment).mpr (hall g hg hpath)

theorem exists_acceptedOn_iff (h : ∀ f g, f.fragment? = some g → (P f ↔ Q g)) :
    (∃ f ∈ acceptedOn filters path, P f) ↔
      ∃ g ∈ filters.filterMap fragment?, g.path = path ∧ Q g := by
  constructor
  · rintro ⟨f, hf, hP⟩
    obtain ⟨g, hg, hpath, hfragment⟩ := exists_fragment hf
    exact ⟨g, hg, hpath, (h f g hfragment).mp hP⟩
  · rintro ⟨g, hg, hpath, hQ⟩
    obtain ⟨f, hf, hfragment⟩ := exists_filter hg hpath
    exact ⟨f, hf, (h f g hfragment).mpr hQ⟩

end

theorem acceptedOn_ne_nil_iff {filters : List Filter} {path : String} :
    acceptedOn filters path ≠ [] ↔ ∃ g ∈ filters.filterMap fragment?, g.path = path := by
  constructor
  · intro h
    obtain ⟨f, hf⟩ := List.exists_mem_of_ne_nil _ h
    obtain ⟨g, hg, hpath, -⟩ := exists_fragment hf
    exact ⟨g, hg, hpath⟩
  · rintro ⟨g, hg, hpath⟩
    obtain ⟨f, hf, -⟩ := exists_filter hg hpath
    exact List.ne_nil_of_mem hf

theorem isRead_fragments_iff (filters : List Filter) :
    (∀ g ∈ filters.filterMap fragment?, IsRead g.clause) ↔
      ∀ f ∈ filters, f.IsAccepted → IsRead f.alone := by
  constructor
  · intro hall f hf haccepted
    obtain ⟨g, hg, -, hfragment⟩ := exists_fragment (mem_acceptedOn.mpr ⟨hf, haccepted, rfl⟩)
    rw [alone_eq hfragment]
    exact hall g hg
  · intro hall g hg
    obtain ⟨f, hf, hfragment⟩ := exists_filter hg rfl
    obtain ⟨hmem, haccepted, -⟩ := mem_acceptedOn.mp hf
    rw [← alone_eq hfragment]
    exact hall f hmem haccepted

end Filter

/-- The selector of a list is accepted exactly if that of every accepted filter by itself is. It
wants a document exactly if, on every property with accepted filters, one of those that name
acceptable values selects the document by itself, if there are any, and so do all those that
narrow. -/
theorem compileSelector_filters (filters : List Filter) :
    (Selector.IsRead (compileSelector filters).value ↔
      ∀ f ∈ filters, f.IsAccepted → Selector.IsRead f.alone) ∧
    ∀ s, Selector.compile (compileSelector filters).value = .ok s → ∀ document,
      (s.accepts document = true ↔ ∀ path, Filter.acceptedOn filters path ≠ [] →
        ((∀ f ∈ Filter.acceptedOn filters path, f.operator ∉ Operator.acceptable) ∨
          ∃ f ∈ Filter.acceptedOn filters path, f.operator ∈ Operator.acceptable ∧
            Selector.Selects f.alone document) ∧
        ∀ f ∈ Filter.acceptedOn filters path, f.operator ∈ Operator.narrowing →
          Selector.Selects f.alone document) := by
  have hread := Fragment.isRead_clauses_iff (filters.filterMap Filter.fragment?)
  refine ⟨hread.trans (Filter.isRead_fragments_iff filters), fun s hs document => ?_⟩
  rw [← Selector.selects_iff_of_compile hs, compileSelector,
    Fragment.selects_clauses_iff (hread.mp ⟨s, hs⟩)]
  refine forall_congr' fun path => ?_
  rw [Filter.acceptedOn_ne_nil_iff]
  refine imp_congr_right fun _ => and_congr (or_congr ?_ ?_) ?_
  · exact (Filter.forall_acceptedOn_iff fun f g h =>
      not_congr (Filter.of_fragment?_eq_some h).2.1.symm).symm
  · exact (Filter.exists_acceptedOn_iff fun f g h => by
      rw [Filter.alone_eq h, (Filter.of_fragment?_eq_some h).2.1]).symm
  · exact (Filter.forall_acceptedOn_iff fun f g h => by
      rw [Filter.alone_eq h, (Filter.of_fragment?_eq_some h).2.2]).symm

/-- Two properties that take turns, with filters between them that cannot be used. -/
def mixedFilters : List Filter :=
  [⟨"age", .ge, .ofInt 18, none, false⟩, ⟨"country", .eq, .string "USA", none, false⟩,
    ⟨"age", .other "NEAR", .ofInt 20, none, false⟩, ⟨"age", .le, .ofInt 65, none, false⟩,
    ⟨"name", .eq, .null, none, true⟩, ⟨"country", .eq, .string "NZ", none, false⟩]

/-- A document within the range and with the second of the alternatives is wanted, so one of
the alternatives selects it by itself. -/
theorem compileSelector_filters_mixed :
    ∃ s document, Selector.compile (compileSelector mixedFilters).value = .ok s ∧
      s.accepts document = true ∧
      ∃ f ∈ Filter.acceptedOn mixedFilters "country", f.operator ∈ Operator.acceptable ∧
        Selector.Selects f.alone document := by
  have hwanted : ∃ s, Selector.compile (compileSelector mixedFilters).value = .ok s ∧
      s.accepts (.object [("age", .ofInt 30), ("country", .string "NZ")]) = true :=
    ⟨_, rfl, by decide +kernel⟩
  rcases hwanted with ⟨s, hs, haccepts⟩
  have hcountry := ((compileSelector_filters mixedFilters).2 s hs _).mp haccepts "country"
    (by decide)
  refine ⟨s, _, hs, haccepts, hcountry.1.resolve_left ?_⟩
  decide

end LiveDocuments
