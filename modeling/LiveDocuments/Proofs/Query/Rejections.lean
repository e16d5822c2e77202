import LiveDocuments.Proofs.Query.Filters
import LiveDocuments.Proofs.Query.SortedProperties

/-!
# What is left out of a query

Filters can be taken in one after the other: one that can be used joins the group of its
property, one that cannot leaves an error behind and the groups as they are. The compiler
arrives at the same selector and the same errors (`compileSelector_eq_gathered`). So a filter
that cannot be used moves no group and no clause, wherever it stands in the list, and the same
goes for sorters: a query is made of the entries that can be used, and the errors tell about
the others in their order (`compileQuery_leaves_out`).
-/

namespace LiveDocuments

/-! ## Filters that cannot be used -/

namespace Filter

/-- What is wrong with a filter that cannot be used. The operator of a compound filter is not
looked at. -/
def objection (f : Filter) : BindingError :=
  if f.compound then .multiFilter f.path else .unknownFilterOperator f.path f.operator.name

/-- A filter cannot be used if it is compound or its operator is unknown. -/
theorem not_isAccepted_iff (f : Filter) :
    ¬ f.IsAccepted ↔ f.compound = true ∨ f.operator.isKnown = false := by
  cases f with
  | mk path operator value upper compound =>
      cases compound <;> cases operator <;>
        simp [IsAccepted, Operator.acceptable, Operator.narrowing, Operator.isKnown]

theorem exists_fragment_of_isAccepted {f : Filter} (h : f.IsAccepted) :
    ∃ g, f.fragment = .ok g := by
  have hsome := (isSome_fragment?_iff f).mpr h
  cases hf : f.fragment with
  | ok g => exact ⟨g, rfl⟩
  | error e => simp [fragment?, hf, Except.toOption] at hsome

theorem fragment_of_not_isAccepted {f : Filter} (h : ¬ f.IsAccepted) :
    f.fragment = .error f.objection := by
  rw [not_isAccepted_iff] at h
  unfold fragment objection
  by_cases hcompound : f.compound = true
  · rw [if_pos hcompound, if_pos hcompound]
  · rw [if_neg hcompound, if_neg hcompound]
    have hunknown := h.resolve_left hcompound
    cases hoperator : f.operator <;>
      simp [hoperator, Operator.isKnown, condition?] at hunknown ⊢

end Filter

/-! ## Groups of filters -/

/-- What the filters on one property contribute. -/
structure Group where
  alternatives : List Fragment
  others : List Fragment

namespace Group

def empty : Group := ⟨[], []⟩

/-- The group with one more contribution. -/
def add (group : Group) (g : Fragment) : Group :=
  if g.alternative then { group with alternatives := group.alternatives ++ [g] }
  else { group with others := group.others ++ [g] }

/-- The clauses of a group: its alternatives, then its ranges and exclusions. -/
def clauses (group : Group) : List Json :=
  Fragment.anyOf group.alternatives ++ group.others.map Fragment.clause

/-- What of a list is on one property. -/
def on (fragments : List Fragment) (property : String) : Group :=
  let mine := fragments.filter fun g => g.path = property
  ⟨mine.filter (·.alternative), mine.filter fun g => !g.alternative⟩

theorem clauses_on (fragments : List Fragment) (property : String) :
    (on fragments property).clauses = Fragment.clausesOf fragments property := rfl

theorem on_concat (fragments : List Fragment) (g : Fragment) (property : String) :
    on (fragments ++ [g]) property =
      if property = g.path then (on fragments property).add g else on fragments property := by
  by_cases hpath : property = g.path
  · subst hpath
    cases hkind : g.alternative <;> simp [on, add, hkind]
  · simp [on, hpath, Ne.symm hpath]

theorem on_of_not_mem {fragments : List Fragment} {property : String}
    (h : property ∉ fragments.map Fragment.path) : on fragments property = empty := by
  have hnone : fragments.filter (fun g => g.path = property) = [] := by
    rw [List.filter_eq_nil_iff]
    intro g hg hpath
    exact h (List.mem_map.mpr ⟨g, hg, of_decide_eq_true hpath⟩)
  simp [on, hnone, empty]

end Group

/-! ## Taking filters in -/

/-- The groups and errors of the filters so far. -/
structure Gathering where
  groups : List (String × Group)
  diagnostics : List BindingError

namespace Gathering

def empty : Gathering := ⟨[], []⟩

/-- The groups with a contribution in the group of its property, which is opened if there is
none. -/
def join (groups : List (String × Group)) (g : Fragment) : List (String × Group) :=
  Entries.amend g.path (fun group => (group.getD .empty).add g) groups

/-- One more filter. -/
def take (gathering : Gathering) (f : Filter) : Gathering :=
  match f.fragment with
  | .ok g => { gathering with groups := join gathering.groups g }
  | .error e => { gathering with diagnostics := gathering.diagnostics ++ [e] }

/-- All filters of a list, one after the other. -/
def ofFilters (filters : List Filter) : Gathering := filters.foldl take empty

/-- The selector that demands the clauses of every group. -/
def selector (gathering : Gathering) : Json :=
  Fragment.allOf (gathering.groups.flatMap fun entry => entry.2.clauses)

theorem ofFilters_concat (front : List Filter) (f : Filter) :
    ofFilters (front ++ [f]) = (ofFilters front).take f :=
  List.foldl_concat take empty f front

theorem take_of_fragment {f : Filter} {g : Fragment} (h : f.fragment = .ok g)
    (gathering : Gathering) :
    gathering.take f = ⟨join gathering.groups g, gathering.diagnostics⟩ := by
  rw [take, h]

theorem take_of_not_isAccepted {f : Filter} (h : ¬ f.IsAccepted) (gathering : Gathering) :
    gathering.take f = ⟨gathering.groups, gathering.diagnostics ++ [f.objection]⟩ := by
  rw [take, Filter.fragment_of_not_isAccepted h]

/-- All filters of a list make the groups of those that can be used, and an error for each of
the others. -/
theorem ofFilters_eq (filters : List Filter) :
    ofFilters filters =
      ⟨(ofFilters (filters.filter fun f => f.IsAccepted)).groups,
        (filters.filter fun f => ¬ f.IsAccepted).map Filter.objection⟩ := by
  induction filters using List.reverseRecOn with
  | nil => rfl
  | append_singleton front f ih =>
      rw [ofFilters_concat, ih, List.filter_append, List.filter_append, List.filter_singleton,
        List.filter_singleton]
      by_cases h : f.IsAccepted
      · obtain ⟨g, hg⟩ := Filter.exists_fragment_of_isAccepted h
        simp [h, ofFilters_concat, take_of_fragment hg]
      · simp [h, take_of_not_isAccepted h]

/-- What the filters contribute is taken in one after the other, whatever is between them. -/
theorem ofFilters_eq_foldl (filters : List Filter) :
    ofFilters filters =
      ⟨(filters.filterMap Filter.fragment?).foldl join [],
        filters.filterMap Filter.rejection?⟩ := by
  induction filters using List.reverseRecOn with
  | nil => rfl
  | append_singleton front f ih =>
      rw [ofFilters_concat, ih, List.filterMap_append, List.filterMap_append]
      cases hf : f.fragment with
      | ok g => simp [take, hf, Filter.fragment?, Filter.rejection?, Except.toOption]
      | error e => simp [take, hf, Filter.fragment?, Filter.rejection?, Except.toOption]

/-- The groups stand in the order in which their properties first appear. -/
theorem groups_ofFilters (filters : List Filter) :
    let fragments := filters.filterMap Filter.fragment?
    (ofFilters filters).groups =
      (Fragment.properties fragments).map fun property =>
        (property, Group.on fragments property) := by
  rw [ofFilters_eq_foldl]
  refine Entries.foldl_amend Fragment.path (fun g group => (group.getD .empty).add g) Group.on ?_ _
  intro fragments g property
  rw [Group.on_concat]
  by_cases hpath : property = g.path
  · rw [if_pos hpath, if_pos hpath]
    by_cases hmem : property ∈ fragments.map Fragment.path
    · rw [if_pos hmem, Option.getD_some]
    · rw [if_neg hmem, Option.getD_none, Group.on_of_not_mem hmem]
  · rw [if_neg hpath, if_neg hpath]

end Gathering

/-- Compiling filters is taking them in one after the other. -/
theorem compileSelector_eq_gathered (filters : List Filter) :
    compileSelector filters =
      ⟨(Gathering.ofFilters filters).selector, (Gathering.ofFilters filters).diagnostics⟩ := by
  rw [Gathering.selector, Gathering.groups_ofFilters, Gathering.ofFilters_eq_foldl,
    List.flatMap_map]
  simp only [Group.clauses_on]
  rfl

/-! ## Sorters that cannot be used -/

theorem filterMap_eq_map_filter {α β : Type} {p : α → Prop} [DecidablePred p] {f : α → Option β}
    {g : α → β} (h : ∀ x, f x = if p x then some (g x) else none) (xs : List α) :
    xs.filterMap f = (xs.filter p).map g := by
  rw [← List.filterMap_eq_map', List.filterMap_filter]
  refine List.filterMap_congr fun x _ => ?_
  rw [h]
  simp only [decide_eq_true_eq]

namespace Sorter

/-- A sorter that a query can be made of. -/
def IsAccepted (s : Sorter) : Prop :=
  s.customComparison = false ∧ '/' ∉ s.path.toList ∧ '.' ∉ s.path.toList

instance : DecidablePred IsAccepted :=
  fun s => inferInstanceAs (Decidable (s.customComparison = false ∧ _))

/-- What is wrong with a sorter that cannot be used. A nested path is found before a comparison
of its own. -/
def objection (s : Sorter) : BindingError :=
  if '/' ∈ s.path.toList ∨ '.' ∈ s.path.toList then .nestedSortPath s.path
  else .customComparator s.path

/-- The property and direction that a sorter asks for. -/
def wish (s : Sorter) : String × Bool := (s.path, s.descending)

theorem rejection?_eq (s : Sorter) :
    s.rejection? = if ¬ s.IsAccepted then some s.objection else none := by
  by_cases h : s.IsAccepted
  · rw [if_neg (not_not.mpr h)]
    exact (rejection?_eq_none_iff s).mpr h
  · rw [if_pos h]
    unfold rejection? objection
    split
    · rfl
    · next hflat =>
        have hcustom : s.customComparison = true :=
          eq_true_of_ne_false fun hnone => h ⟨hnone, not_or.mp hflat⟩
        rw [if_pos hcustom]

theorem request?_eq (s : Sorter) : s.request? = if s.IsAccepted then some s.wish else none := by
  rw [request?, rejection?_eq]
  by_cases h : s.IsAccepted <;> simp [h, wish]

theorem requests_eq (sorters : List Sorter) :
    sorters.filterMap request? = (sorters.filter fun s => s.IsAccepted).map wish :=
  filterMap_eq_map_filter request?_eq sorters

theorem rejections_eq (sorters : List Sorter) :
    sorters.filterMap rejection? = (sorters.filter fun s => ¬ s.IsAccepted).map objection :=
  filterMap_eq_map_filter rejection?_eq sorters

end Sorter

/-- The selector of a list of filters is, clause by clause, that of the filters that can be used;
the errors are, in the order of the list, one for each of the others, and tell whether it is
compound or has an unknown operator. The same goes for sorters. A query reports its filters, if no
document is named by an id, and then its sorters, and is otherwise the query of the entries that
can be used. -/
theorem compileQuery_leaves_out :
    (∀ filters : List Filter,
      (compileSelector filters).value =
        (compileSelector (filters.filter fun f => f.IsAccepted)).value ∧
      (compileSelector filters).diagnostics =
        (filters.filter fun f => ¬ f.IsAccepted).map Filter.objection) ∧
    (∀ sorters : List Sorter,
      (compileSort sorters).value = (compileSort (sorters.filter fun s => s.IsAccepted)).value ∧
      (compileSort sorters).diagnostics =
        (sorters.filter fun s => ¬ s.IsAccepted).map Sorter.objection) ∧
    ∀ (components : Components) (sorters : List Sorter) (filters : List Filter) (limit : Nat),
      let query := compileQuery components sorters filters limit
      let kept := compileQuery components (sorters.filter fun s => s.IsAccepted)
        (filters.filter fun f => f.IsAccepted) limit
      query.diagnostics =
        (if components.documentId.isSome then [] else (compileSelector filters).diagnostics) ++
          (compileSort sorters).diagnostics ∧
      query.value.selector = kept.value.selector ∧ query.value.limit = kept.value.limit ∧
      query.value.sort.getD .empty = kept.value.sort.getD .empty := by
  have hselector : ∀ filters : List Filter, (compileSelector filters).value =
      (compileSelector (filters.filter fun f => f.IsAccepted)).value := by
    intro filters
    rw [compileSelector_eq_gathered, compileSelector_eq_gathered, Gathering.selector,
      Gathering.ofFilters_eq]
    rfl
  have hsort : ∀ sorters : List Sorter, (compileSort sorters).value =
      (compileSort (sorters.filter fun s => s.IsAccepted)).value := by
    intro sorters
    simp only [compileSort, Sorter.requests_eq, List.filter_filter, Bool.and_self]
  refine ⟨fun filters => ⟨hselector filters, ?_⟩, fun sorters => ⟨hsort sorters, ?_⟩,
    fun components sorters filters limit => ⟨?_, ?_, ?_, ?_⟩⟩
  · rw [compileSelector_eq_gathered, Gathering.ofFilters_eq]
  · exact Sorter.rejections_eq sorters
  · exact diagnostics_compileQuery components sorters filters limit
  · rw [selector_compileQuery, selector_compileQuery, selectorFor, selectorFor]
    cases components.documentId with
    | none => exact hselector filters
    | some id => rfl
  · rw [limit_compileQuery, limit_compileQuery]
  · rw [sort_compileQuery, sort_compileQuery]
    exact hsort sorters

end LiveDocuments
