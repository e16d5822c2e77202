import LiveDocuments.Proofs.Query.Order
import LiveDocuments.Proofs.Selector.ById

/-!
# Documents that are the same are seen alike

Whole-value equality does not count the order of keys and the signs of zeros. Neither
does anything that a query looks at: a property path leads to the same part of documents
that are the same (`valueAt_canonical`), and no selector accepts one of them without the
other (`Selector.accepts_congr`), nor does a sort order tell them apart
(`SortOrder.compare_congr`).
-/

namespace LiveDocuments

namespace Json

theorem canonicalItems_eq_map (items : List Json) :
    canonicalItems items = items.map canonical := by
  induction items with
  | nil => rfl
  | cons first rest ih => rw [canonicalItems, ih, List.map_cons]

end Json

/-! ## Parts of a document -/

namespace Property

theorem stepInto_canonical (value : Json) (step : List Char) :
    stepInto value.canonical step = (stepInto value step).map Json.canonical := by
  cases value with
  | object fields =>
      rw [Json.canonical]
      exact Json.lookup_canonicalFields _ fields
  | array items =>
      rw [Json.canonical, Json.canonicalItems_eq_map]
      simp only [stepInto]
      cases index? step with
      | none => rfl
      | some i => exact List.getElem?_map
  | null => rw [Json.canonical]; rfl
  | bool b => rw [Json.canonical]; rfl
  | number n => rw [Json.canonical]; rfl
  | string s => rw [Json.canonical]; rfl

theorem walk_canonical (value : Json) (steps : List (List Char)) :
    walk value.canonical steps = (walk value steps).map Json.canonical := by
  induction steps generalizing value with
  | nil => rfl
  | cons step rest ih =>
      rw [walk_cons, walk_cons, stepInto_canonical]
      cases stepInto value step with
      | none => rfl
      | some part => exact ih part

end Property

/-- The part of a normal form is the normal form of the part. -/
theorem valueAt_canonical (document : Json) (path : String) :
    valueAt document.canonical path = (valueAt document path).map Json.canonical :=
  Property.walk_canonical _ _

theorem valueAt_congr {a b : Json} (h : a.canonical = b.canonical) (path : String) :
    (valueAt a path).map Json.canonical = (valueAt b path).map Json.canonical := by
  rw [← valueAt_canonical, h, valueAt_canonical]

/-! ## Comparing the parts -/

namespace Json

variable {a b : Json}

theorem units_withoutZeroSign (n : Number) : n.withoutZeroSign.units = n.units := by
  cases n with
  | integer _ => rfl
  | double x => exact x.units_withoutZeroSign

/-- Values with one normal form are numbers of one value, arrays or objects, or they are
equal. -/
theorem cases_of_canonical_eq (h : a.canonical = b.canonical) :
    (∃ n m : Number, a = number n ∧ b = number m ∧ n.units = m.units) ∨
    (∃ items others, a = array items ∧ b = array others ∧
      items.map canonical = others.map canonical) ∨
    (∃ fields others, a = object fields ∧ b = object others) ∨ a = b := by
  cases a <;> cases b <;> simp only [canonical, reduceCtorEq, number.injEq, array.injEq] at h
  case number.number n m =>
    exact .inl ⟨n, m, rfl, rfl, by rw [← units_withoutZeroSign n, h, units_withoutZeroSign]⟩
  case array.array items others =>
    rw [canonicalItems_eq_map, canonicalItems_eq_map] at h
    exact .inr (.inl ⟨items, others, rfl, rfl, h⟩)
  case object.object fields others => exact .inr (.inr (.inl ⟨fields, others, rfl, rfl⟩))
  all_goals exact .inr (.inr (.inr (by simp_all)))

theorem agrees_congr (h : a.canonical = b.canonical) (c : Json) : a.agrees c = b.agrees c := by
  have hsame : a.same c = b.same c := by rw [same, same, h]
  rcases cases_of_canonical_eq h with ⟨n, m, rfl, rfl, hunits⟩ | ⟨_, _, rfl, rfl, -⟩ |
    ⟨_, _, rfl, rfl⟩ | rfl
  · cases c with
    | number z => simp only [agrees, hunits]
    | _ => exact hsame
  · exact hsame
  · exact hsame
  · rfl

theorem compare?_congr (h : a.canonical = b.canonical) (c : Json) :
    a.compare? c = b.compare? c := by
  rcases cases_of_canonical_eq h with ⟨n, m, rfl, rfl, hunits⟩ | ⟨_, _, rfl, rfl, -⟩ |
    ⟨_, _, rfl, rfl⟩ | rfl
  · cases c with
    | number z => simp only [compare?, hunits]
    | _ => rfl
  · rfl
  · rfl
  · rfl

/-- What the normal forms decide holds of an item of one list if of an item of the other. -/
theorem any_congr {f : Json → Bool} (hf : ∀ a b : Json, a.canonical = b.canonical → f a = f b)
    {items others : List Json} (h : items.map canonical = others.map canonical) :
    items.any f = others.any f := by
  induction items generalizing others with
  | nil => rw [List.map_eq_nil_iff.mp h.symm]
  | cons first rest ih =>
      obtain ⟨second, more, rfl, hfirst, hrest⟩ := List.map_eq_cons_iff.mp h.symm
      rw [List.any_cons, List.any_cons, hf _ _ hfirst.symm, ih hrest.symm]

end Json

/-! ## Conditions and selectors -/

section Parts

variable {target other : Option Json}

theorem cases_of_map_canonical_eq (h : target.map Json.canonical = other.map Json.canonical) :
    target = none ∧ other = none ∨
      ∃ a b : Json, target = some a ∧ other = some b ∧ a.canonical = b.canonical := by
  cases target <;> cases other <;> simp_all

theorem equalsOrContains_congr (h : target.map Json.canonical = other.map Json.canonical)
    (expected : Json) : equalsOrContains target expected = equalsOrContains other expected := by
  rcases cases_of_map_canonical_eq h with ⟨rfl, rfl⟩ | ⟨a, b, rfl, rfl, hab⟩
  · rfl
  have hagrees := Json.agrees_congr hab expected
  rcases Json.cases_of_canonical_eq hab with ⟨_, _, rfl, rfl, -⟩ | ⟨_, _, rfl, rfl, hitems⟩ |
    ⟨_, _, rfl, rfl⟩ | rfl
  · exact hagrees
  · cases expected with
    | array _ => exact hagrees
    | _ => exact Json.any_congr (fun _ _ hitem => Json.agrees_congr hitem _) hitems
  · exact hagrees
  · rfl

theorem compareTo?_congr (h : target.map Json.canonical = other.map Json.canonical)
    (operand : Json) : compareTo? target operand = compareTo? other operand := by
  rcases cases_of_map_canonical_eq h with ⟨rfl, rfl⟩ | ⟨a, b, rfl, rfl, hab⟩
  · rfl
  · exact Json.compare?_congr hab operand

theorem Test.matching_holds_congr (h : target.map Json.canonical = other.map Json.canonical)
    (pattern : Pattern) :
    (Test.matching pattern).holds target = (Test.matching pattern).holds other := by
  rcases cases_of_map_canonical_eq h with ⟨rfl, rfl⟩ | ⟨a, b, rfl, rfl, hab⟩
  · rfl
  rcases Json.cases_of_canonical_eq hab with ⟨_, _, rfl, rfl, -⟩ | ⟨_, _, rfl, rfl, -⟩ |
    ⟨_, _, rfl, rfl⟩ | rfl <;> rfl

theorem Test.holds_congr (h : target.map Json.canonical = other.map Json.canonical)
    (test : Test) : test.holds target = test.holds other := by
  have hequals := equalsOrContains_congr h
  have hcompare := compareTo?_congr h
  cases test with
  | matching pattern => exact matching_holds_congr h pattern
  | _ => simp only [holds, hequals, hcompare]

theorem Condition.holds_congr (h : target.map Json.canonical = other.map Json.canonical)
    (condition : Condition) : condition.holds target = condition.holds other := by
  cases condition with
  | equals value => exact equalsOrContains_congr h value
  | tests all => simp only [holds, Test.holds_congr h]

end Parts

namespace Selector

variable {a b : Json}

mutual

/-- Of documents that are the same a selector accepts both or none. -/
theorem accepts_congr (h : a.canonical = b.canonical) :
    (selector : Selector) → selector.accepts a = selector.accepts b
  | all parts => by rw [accepts, accepts, acceptsAll_congr h parts]
  | any parts => by rw [accepts, accepts, acceptsAny_congr h parts]
  | field path condition => by
      rw [accepts, accepts, condition.holds_congr (valueAt_congr h path)]

theorem acceptsAll_congr (h : a.canonical = b.canonical) :
    (parts : List Selector) → acceptsAll parts a = acceptsAll parts b
  | [] => rfl
  | part :: rest => by
      rw [acceptsAll, acceptsAll, accepts_congr h part, acceptsAll_congr h rest]

theorem acceptsAny_congr (h : a.canonical = b.canonical) :
    (parts : List Selector) → acceptsAny parts a = acceptsAny parts b
  | [] => rfl
  | part :: rest => by
      rw [acceptsAny, acceptsAny, accepts_congr h part, acceptsAny_congr h rest]

end

end Selector

/-! ## Sort orders -/

namespace Json

theorem sortCompare_map_canonical (a b : Option Json) :
    sortCompare (a.map canonical) (b.map canonical) = sortCompare a b := by
  have hkind : ∀ value : Option Json, kindRank (value.map canonical) = kindRank value := by
    rintro (_ | value)
    · rfl
    · cases value <;> simp [canonical, kindRank]
  have hnumber : ∀ value : Option Json, numberKey (value.map canonical) = numberKey value := by
    rintro (_ | value)
    · rfl
    · cases value <;> simp [canonical, numberKey, units_withoutZeroSign]
  have htext : ∀ value : Option Json, textKey (value.map canonical) = textKey value := by
    rintro (_ | value)
    · rfl
    · cases value <;> simp [canonical, textKey]
  have htruth : ∀ value : Option Json, truthKey (value.map canonical) = truthKey value := by
    rintro (_ | value)
    · rfl
    · cases value <;> simp [canonical, truthKey]
  simp only [sortCompare_eq, compareLex, compareOn, hkind, hnumber, htext, htruth]

theorem sortCompare_congr {a a' b b' : Option Json} (ha : a.map canonical = a'.map canonical)
    (hb : b.map canonical = b'.map canonical) : sortCompare a b = sortCompare a' b' := by
  rw [← sortCompare_map_canonical, ha, hb, sortCompare_map_canonical]

end Json

namespace SortOrder

variable {a a' b b' : Json}

theorem compareEntries_congr (ha : a.canonical = a'.canonical) (hb : b.canonical = b'.canonical)
    (entries : List (String × Direction)) :
    compareEntries entries a b = compareEntries entries a' b' := by
  induction entries with
  | nil => rfl
  | cons entry rest ih =>
      rw [compareEntries_cons, compareEntries_cons, ih, compareOn, compareOn,
        Json.sortCompare_congr (valueAt_congr ha _) (valueAt_congr hb _)]

/-- A sort order does not tell documents that are the same apart. -/
theorem compare_congr (ha : a.canonical = a'.canonical) (hb : b.canonical = b'.canonical)
    (order : SortOrder) : order.compare a b = order.compare a' b' :=
  compareEntries_congr ha hb order.entries

end SortOrder

end LiveDocuments
