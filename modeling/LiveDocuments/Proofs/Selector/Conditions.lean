import LiveDocuments.Proofs.Selector.ById
import LiveDocuments.Selector.Compile
import Mathlib.Data.Set.Finite.Basic

/-!
# Conditions on a property

A property value passes a test if it compares with the operand as the test says. A condition
is read from the shape of a value: an object with a key that begins with `$` is a list of
tests, unless it is an object id. Such an object is then never compared with anything, and
there are always values that tell the tests from equality with it (`exists_not_meant`).
-/

namespace LiveDocuments

/-! ## What tests mean -/

/-- How a property value compares with an operand of its kind. A missing value and one of
another kind do not compare; numbers compare as their nearest doubles do. -/
inductive Compares : Option Json → Json → Ordering → Prop where
  | numbers (a b : Number) : Compares (some (.number a)) (.number b) (compare a.units b.units)
  | strings (a b : String) : Compares (some (.string a)) (.string b) (compare a b)
  | bools (a b : Bool) : Compares (some (.bool a)) (.bool b) (compare a b)

/-- A property value is the one asked for, or an array with an item that is, unless an array
is asked for. A missing value is null. -/
inductive IsOrHolds : Option Json → Json → Prop where
  | missing : IsOrHolds none .null
  | value {value operand : Json} (h : value.agrees operand = true) : IsOrHolds (some value) operand
  | item {items : List Json} {item operand : Json} (hoperand : operand.array? = none)
      (hitem : item ∈ items) (h : item.agrees operand = true) :
      IsOrHolds (some (.array items)) operand

/-- A property value is at least the operand. -/
def IsAtLeast (target : Option Json) (operand : Json) : Prop :=
  Compares target operand .gt ∨ Compares target operand .eq

/-- A property value is at most the operand. -/
def IsAtMost (target : Option Json) (operand : Json) : Prop :=
  Compares target operand .lt ∨ Compares target operand .eq

theorem compareTo?_eq_some_iff {target : Option Json} {operand : Json} {o : Ordering} :
    compareTo? target operand = some o ↔ Compares target operand o := by
  constructor
  · intro h
    rcases Option.bind_eq_some_iff.mp h with ⟨value, rfl, hcompare⟩
    unfold Json.compare? at hcompare
    split at hcompare
    · cases hcompare
      exact .numbers _ _
    · cases hcompare
      exact .strings _ _
    · next a b =>
        cases hcompare
        cases a <;> cases b <;> exact .bools _ _
    · cases hcompare
  · rintro (⟨a, b⟩ | ⟨a, b⟩ | ⟨a, b⟩)
    · rfl
    · rfl
    · cases a <;> cases b <;> rfl

theorem array?_ne_none_of_agrees {items : List Json} {operand : Json}
    (h : (Json.array items).agrees operand = true) : operand.array? ≠ none := by
  have hsame := (Json.same_iff _ _).mp h
  cases operand with
  | array _ => exact Option.some_ne_none _
  | null | bool | number | string | object => simp only [Json.canonical] at hsame; cases hsame

theorem equalsOrContains_array (items : List Json) {operand : Json}
    (h : operand.array? = none) :
    equalsOrContains (some (.array items)) operand =
      items.any fun item => item.agrees operand := by
  cases operand with
  | array _ => cases h
  | _ => rfl

theorem equalsOrContains_value {value operand : Json}
    (h : operand.array? = none → value.array? = none) :
    equalsOrContains (some value) operand = value.agrees operand := by
  cases value with
  | array items =>
      cases operand with
      | array _ => rfl
      | _ => exact absurd (h rfl) (Option.some_ne_none _)
  | _ => rfl

theorem equalsOrContains_iff {target : Option Json} {operand : Json} :
    equalsOrContains target operand = true ↔ IsOrHolds target operand := by
  constructor
  · intro h
    cases target with
    | none =>
        rw [of_decide_eq_true h]
        exact .missing
    | some value =>
        by_cases hkind : operand.array? = none → value.array? = none
        · exact .value (equalsOrContains_value hkind ▸ h)
        · obtain ⟨hoperand, hvalue⟩ := Classical.not_imp.mp hkind
          cases value with
          | array items =>
              rw [equalsOrContains_array items hoperand] at h
              obtain ⟨item, hitem, hagrees⟩ := List.any_eq_true.mp h
              exact .item hoperand hitem hagrees
          | _ => exact absurd rfl hvalue
  · rintro (_ | @⟨value, operand, hagrees⟩ | ⟨hoperand, hitem, hagrees⟩)
    · rfl
    · rw [equalsOrContains_value, hagrees]
      intro hoperand
      cases value with
      | array items => exact absurd hoperand (array?_ne_none_of_agrees hagrees)
      | _ => rfl
    · rw [equalsOrContains_array _ hoperand]
      exact List.any_eq_true.mpr ⟨_, hitem, hagrees⟩

namespace Test

variable {operand : Json} {target : Option Json}

theorem holds_eq_iff : (eq operand).holds target = true ↔ IsOrHolds target operand :=
  equalsOrContains_iff

theorem holds_ne_iff : (ne operand).holds target = true ↔ ¬ IsOrHolds target operand := by
  rw [holds, Bool.not_eq_true', ← Bool.not_eq_true, equalsOrContains_iff]

theorem holds_gt_iff : (gt operand).holds target = true ↔ Compares target operand .gt := by
  rw [holds, beq_iff_eq, compareTo?_eq_some_iff]

theorem holds_ge_iff : (ge operand).holds target = true ↔ IsAtLeast target operand := by
  rw [holds, Bool.or_eq_true, beq_iff_eq, beq_iff_eq, compareTo?_eq_some_iff,
    compareTo?_eq_some_iff]
  rfl

theorem holds_lt_iff : (lt operand).holds target = true ↔ Compares target operand .lt := by
  rw [holds, beq_iff_eq, compareTo?_eq_some_iff]

theorem holds_le_iff : (le operand).holds target = true ↔ IsAtMost target operand := by
  rw [holds, Bool.or_eq_true, beq_iff_eq, beq_iff_eq, compareTo?_eq_some_iff,
    compareTo?_eq_some_iff]
  rfl

end Test

namespace Selector

theorem compile_field {path : String} (h : isReservedKey path = false) (value : Json) :
    compile (Json.single path value) =
      (Condition.compile value).map fun condition => .all [.field path condition] := by
  have hall : path ≠ "$and" := by
    rintro rfl
    cases h
  have hany : path ≠ "$or" := by
    rintro rfl
    cases h
  have hpart : compileField path value = (Condition.compile value).map (.field path) := by
    cases value <;> simp [compileField, Condition.compile, hall, hany, h, Except.map]
  rw [Json.single, compile, compileFields, hpart]
  cases Condition.compile value <;> rfl

theorem isReservedKey_of_compileField {key path : String} {value : Json} {condition : Condition}
    (h : compileField key value = .ok (.field path condition)) : isReservedKey key = false := by
  unfold compileField at h
  split at h
  · split at h
    · next items _ =>
        cases hitems : compileItems items <;> rw [hitems] at h <;> cases h
    split at h
    · next items _ _ =>
        cases hitems : compileItems items <;> rw [hitems] at h <;> cases h
    split at h
    · cases h
    · next hkey => exact Bool.not_eq_true _ ▸ hkey
  · split at h
    · cases h
    split at h
    · cases h
    · next hkey => exact Bool.not_eq_true _ ▸ hkey

theorem isReservedKey_of_compile {path : String} {value : Json} {condition : Condition}
    (h : compile (Json.single path value) = .ok (.all [.field path condition])) :
    isReservedKey path = false := by
  rw [Json.single, compile, compileFields] at h
  cases hpart : compileField path value with
  | error fault =>
      rw [hpart] at h
      cases h
  | ok part =>
      rw [hpart] at h
      cases h
      exact isReservedKey_of_compileField hpart

end Selector

/-! ## Objects that are read as tests -/

namespace Json

theorem sizeOf_lookup_lt {key : String} {fields : List (String × Json)} {value : Json}
    (h : lookup key fields = some value) : sizeOf value < sizeOf fields := by
  induction fields with
  | nil => cases h
  | cons field rest ih =>
      obtain ⟨k, v⟩ := field
      rw [lookup_cons] at h
      split at h
      · obtain rfl := Option.some.inj h
        simp only [List.cons.sizeOf_spec, Prod.mk.sizeOf_spec]
        omega
      · have := ih h
        simp only [List.cons.sizeOf_spec]
        omega

theorem not_same_of_lookup {key : String} {fields : List (String × Json)} {value : Json}
    (h : lookup key fields = some value) : (object fields).same value = false := by
  rw [← Bool.not_eq_true, same_iff, canonical]
  intro hsame
  have hinside : lookup key (canonicalFields fields) = some (object (canonicalFields fields)) := by
    rw [lookup_canonicalFields, h, Option.map_some, hsame]
  have hless := sizeOf_lookup_lt hinside
  simp only [object.sizeOf_spec] at hless
  omega

theorem exists_lookup_of_mem {key : String} {value : Json} {fields : List (String × Json)}
    (h : (key, value) ∈ fields) :
    ∃ first, lookup key fields = some first ∧ (key, first) ∈ fields := by
  induction fields with
  | nil => exact absurd h List.not_mem_nil
  | cons field rest ih =>
      obtain ⟨k, v⟩ := field
      rw [lookup_cons]
      split
      · next hk => exact ⟨v, rfl, hk ▸ List.mem_cons_self⟩
      · next hk =>
          have hrest : (key, value) ∈ rest := by
            rcases List.mem_cons.mp h with heq | hmem
            · exact absurd (congrArg Prod.fst heq).symm hk
            · exact hmem
          obtain ⟨first, hfirst, hmem⟩ := ih hrest
          exact ⟨first, hfirst, List.mem_cons_of_mem _ hmem⟩

end Json

namespace Condition

theorem mem_testsOf_iff {options : String} {fields : List (String × Json)} {tests : List Test}
    (h : testsOf options fields = .ok tests) (test : Test) :
    test ∈ tests ↔ ∃ key operand, (key, operand) ∈ fields ∧
      testOf options key operand = .ok (some test) := by
  induction fields generalizing tests with
  | nil =>
      obtain rfl := Except.ok.inj h
      simp
  | cons field rest ih =>
      obtain ⟨k, v⟩ := field
      unfold testsOf at h
      split at h
      · cases h
      next first hfirst =>
        split at h
        · cases h
        next others hothers =>
          obtain rfl := Except.ok.inj h
          rw [List.mem_append, ih hothers]
          constructor
          · rintro (hmem | ⟨key, operand, hmem, htest⟩)
            · exact ⟨k, v, List.mem_cons_self, by rw [hfirst, Option.mem_toList.mp hmem]⟩
            · exact ⟨key, operand, List.mem_cons_of_mem _ hmem, htest⟩
          · rintro ⟨key, operand, hmem, htest⟩
            rcases List.mem_cons.mp hmem with heq | hrest
            · obtain ⟨rfl, rfl⟩ := Prod.mk.inj heq
              rw [hfirst] at htest
              exact .inl (Option.mem_toList.mpr (Except.ok.inj htest))
            · exact .inr ⟨key, operand, hrest, htest⟩

theorem patternTest_ne_eq {options : String} {operand other : Json} :
    patternTest operand options ≠ .ok (.eq other) := by
  intro h
  unfold patternTest at h
  split at h
  · split at h <;> cases h
  · cases h

theorem eq_of_testOf_eq {options key : String} {operand other : Json}
    (h : testOf options key operand = .ok (some (.eq other))) : key = "$eq" := by
  by_contra hkey
  simp only [testOf, if_neg hkey] at h
  repeat (split at h; · cases h)
  split at h
  · cases hpattern : patternTest operand options with
    | error fault => rw [hpattern] at h; cases h
    | ok test =>
        rw [hpattern] at h
        cases h
        exact patternTest_ne_eq hpattern
  · split at h <;> cases h

theorem exists_text_not_excluded (tests : List Test) :
    ∃ text, Test.ne (.string text) ∉ tests := by
  by_contra hnone
  have hall : ∀ text, Test.ne (.string text) ∈ tests := by simpa using hnone
  let excluded : Nat → Test := fun n => .ne (.string (String.ofList (List.replicate n 'x')))
  have hinjective : Function.Injective excluded := by
    intro a b h
    have hlist := congrArg String.toList (Json.string.inj (Test.ne.inj h))
    simpa using congrArg List.length hlist
  refine Set.infinite_range_of_injective hinjective ((List.finite_toSet tests).subset ?_)
  rintro _ ⟨n, rfl⟩
  exact hall _

theorem isOrHolds_string_iff {text : String} {operand : Json} :
    IsOrHolds (some (.string text)) operand ↔ operand = .string text := by
  constructor
  · rintro (_ | hagrees)
    have hsame := (Json.same_iff _ _).mp hagrees
    rw [Json.canonical] at hsame
    exact Json.eq_string_of_canonical hsame.symm
  · rintro rfl
    exact .value (Json.same_refl _)

theorem exists_not_meant {options : String} {fields : List (String × Json)} {tests : List Test}
    (h : testsOf options fields = .ok tests) :
    ∃ value, ¬ ((Condition.tests tests).holds (some value) = true ↔
      IsOrHolds (some value) (.object fields)) := by
  simp only [Condition.holds, List.all_eq_true]
  by_cases hexclude : ∀ test ∈ tests, ∃ operand, test = .ne operand
  · -- a text passes the tests if none of them rules it out, but is no object
    obtain ⟨text, hfresh⟩ := exists_text_not_excluded tests
    refine ⟨.string text, fun hmeant => ?_⟩
    have hequal := hmeant.mp fun test htest => by
      obtain ⟨operand, rfl⟩ := hexclude test htest
      rw [Test.holds_ne_iff, isOrHolds_string_iff]
      rintro rfl
      exact hfresh htest
    cases isOrHolds_string_iff.mp hequal
  · -- the object is equal to itself, but fails every test that does not exclude
    obtain ⟨test, htest, hother⟩ : ∃ test ∈ tests, ∀ operand, test ≠ .ne operand := by
      simpa using hexclude
    refine ⟨.object fields, fun hmeant => ?_⟩
    have hall := hmeant.mpr (.value (Json.same_refl _))
    have hholds := hall test htest
    cases test with
    | ne operand => exact hother operand rfl
    | eq operand =>
        obtain ⟨key, value, hmem, hkey⟩ := (mem_testsOf_iff h _).mp htest
        obtain rfl := eq_of_testOf_eq hkey
        obtain ⟨first, hfirst, hfield⟩ := Json.exists_lookup_of_mem hmem
        have hequal := Test.holds_eq_iff.mp
          (hall (.eq first) ((mem_testsOf_iff h _).mpr ⟨"$eq", first, hfield, rfl⟩))
        cases hequal with
        | value hagrees =>
            have hsame : (Json.object fields).same first = true := hagrees
            rw [Json.not_same_of_lookup hfirst] at hsame
            cases hsame
    | gt operand => cases Test.holds_gt_iff.mp hholds
    | ge operand => rcases Test.holds_ge_iff.mp hholds with habove | hlevel <;> contradiction
    | lt operand => cases Test.holds_lt_iff.mp hholds
    | le operand => rcases Test.holds_le_iff.mp hholds with hbelow | hlevel <;> contradiction
    | matching pattern => cases hholds

end Condition

end LiveDocuments
