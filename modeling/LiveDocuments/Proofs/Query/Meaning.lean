import LiveDocuments.Proofs.Query.Filters
import LiveDocuments.Proofs.Selector.Conditions

/-!
# What a filter means

A filter should select the documents in which its operator holds between the value at the
property and the operand. The compiler puts the path and the operand into a selector as they
are, and the store reads that by its shape. So the filter is read as it is meant
(`isReadAsMeant_iff`) exactly if the path does not begin with `$`, and equality is not asked
for with an object that looks like a list of tests.
-/

namespace LiveDocuments

/-- The operators that compare a value with operands. -/
def Operator.comparisons : List Operator := [eq, ne, lt, le, gt, ge, between]

/-- What a comparison says of a property value, which may be missing. -/
def Filter.Means (f : Filter) (target : Option Json) : Prop :=
  match f.operator with
  | .eq => IsOrHolds target f.value
  | .ne => ¬ IsOrHolds target f.value
  | .lt => Compares target f.value .lt
  | .le => IsAtMost target f.value
  | .gt => Compares target f.value .gt
  | .ge => IsAtLeast target f.value
  | .between => IsAtLeast target f.value ∧ IsAtMost target (f.upper.getD .null)
  | _ => False

theorem exists_valueAt (path : String) (value : Json) :
    ∃ document, valueAt document path = some value := by
  unfold valueAt
  induction Property.steps path.toList with
  | nil => exact ⟨value, rfl⟩
  | cons step rest ih =>
      rcases ih with ⟨document, hdocument⟩
      refine ⟨Json.single (String.ofList step) document, ?_⟩
      rw [Property.walk_cons, Json.single, Property.stepInto, Json.lookup_cons, if_pos rfl,
        Option.bind_some, hdocument]

namespace Filter

variable {f : Filter}

/-- The condition that a comparison should be read as. -/
def comparison (f : Filter) : Condition :=
  match f.operator with
  | .eq => .equals f.value
  | .ne => .tests [.ne f.value]
  | .lt => .tests [.lt f.value]
  | .le => .tests [.le f.value]
  | .gt => .tests [.gt f.value]
  | .ge => .tests [.ge f.value]
  | .between => .tests [.ge f.value, .le (f.upper.getD .null)]
  | _ => .tests []

theorem holds_comparison_iff (h : f.operator ∈ Operator.comparisons) {target : Option Json} :
    f.comparison.holds target = true ↔ f.Means target := by
  unfold comparison Means
  cases hoperator : f.operator with
  | eq => exact equalsOrContains_iff
  | ne => simp [Condition.holds, Test.holds_ne_iff]
  | lt => simp [Condition.holds, Test.holds_lt_iff]
  | le => simp [Condition.holds, Test.holds_le_iff]
  | gt => simp [Condition.holds, Test.holds_gt_iff]
  | ge => simp [Condition.holds, Test.holds_ge_iff]
  | between => simp [Condition.holds, Test.holds_ge_iff, Test.holds_le_iff]
  | _ => simp [hoperator, Operator.comparisons] at h

theorem alone_comparison (hsimple : f.compound = false)
    (h : f.operator ∈ Operator.comparisons) :
    ∃ value, f.condition? = some value ∧ f.alone = Json.single f.path value := by
  have hsome : f.condition?.isSome := by
    unfold condition?
    cases hoperator : f.operator with
    | other name => simp [hoperator, Operator.comparisons] at h
    | _ => rfl
  obtain ⟨value, hvalue⟩ := Option.isSome_iff_exists.mp hsome
  exact ⟨value, hvalue, alone_of_condition? hsimple hvalue⟩

/-- The value of the field is read as the comparison, unless equality is asked for with
something that is read as tests. -/
theorem compile_condition (h : f.operator ∈ Operator.comparisons)
    (hplain : f.operator = .eq → ∀ fields, f.value = .object fields →
      Condition.isTests fields = false) {value : Json} (hvalue : f.condition? = some value) :
    Condition.compile value = .ok f.comparison := by
  unfold condition? at hvalue
  unfold comparison
  cases hoperator : f.operator with
  | eq =>
      rw [hoperator] at hvalue
      obtain rfl := Option.some.inj hvalue
      cases hkind : f.value with
      | object fields => rw [Condition.compile, hplain hoperator fields hkind, if_neg (by simp)]
      | _ => rfl
  | contains | startsWith | endsWith | other _ => simp [hoperator, Operator.comparisons] at h
  | _ =>
      rw [hoperator] at hvalue
      obtain rfl := Option.some.inj hvalue
      simp [Json.single, Condition.compile, Condition.isTests, Condition.testsOf,
        Condition.testOf, Json.lookup_cons, isReservedKey, DocumentId.objectIdKey, Except.map]

theorem not_means_of_isTests {fields : List (String × Json)} (hoperator : f.operator = .eq)
    (hvalue : f.value = .object fields) (htests : Condition.isTests fields = true)
    {condition : Condition} (hcompile : Condition.compile f.value = .ok condition) :
    ∃ document, ¬ (condition.holds (valueAt document f.path) = true ↔
      f.Means (valueAt document f.path)) := by
  rw [hvalue, Condition.compile, if_pos htests] at hcompile
  cases hread : Condition.testsOf (Condition.optionsOf fields) fields with
  | error fault =>
      rw [hread] at hcompile
      cases hcompile
  | ok tests =>
      rw [hread] at hcompile
      cases hcompile
      obtain ⟨value, hvalue'⟩ := Condition.exists_not_meant hread
      obtain ⟨document, hdocument⟩ := exists_valueAt f.path value
      refine ⟨document, ?_⟩
      rw [hdocument, Means, hoperator, hvalue]
      exact hvalue'

/-- The selector of the filter is a condition on its property, which holds of a document
exactly if the operator does. -/
def IsReadAsMeant (f : Filter) : Prop :=
  ∃ condition, Selector.compile f.alone = .ok (.all [.field f.path condition]) ∧
    ∀ document, (Selector.all [.field f.path condition]).accepts document = true ↔
      f.Means (valueAt document f.path)

/-- A comparison is read as it is meant exactly if its path does not begin with `$` and it does
not ask for equality with an object that is read as tests. -/
theorem isReadAsMeant_iff (f : Filter) (hsimple : f.compound = false)
    (h : f.operator ∈ Operator.comparisons) :
    f.IsReadAsMeant ↔ isReservedKey f.path = false ∧
      (f.operator = .eq → ∀ fields, f.value = .object fields →
        Condition.isTests fields = false) := by
  obtain ⟨value, hvalue, halone⟩ := alone_comparison hsimple h
  simp only [IsReadAsMeant, halone, Selector.accepts_all, List.all_cons, List.all_nil,
    Bool.and_true, Selector.accepts_field]
  constructor
  · rintro ⟨condition, hcompile, hmeans⟩
    have hkey := Selector.isReservedKey_of_compile hcompile
    refine ⟨hkey, fun hoperator fields hfields => Bool.not_eq_true _ ▸ fun htests => ?_⟩
    obtain rfl : f.value = value := by simpa [condition?, hoperator] using hvalue
    rw [Selector.compile_field hkey] at hcompile
    cases hread : Condition.compile f.value with
    | error fault =>
        rw [hread] at hcompile
        cases hcompile
    | ok other =>
        rw [hread] at hcompile
        cases hcompile
        obtain ⟨document, hdocument⟩ := not_means_of_isTests hoperator hfields htests hread
        exact hdocument (hmeans document)
  · rintro ⟨hkey, hplain⟩
    refine ⟨f.comparison, ?_, fun document => holds_comparison_iff h⟩
    rw [Selector.compile_field hkey, compile_condition h hplain hvalue]
    rfl

/-- An object id is asked for as a value, although its key begins with `$`. -/
theorem isReadAsMeant_objectId :
    (⟨"owner", .eq, Json.single "$oid" (.string "ff"), none, false⟩ : Filter).IsReadAsMeant := by
  refine (isReadAsMeant_iff _ rfl (by decide)).mpr ⟨by decide +kernel, ?_⟩
  rintro - fields hfields
  obtain rfl := Json.object.inj hfields
  decide +kernel

/-- Equality with an object that has the key `$gt` is read as a test, which numbers pass. -/
theorem equality_read_as_test :
    ∃ f : Filter, ∃ s document, f.compound = false ∧ f.operator = .eq ∧
      Selector.compile f.alone = .ok s ∧ s.accepts document = true ∧
      ¬ f.Means (valueAt document f.path) := by
  refine ⟨⟨"n", .eq, Json.single "$gt" (.ofInt 5), none, false⟩, _,
    .object [("n", .ofInt 7)], rfl, rfl, rfl, by decide +kernel, ?_⟩
  show ¬ IsOrHolds _ _
  rw [← equalsOrContains_iff]
  decide +kernel

end Filter

end LiveDocuments
