import LiveDocuments.Query.Filter

/-!
# Descriptors of filters

A descriptor gives the fields of a filter by their names, in any order and among others, or it
lists them in their order and may leave out the last ones. `Filter.Describes` says so field by
field, and it is all that reading asks for (`Filter.ofJson?_eq_some_iff`). A filter that was read
has an operator that goes by its name and no null as its second operand. That is what makes it
come back from the descriptor written for it, which leaves out a second operand that is missing
and a flag that is not set (`Filter.describes_toJson_iff`).
-/

namespace LiveDocuments

namespace Json

theorem bind_string?_eq_some_iff {field : Option Json} {text : String} :
    field.bind string? = some text ↔ field = some (.string text) := by
  rcases field with _ | value
  · simp
  · cases value <;> simp [string?]

theorem flag?_eq_some_iff {field : Option Json} {b : Bool} :
    flag? field = some b ↔ field = some (.bool b) ∨ field = none ∧ b = false := by
  rcases field with _ | value
  · simp [eq_comm]
  · cases value <;> simp [flag?]

end Json

namespace Filter

/-- What a descriptor holds for a field, under its name or at its place. -/
def field? (name : String) : Json → Option Json
  | .object fields => Json.lookup name fields
  | .array items => items[fieldNames.idxOf name]?
  | _ => none

/-- The filter has what the descriptor holds for its fields. Only the path and the operator have
to be there; a second operand that is null is none. -/
structure Describes (descriptor : Json) (f : Filter) : Prop where
  length_le : ∀ items, descriptor = .array items → items.length ≤ fieldNames.length
  path : field? "propertyPath" descriptor = some (.string f.path)
  operator : ∃ name, field? "operator" descriptor = some (.string name) ∧
    f.operator = .ofName name
  value : f.value = (field? "value1" descriptor).getD .null
  upper : f.upper = (field? "value2" descriptor).filter (· ≠ .null)
  compound : field? "multi" descriptor = some (.bool f.compound) ∨
    field? "multi" descriptor = none ∧ f.compound = false

/-! ## Reading -/

theorem operand?_eq_filter (field : Option Json) : operand? field = field.filter (· ≠ .null) := by
  rcases field with _ | value
  · rfl
  · cases value <;> rfl

theorem ofFields?_eq_some_iff {path operator value upper compound : Option Json} {f : Filter} :
    ofFields? path operator value upper compound = some f ↔
      path = some (.string f.path) ∧
        (∃ name, operator = some (.string name) ∧ f.operator = .ofName name) ∧
        f.value = value.getD .null ∧ f.upper = upper.filter (· ≠ .null) ∧
        (compound = some (.bool f.compound) ∨ compound = none ∧ f.compound = false) := by
  rw [← operand?_eq_filter, ← Json.flag?_eq_some_iff, ← Json.bind_string?_eq_some_iff, ofFields?]
  constructor
  · intro h
    split at h
    · next hpath hoperator hcompound =>
        cases h
        exact ⟨hpath, ⟨_, Json.bind_string?_eq_some_iff.mp hoperator, rfl⟩, rfl, rfl, hcompound⟩
    · cases h
  · rintro ⟨hpath, ⟨name, hoperator, hname⟩, hvalue, hupper, hcompound⟩
    rw [hpath, Json.bind_string?_eq_some_iff.mpr hoperator, hcompound]
    simp only [← hname, ← hvalue, ← hupper]

/-- Both layouts are read field by field, unless there are more items than fields. -/
theorem ofJson?_of_length_le {v : Json}
    (h : ∀ items, v = .array items → items.length ≤ fieldNames.length) :
    ofJson? v = ofFields? (field? "propertyPath" v) (field? "operator" v) (field? "value1" v)
      (field? "value2" v) (field? "multi" v) := by
  cases v with
  | array items => exact if_pos (h items rfl)
  | _ => rfl

theorem ofJson?_eq_some_iff {v : Json} {f : Filter} : ofJson? v = some f ↔ Describes v f := by
  constructor
  · intro hread
    have hlength : ∀ items, v = .array items → items.length ≤ fieldNames.length := by
      rintro items rfl
      rw [ofJson?] at hread
      split at hread
      · next hlength => exact hlength
      · cases hread
    rw [ofJson?_of_length_le hlength, ofFields?_eq_some_iff] at hread
    obtain ⟨hpath, hoperator, hvalue, hupper, hcompound⟩ := hread
    exact ⟨hlength, hpath, hoperator, hvalue, hupper, hcompound⟩
  · intro h
    rw [ofJson?_of_length_le h.length_le, ofFields?_eq_some_iff]
    exact ⟨h.path, h.operator, h.value, h.upper, h.compound⟩

/-! ## Writing -/

theorem field?_toJson (f : Filter) :
    field? "propertyPath" f.toJson = some (.string f.path) ∧
      field? "operator" f.toJson = some (.string f.operator.name) ∧
      field? "value1" f.toJson = some f.value ∧ field? "value2" f.toJson = f.upper ∧
      field? "multi" f.toJson = if f.compound then some (.bool true) else none := by
  obtain ⟨path, operator, value, upper, compound⟩ := f
  cases upper <;> cases compound <;> exact ⟨rfl, rfl, rfl, rfl, rfl⟩

/-- A filter is described by the descriptor written for it exactly if its operator goes by its
name and its second operand is not null. -/
theorem describes_toJson_iff {f : Filter} :
    Describes f.toJson f ↔ f.operator = .ofName f.operator.name ∧ f.upper ≠ some .null := by
  obtain ⟨hpath, hoperator, hvalue, hupper, hcompound⟩ := field?_toJson f
  constructor
  · intro h
    obtain ⟨name, hname, heq⟩ := h.operator
    rw [hoperator] at hname
    cases hname
    refine ⟨heq, fun hnull => ?_⟩
    have hread := h.upper
    rw [hupper, hnull] at hread
    cases hread
  · rintro ⟨hname, hnull⟩
    refine ⟨fun _ h => (nomatch h), hpath, ⟨_, hoperator, hname⟩, ?_, ?_, ?_⟩
    · rw [hvalue, Option.getD_some]
    · rw [hupper]
      cases hsome : f.upper with
      | none => rfl
      | some value =>
          have hother : value ≠ .null := fun h => hnull (h ▸ hsome)
          have hkept : decide (value ≠ .null) = true := decide_eq_true hother
          rw [Option.filter_some, if_pos hkept]
    · rw [hcompound]
      cases f.compound <;> simp

/-- A filter that anything describes is described by its own descriptor. -/
theorem Describes.toJson {v : Json} {f : Filter} (h : Describes v f) : Describes f.toJson f := by
  refine describes_toJson_iff.mpr ⟨?_, ?_⟩
  · obtain ⟨name, -, hname⟩ := h.operator
    rw [hname, Operator.name_ofName]
  · rw [h.upper]
    intro hnull
    simpa using Option.filter_eq_some_iff.mp hnull

/-- What can be read as a filter is what describes one, whether it names the fields in some order,
among others, or lists them. Any filter that was read, from a value or from a text, is read again
from the descriptor written for it, and written again it is the same descriptor. -/
theorem descriptor_reads_back (f : Filter) :
    (∀ v, ofJson? v = some f ↔ Describes v f) ∧
      ((∃ v, ofJson? v = some f) ∨ (∃ text, ofText? text = some f) →
        ofJson? f.toJson = some f ∧ (ofJson? f.toJson).map toJson = some f.toJson) := by
  refine ⟨fun v => ofJson?_eq_some_iff, fun h => ?_⟩
  have hread : ∃ v, ofJson? v = some f := by
    rcases h with hvalue | ⟨text, htext⟩
    · exact hvalue
    · obtain ⟨v, -, hv⟩ := Option.bind_eq_some_iff.mp htext
      exact ⟨v, hv⟩
  obtain ⟨v, hv⟩ := hread
  have hback : ofJson? f.toJson = some f :=
    ofJson?_eq_some_iff.mpr (ofJson?_eq_some_iff.mp hv).toJson
  exact ⟨hback, by rw [hback, Option.map_some]⟩

/-- A compound filter with an unknown operator is read from fields in some order, and a range
without an end from a text that lists its fields; both come back. -/
theorem descriptor_reads_back_twoLayouts :
    let named := Json.object [("note", .null), ("multi", .bool true), ("value2", .null),
      ("operator", .string "BOGUS"), ("propertyPath", .string "age")]
    let compound : Filter := ⟨"age", .other "BOGUS", .null, none, true⟩
    let range : Filter := ⟨"age", .between, .array [.ofInt 18, .null], none, false⟩
    ofJson? named = some compound ∧ Describes named compound ∧
      ofJson? compound.toJson = some compound ∧
      ofText? "[\"age\", \"BT\", [18, null], null]" = some range ∧
      ofJson? range.toJson = some range := by
  intro named compound range
  have hnamed : ofJson? named = some compound := by decide +kernel
  have hlisted : ofText? "[\"age\", \"BT\", [18, null], null]" = some range := by decide +kernel
  obtain ⟨hdescribes, hcompound⟩ := descriptor_reads_back compound
  obtain ⟨-, hrange⟩ := descriptor_reads_back range
  exact ⟨hnamed, (hdescribes named).mp hnamed, (hcompound (.inl ⟨named, hnamed⟩)).1, hlisted,
    (hrange (.inr ⟨_, hlisted⟩)).1⟩

end Filter

end LiveDocuments
