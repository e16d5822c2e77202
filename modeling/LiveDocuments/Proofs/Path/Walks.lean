import LiveDocuments.Binding.Elements
import LiveDocuments.Proofs.Path.Segments

/-!
# Where a property path leads

A property path is cut at its dots after brackets were read as dots. So a path behind a dot
goes on from where the path before it has led, whatever the two are made of
(`valueAt_append_dot`), an index put behind a path is one more step of the walk
(`valueAt_elementPath`), and a path leads to the field of its own name in every object exactly
if it is not empty and has neither a dot nor a bracket in it (`reads_field_iff`).
-/

namespace LiveDocuments

namespace Text

/-! ## Numbers written and read -/

theorem natOfDigits_eq (cs : List Char) : natOfDigits cs = Nat.ofDigitChars 10 cs 0 := by
  rw [natOfDigits, Nat.ofDigitChars]
  congr 1
  funext n c
  rw [Nat.mul_comm]
  rfl

theorem toList_toString (n : Nat) : (toString n).toList = Nat.toDigits 10 n := by
  rw [Nat.toString_eq_repr, Nat.toList_repr]

theorem isDigit_of_mem_toString {n : Nat} {c : Char} (h : c ∈ (toString n).toList) :
    c.isDigit = true := by
  rw [toList_toString] at h
  exact Nat.isDigit_of_mem_toDigits (by decide) (by decide) h

theorem toList_toString_ne_nil (n : Nat) : (toString n).toList ≠ [] := by
  rw [toList_toString]
  exact Nat.toDigits_ne_nil

theorem not_mem_toString {c : Char} (hc : c.isDigit = false) (n : Nat) :
    c ∉ (toString n).toList := by
  intro hmem
  rw [isDigit_of_mem_toString hmem] at hc
  cases hc

theorem natOfDigits?_toString (n : Nat) : natOfDigits? (toString n).toList = some n := by
  have hdigits : (toString n).toList.all Char.isDigit = true :=
    List.all_eq_true.mpr fun _ => isDigit_of_mem_toString
  rw [natOfDigits?, if_pos ⟨toList_toString_ne_nil n, hdigits⟩, natOfDigits_eq, toList_toString,
    Nat.ofDigitChars_toDigits (by decide) (by decide)]

end Text

namespace Property

/-! ## The steps of a path -/

theorem unbracket_append (front back : List Char) :
    unbracket (front ++ back) = unbracket front ++ unbracket back := by
  rw [unbracket, List.filter_append, List.map_append, unbracket, unbracket]

theorem unbracket_of_not_mem {cs : List Char} (hopening : '[' ∉ cs) (hclosing : ']' ∉ cs) :
    unbracket cs = cs := by
  have hkept : cs.filter (· != ']') = cs :=
    List.filter_eq_self.mpr fun c hc => bne_iff_ne.mpr fun heq => hclosing (heq ▸ hc)
  calc unbracket cs = cs.map fun c => if c = '[' then '.' else c := by rw [unbracket, hkept]
    _ = cs.map fun c => c := by
      refine List.map_congr_left fun c hc => if_neg ?_
      rintro rfl
      exact hopening hc
    _ = cs := List.map_id' cs

theorem not_mem_unbracket (cs : List Char) : '[' ∉ unbracket cs ∧ ']' ∉ unbracket cs := by
  have hkept : ∀ c ∈ unbracket cs, c ≠ '[' ∧ c ≠ ']' := by
    simp only [unbracket, List.forall_mem_map, List.mem_filter, bne_iff_ne]
    rintro c ⟨-, hclosing⟩
    split
    · decide
    · next hopening => exact ⟨hopening, hclosing⟩
  exact ⟨fun hmem => (hkept _ hmem).1 rfl, fun hmem => (hkept _ hmem).2 rfl⟩

/-- A dot parts the steps before it from those behind it, whatever stands on either side. -/
theorem steps_append_dot (front back : List Char) :
    steps (front ++ '.' :: back) = steps front ++ steps back := by
  have hdot : unbracket ('.' :: back) = '.' :: unbracket back := rfl
  rw [steps, unbracket_append, hdot, Text.segments_append_cons, steps, steps]

theorem steps_append_opening (front back : List Char) :
    steps (front ++ '[' :: back) = steps front ++ steps back := by
  have hopening : unbracket ('[' :: back) = '.' :: unbracket back := rfl
  rw [steps, unbracket_append, hopening, Text.segments_append_cons, steps, steps]

theorem steps_append_closing (front back : List Char) :
    steps (front ++ ']' :: back) = steps (front ++ back) := by
  have hclosing : unbracket (']' :: back) = unbracket back := rfl
  rw [steps, unbracket_append, hclosing, ← unbracket_append, steps]

theorem steps_index (index : Nat) :
    steps (toString index).toList = [(toString index).toList] := by
  have hplain : unbracket (toString index).toList = (toString index).toList :=
    unbracket_of_not_mem (Text.not_mem_toString rfl index) (Text.not_mem_toString rfl index)
  rw [steps, hplain, Text.segments_of_not_mem (Text.not_mem_toString rfl index),
    if_neg (Text.toList_toString_ne_nil index)]

theorem stepInto_index (items : List Json) (index : Nat) :
    stepInto (.array items) (toString index).toList = items[index]? := by
  have hindex : index? (toString index).toList = some index := by
    unfold index?
    split
    · next cs hcs =>
        have hplus : '+' ∉ (toString index).toList := Text.not_mem_toString rfl index
        exact absurd (hcs ▸ List.mem_cons_self) hplus
    · exact Text.natOfDigits?_toString index
  rw [stepInto, hindex, Option.bind_some]

/-! ## Names of fields -/

/-- A property path that is read as the name of one field. -/
def IsField (path : String) : Prop :=
  path ≠ "" ∧ '.' ∉ path.toList ∧ '[' ∉ path.toList ∧ ']' ∉ path.toList

instance : DecidablePred IsField := fun path =>
  inferInstanceAs (Decidable (path ≠ "" ∧ _))

theorem steps_of_isField {path : String} (h : IsField path) :
    steps path.toList = [path.toList] := by
  obtain ⟨hnonempty, hdot, hopening, hclosing⟩ := h
  rw [steps, unbracket_of_not_mem hopening hclosing, Text.segments_of_not_mem hdot,
    if_neg (fun hnil => hnonempty (String.toList_eq_nil_iff.mp hnil))]

theorem isField_of_mem_steps {cs step : List Char} (h : step ∈ steps cs) :
    IsField (String.ofList step) := by
  have hsub := Text.sublist_of_mem_segments h
  obtain ⟨hopening, hclosing⟩ := not_mem_unbracket cs
  refine ⟨fun hempty => Text.ne_nil_of_mem_segments h ?_, ?_⟩
  · rw [← String.toList_ofList (l := step), hempty, String.toList_empty]
  · rw [String.toList_ofList]
    exact ⟨Text.not_mem_of_mem_segments h, fun hmem => hopening (hsub.subset hmem),
      fun hmem => hclosing (hsub.subset hmem)⟩

theorem valueAt_of_isField {path : String} (h : IsField path) (fields : List (String × Json)) :
    valueAt (.object fields) path = Json.lookup path fields := by
  rw [valueAt, steps_of_isField h, walk_cons, stepInto, String.ofList_toList]
  cases Json.lookup path fields <;> rfl

/-- A path that leads to its own field in the object with nothing else is the name of a
field. -/
theorem isField_of_reads {path : String}
    (h : valueAt (.object [(path, .null)]) path = some .null) : IsField path := by
  rw [valueAt] at h
  cases hsteps : steps path.toList with
  | nil =>
      rw [hsteps, walk_nil] at h
      cases h
  | cons step others =>
      rw [hsteps, walk_cons, stepInto, Json.lookup_cons] at h
      split at h
      · next heq =>
          rw [heq]
          exact isField_of_mem_steps (hsteps ▸ List.mem_cons_self)
      · cases h

/-- The paths that read the field of their own name in every object are the names of
fields. -/
theorem reads_field_iff {path : String} :
    (∀ fields, valueAt (.object fields) path = Json.lookup path fields) ↔ IsField path := by
  refine ⟨fun h => isField_of_reads ?_, valueAt_of_isField⟩
  rw [h, Json.lookup_cons, if_pos rfl]

end Property

/-! ## Paths put together -/

theorem valueAt_append_dot (document : Json) (front back : String) :
    valueAt document (front ++ "." ++ back) =
      (valueAt document front).bind fun part => valueAt part back := by
  have hpath : (front ++ "." ++ back).toList = front.toList ++ '.' :: back.toList := by simp
  simp only [valueAt, hpath, Property.steps_append_dot, Property.walk_append]

theorem valueAt_append_brackets (document : Json) (front inner : String) :
    valueAt document (front ++ "[" ++ inner ++ "]") = valueAt document (front ++ "." ++ inner) := by
  have hbrackets : (front ++ "[" ++ inner ++ "]").toList =
      front.toList ++ '[' :: (inner.toList ++ [']']) := by simp
  have hdot : (front ++ "." ++ inner).toList = front.toList ++ '.' :: inner.toList := by simp
  rw [valueAt, valueAt, hbrackets, hdot, Property.steps_append_opening,
    Property.steps_append_closing, List.append_nil, Property.steps_append_dot]

theorem valueAt_index (items : List Json) (index : Nat) :
    valueAt (.array items) (toString index) = items[index]? := by
  rw [valueAt, Property.steps_index, Property.walk_cons, Property.stepInto_index]
  cases items[index]? <;> rfl

/-- The item at a place of an array is at the path of the array with the place behind it. -/
theorem valueAt_elementPath {document : Json} {path : String} {items : List Json}
    (h : valueAt document path = some (.array items)) (index : Nat) :
    valueAt document (ElementList.elementPath path index) = items[index]? := by
  rw [ElementList.elementPath, valueAt_append_brackets, valueAt_append_dot, h, Option.bind_some,
    valueAt_index]

/-- The empty path leads nowhere else. Behind a dot a path goes on from the part that the path
before the dot leads to, and leads to nothing if that does, whatever marks the two paths are made
of. A number in brackets is read like one behind a dot, and from an array it leads to the item at
its place, if there is one. -/
theorem valueAt_composes (document : Json) (front : String) :
    valueAt document "" = some document ∧
      (∀ back, valueAt document (front ++ "." ++ back) =
        (valueAt document front).bind fun part => valueAt part back) ∧
      ∀ index : Nat,
        valueAt document (front ++ "[" ++ toString index ++ "]") =
            valueAt document (front ++ "." ++ toString index) ∧
          ∀ items, valueAt document front = some (.array items) →
            valueAt document (front ++ "." ++ toString index) = items[index]? := by
  refine ⟨rfl, valueAt_append_dot document front, fun index => ⟨?_, fun items hitems => ?_⟩⟩
  · exact valueAt_append_brackets document front (toString index)
  · rw [valueAt_append_dot, hitems, Option.bind_some, valueAt_index]

/-- A path with brackets that do not match leads to a list of two, and from there to its second
item, a part of that, and no third item. -/
theorem valueAt_composes_unbalanced :
    let document := Json.object [("a", .object [("items",
      .array [.null, .object [("n", .ofInt 2)]])])]
    let items := [Json.null, .object [("n", .ofInt 2)]]
    valueAt document "a]..[items" = some (.array items) ∧
      valueAt document "a]..[items[1]" = some (.object [("n", .ofInt 2)]) ∧
      valueAt document "a]..[items.1.[n" = some (.ofInt 2) ∧
      valueAt document "a]..[items[2]" = none := by
  intro document items
  have hitems : valueAt document "a]..[items" = some (.array items) := by decide +kernel
  obtain ⟨-, hbehind, hindex⟩ := valueAt_composes document "a]..[items"
  refine ⟨hitems, ?_, ?_, ?_⟩
  · exact (hindex 1).1.trans ((hindex 1).2 items hitems)
  · refine (hbehind "1.[n").trans ?_
    rw [hitems]
    decide +kernel
  · exact (hindex 2).1.trans ((hindex 2).2 items hitems)

end LiveDocuments
