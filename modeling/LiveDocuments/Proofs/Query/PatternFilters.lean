import LiveDocuments.Proofs.Pattern.Escaping
import LiveDocuments.Proofs.Query.Filters
import LiveDocuments.Proofs.Selector.Conditions

/-!
# Filters that look for text

A filter that looks for text makes a pattern of it: escaped, read regardless of case, and held
to the beginning or the end of the value where the operator says so. The pattern means the
text and nothing else, so the filter selects the documents whose property is a string with a
case variant of the text in the place the operator names (`Filter.selects_pattern`).

Of the language of patterns this takes what is documented of it, and no more:

* escaping puts a backslash before each of the characters that mean something in a pattern
  (`Pattern.isMeta`, `Pattern.escape_cons`);
* a character that means nothing, or has a backslash before it, is read as itself
  (`Pattern.reads_escape`);
* without the option for lines, `^` holds before the first character only and `$` behind the last
  one only, so not before a line break at the end (`Pattern.reads_start`, `Pattern.reads_end`,
  `Place.satisfies`);
* regardless of case, a character matches those with the same simple case folding
  (`CharSet.contains_letter`, `Pattern.foldCase`);
* a search looks for a match anywhere in the text (`Pattern.occursIn_iff`).

That the pattern stays within the size allowed is not documented of any text, so it is assumed of
the filter.
-/

namespace LiveDocuments

namespace Operator

/-- The operators that look for text. -/
def patterns : List Operator := [contains, startsWith, endsWith]

/-- Whether the text sought is found where the operator looks for it, character by character
up to case. -/
def Finds (operator : Operator) (sought text : List Char) : Prop :=
  match operator with
  | contains => sought.map Pattern.foldCase <:+: text.map Pattern.foldCase
  | startsWith => sought.map Pattern.foldCase <+: text.map Pattern.foldCase
  | endsWith => sought.map Pattern.foldCase <:+ text.map Pattern.foldCase
  | _ => False

instance (operator : Operator) (sought text : List Char) :
    Decidable (operator.Finds sought text) := by
  unfold Finds
  split <;> infer_instance

/-- The pattern written for a text. -/
def source (operator : Operator) (sought : List Char) : List Char :=
  match operator with
  | startsWith => '^' :: Pattern.escape sought
  | endsWith => Pattern.escape sought ++ ['$']
  | _ => Pattern.escape sought

open Pattern in
/-- The pattern written for a text is usable unless it is too large, and it occurs where the
text is found. -/
theorem compile_source {operator : Operator} (h : operator ∈ patterns) (sought : List Char) :
    compile true false (String.ofList (operator.source sought)) = .error .oversized ∨
      ∃ pattern, compile true false (String.ofList (operator.source sought)) = .ok pattern ∧
        ∀ text, pattern.occursIn text = true ↔ operator.Finds sought text := by
  have hletters : (sought.map fun c => Tree.literal c true).map Tree.pattern = letters sought := by
    rw [List.map_map]
    rfl
  have hdepth : ∀ part ∈ sought.map fun c => Tree.literal c true, part.depth = 0 := by
    intro part hpart
    obtain ⟨c, -, rfl⟩ := List.mem_map.mp hpart
    rfl
  have hlength := length_le_length_escape sought
  cases operator with
  | contains =>
      refine (compile_of_reads (reads_escape sought) (by simpa using hlength) hdepth).imp_right
        fun hok => ⟨_, hok, fun text => ?_⟩
      rw [hletters]
      exact occursIn_letters_iff sought text
  | startsWith =>
      refine (compile_of_reads (reads_start.append (reads_escape sought)) (by simpa using hlength)
        (List.forall_mem_cons.mpr ⟨rfl, hdepth⟩)).imp_right fun hok => ⟨_, hok, fun text => ?_⟩
      rw [List.singleton_append, List.map_cons, hletters]
      exact occursIn_start_letters_iff sought text
  | endsWith =>
      refine (compile_of_reads ((reads_escape sought).append reads_end) (by simpa using hlength)
        ?_).imp_right fun hok => ⟨_, hok, fun text => ?_⟩
      · exact List.forall_mem_append.mpr ⟨hdepth, List.forall_mem_singleton.mpr rfl⟩
      · rw [List.map_append, hletters]
        exact occursIn_letters_end_iff sought text
  | _ => simp [patterns] at h

end Operator

theorem Test.holds_matching_iff {pattern : Pattern} {target : Option Json} :
    (matching pattern).holds target = true ↔
      ∃ text, target = some (.string text) ∧ pattern.occursIn text.toList = true := by
  rcases target with _ | value
  · simp [holds]
  · cases value <;> simp [holds]

namespace Filter

variable {f : Filter}

theorem condition?_pattern (h : f.operator ∈ Operator.patterns) :
    f.condition? = some (patternCondition (f.operator.source (soughtText f.value))) := by
  unfold condition? Operator.source
  cases hoperator : f.operator with
  | contains | startsWith | endsWith => rfl
  | _ => simp [hoperator, Operator.patterns] at h

/-- A condition that a string matches a pattern is read as the test for the pattern. -/
theorem compile_patternCondition (pattern : List Char) :
    Condition.compile (patternCondition pattern) =
      match Pattern.compile true false (String.ofList pattern) with
      | .ok pattern => .ok (.tests [.matching pattern])
      | .error fault => .error (.unusablePattern fault) := by
  have hoptions : Condition.optionsOf [("$regex", .string (String.ofList pattern)),
      ("$options", .string "i")] = "i" := rfl
  have htests : Condition.isTests [("$regex", .string (String.ofList pattern)),
      ("$options", .string "i")] = true := by
    simp [Condition.isTests, Json.lookup_cons, isReservedKey, DocumentId.objectIdKey]
  have hcaseless : "i".toList.contains 'i' = true := by decide
  have hsingleLine : "i".toList.contains 'm' = false := by decide
  rw [patternCondition, Condition.compile, if_pos htests, hoptions]
  simp only [Condition.testsOf, Condition.testOf, Condition.patternTest, hcaseless, hsingleLine]
  cases Pattern.compile true false (String.ofList pattern) <;> rfl

/-- The selector of a filter that looks for text is the test for its pattern. -/
theorem compile_alone_pattern (h : f.operator ∈ Operator.patterns) (hsimple : f.compound = false)
    (hkey : isReservedKey f.path = false) :
    Selector.compile f.alone =
      match Pattern.compile true false
          (String.ofList (f.operator.source (soughtText f.value))) with
      | .ok pattern => .ok (.all [.field f.path (.tests [.matching pattern])])
      | .error fault => .error (.unusablePattern fault) := by
  rw [alone_of_condition? hsimple (condition?_pattern h), Selector.compile_field hkey,
    compile_patternCondition]
  cases Pattern.compile true false (String.ofList (f.operator.source (soughtText f.value))) <;> rfl

/-- Unless its pattern is too large, a filter on a usable property that looks for text is
accepted. It selects the documents whose property is a string in which the text is found where
the operator looks for it, character by character up to case: no character of the text has a
meaning of its own (escaping, literal reading), line breaks are characters like others and the
end of a value is its very end (anchors without the option for lines), and case is told by simple
folding. -/
theorem selects_pattern (f : Filter) (h : f.operator ∈ Operator.patterns)
    (hsimple : f.compound = false) (hkey : isReservedKey f.path = false)
    (hsize : Selector.compile f.alone ≠ .error (.unusablePattern .oversized)) :
    ∃ s, Selector.compile f.alone = .ok s ∧ ∀ document,
      (s.accepts document = true ↔ ∃ text, valueAt document f.path = some (.string text) ∧
        f.operator.Finds (soughtText f.value) text.toList) := by
  rw [compile_alone_pattern h hsimple hkey] at hsize ⊢
  rcases Operator.compile_source h (soughtText f.value) with hover | ⟨pattern, hpattern, hfinds⟩
  · rw [hover] at hsize
    exact absurd rfl hsize
  · rw [hpattern]
    refine ⟨_, rfl, fun document => ?_⟩
    simp only [Selector.accepts_all, List.all_cons, List.all_nil, Bool.and_true,
      Selector.accepts_field, Condition.holds, Test.holds_matching_iff, hfinds]

/-- A filter for values that end in a text of metacharacters. -/
def endsInMeta : Filter := ⟨"name", .endsWith, .string "a.$", none, false⟩

open Pattern in
/-- The text is found behind a line break and in other case, but not before a line break, and
none of its characters stands for another one. -/
theorem selects_pattern_endsInMeta :
    ∃ s, Selector.compile endsInMeta.alone = .ok s ∧
      s.accepts (Json.single "name" (.string "x\nA.$")) = true ∧
      s.accepts (Json.single "name" (.string "a.$\n")) = false ∧
      s.accepts (Json.single "name" (.string "ax")) = false := by
  have hsize : Selector.compile endsInMeta.alone ≠ .error (.unusablePattern .oversized) := by
    have hread : Tree.parse? true false
        (String.ofList (endsInMeta.operator.source (soughtText endsInMeta.value))) =
          some (.sequence [.literal 'a' true, .literal '.' true, .literal '$' true,
            .assertion .textEnd]) := by rfl
    have hletter : Outline.ofLetter 'a' = .oneOf [(65, 65), (97, 97)] := by
      have hvariants : caseVariants 'a' = ['a', 'A'] := by decide +kernel
      simp [Outline.ofLetter, CharSet.intervals, hvariants, CharSet.arrange, CharSet.coalesce,
        CharSet.coalesce.go, List.mergeSort, List.MergeSort.Internal.splitInTwo,
        Outline.ofIntervals]
    have hmark : ∀ c : Char, caseVariants c = [c] → Outline.ofLetter c = .literal [c] := by
      intro c hvariants
      simp [Outline.ofLetter, CharSet.intervals, hvariants, CharSet.arrange, CharSet.coalesce,
        CharSet.coalesce.go, Outline.ofIntervals]
    have houtline : (Tree.sequence [.literal 'a' true, .literal '.' true, .literal '$' true,
        .assertion .textEnd]).outline =
          .ofParts [.oneOf [(65, 65), (97, 97)], .literal ['.'], .literal ['$'],
            .assertion .textEnd] := by
      rw [← hletter, ← hmark '.' (by decide +kernel), ← hmark '$' (by decide +kernel)]
      rfl
    rw [compile_alone_pattern (by decide) rfl (by decide +kernel), Pattern.compile, hread]
    simp only [houtline]
    rw [if_neg (by decide +kernel)]
    intro herror
    cases herror
  obtain ⟨s, hs, hselects⟩ := selects_pattern endsInMeta (by decide) rfl (by decide +kernel) hsize
  have hdecides : ∀ text : String, s.accepts (Json.single "name" (.string text)) =
      decide (Operator.endsWith.Finds "a.$".toList text.toList) := by
    intro text
    have hvalue : valueAt (Json.single "name" (.string text)) "name" = some (.string text) := rfl
    rw [Bool.eq_iff_iff, hselects, decide_eq_true_iff]
    constructor
    · rintro ⟨found, hfound, hfinds⟩
      obtain rfl := Json.string.inj (Option.some.inj (hvalue.symm.trans hfound))
      exact hfinds
    · exact fun hfinds => ⟨text, hvalue, hfinds⟩
  refine ⟨s, hs, ?_, ?_, ?_⟩
  · rw [hdecides]
    decide +kernel
  · rw [hdecides]
    decide +kernel
  · rw [hdecides]
    decide +kernel

end Filter

end LiveDocuments
