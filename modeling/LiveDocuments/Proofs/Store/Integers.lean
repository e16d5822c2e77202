import LiveDocuments.Proofs.Json.Rounding
import LiveDocuments.Proofs.Query.Meaning
import LiveDocuments.Proofs.Query.SortedProperties
import LiveDocuments.Proofs.Store.Finding

/-!
# How integers compare

A filter with an integer operand, and a sort on a property that holds integers, see the
nearest doubles. So all six operators, and the order of what is found, are those of the
rounded integers (`Store.integers_compare_rounded`). Rounding exchanges nothing, and it makes
nothing equal to what lies within 53 bits; beyond that, neighbours can fall together.
-/

namespace LiveDocuments

namespace Operator

/-- The operators that put a value in relation to one operand. -/
def relational : List Operator := [eq, ne, lt, le, gt, ge]

/-- What a relational operator says of integers. -/
def Relates (op : Operator) (a b : Int) : Prop :=
  match op with
  | .eq => a = b
  | .ne => a ≠ b
  | .lt => a < b
  | .le => a ≤ b
  | .gt => b < a
  | .ge => b ≤ a
  | _ => False

instance (op : Operator) (a b : Int) : Decidable (op.Relates a b) :=
  match op with
  | .eq => inferInstanceAs (Decidable (a = b))
  | .ne => inferInstanceAs (Decidable (a ≠ b))
  | .lt => inferInstanceAs (Decidable (a < b))
  | .le => inferInstanceAs (Decidable (a ≤ b))
  | .gt => inferInstanceAs (Decidable (b < a))
  | .ge => inferInstanceAs (Decidable (b ≤ a))
  | .between | .contains | .startsWith | .endsWith | .other _ => inferInstanceAs (Decidable False)

theorem mem_comparisons_of_mem_relational {op : Operator} (h : op ∈ relational) :
    op ∈ comparisons :=
  List.mem_append_left [between] h

theorem relates_roundInteger_iff {a b : Int} :
    (∀ op ∈ relational,
        (op.Relates (Number.roundInteger a) (Number.roundInteger b) ↔ op.Relates a b)) ↔
      (Number.roundInteger a = Number.roundInteger b → a = b) := by
  constructor
  · intro h
    exact (h .eq (by decide)).mp
  · intro hinjective op hop
    have heq : Number.roundInteger a = Number.roundInteger b ↔ a = b :=
      ⟨hinjective, congrArg Number.roundInteger⟩
    have hle := Number.roundInteger_mono (a := a) (b := b)
    have hge := Number.roundInteger_mono (a := b) (b := a)
    cases op <;> simp [relational] at hop <;> simp only [Relates] <;> omega

end Operator

/-! ## Filters -/

theorem isOrHolds_ofInt_iff {a b : Int} :
    IsOrHolds (some (.ofInt a)) (.ofInt b) ↔ Number.roundInteger a = Number.roundInteger b := by
  rw [← equalsOrContains_iff, ← Number.units_eq_units_iff]
  exact decide_eq_true_iff

theorem compares_ofInt_iff {a b : Int} {o : Ordering} :
    Compares (some (.ofInt a)) (.ofInt b) o ↔
      compare (Number.roundInteger a) (Number.roundInteger b) = o := by
  rw [← compareTo?_eq_some_iff, ← Number.compare_units_integer]
  exact Option.some_inj

namespace Filter

/-- Between integers an operator means what it says of the rounded ones. -/
theorem means_ofInt_iff {f : Filter} {a b : Int} (hoperator : f.operator ∈ Operator.relational)
    (hvalue : f.value = .ofInt b) :
    f.Means (some (.ofInt a)) ↔
      f.operator.Relates (Number.roundInteger a) (Number.roundInteger b) := by
  unfold Means
  rw [hvalue]
  cases hop : f.operator <;> simp [hop, Operator.relational] at hoperator <;>
    simp only [Operator.Relates, IsAtMost, IsAtLeast, isOrHolds_ofInt_iff, compares_ofInt_iff,
      compare_lt_iff_lt, compare_eq_iff_eq, compare_gt_iff_gt, ne_eq] <;>
    omega

/-- The selector of a comparison that does not look like something else. -/
theorem compile_alone {f : Filter} (hsimple : f.compound = false)
    (hoperator : f.operator ∈ Operator.comparisons) (hkey : isReservedKey f.path = false)
    (hplain : ∀ fields, f.value ≠ .object fields) :
    Selector.compile f.alone = .ok (.all [.field f.path f.comparison]) := by
  obtain ⟨value, hvalue, halone⟩ := alone_comparison hsimple hoperator
  have hcondition := compile_condition hoperator
    (fun _ fields hfields => absurd hfields (hplain fields)) hvalue
  rw [halone, Selector.compile_field hkey, hcondition]
  rfl

theorem accepts_alone_iff {f : Filter} (hoperator : f.operator ∈ Operator.comparisons)
    {document : Json} :
    (Selector.all [.field f.path f.comparison]).accepts document = true ↔
      f.Means (valueAt document f.path) := by
  rw [← holds_comparison_iff hoperator]
  simp

end Filter

/-! ## Sorting -/

/-- The order of one ascending property. -/
def SortOrder.ascendingBy (path : String) : SortOrder := ⟨[(path, .ascending)]⟩

theorem compileSort_ascending {path : String} (hslash : '/' ∉ path.toList)
    (hdot : '.' ∉ path.toList) :
    (compileSort [⟨path, false, false⟩]).value = .ascendingBy path := by
  have hrejection : (Sorter.mk path false false).rejection? = none :=
    (Sorter.rejection?_eq_none_iff _).mpr ⟨rfl, hslash, hdot⟩
  have hrequest : (Sorter.mk path false false).request? = some (path, false) := by
    rw [Sorter.request?, hrejection]
    rfl
  rw [compileSort, List.filterMap_cons_some hrequest]
  rfl

theorem compare_ascendingBy {path : String} {d e : Json} {a b : Int}
    (hd : valueAt d path = some (.ofInt a)) (he : valueAt e path = some (.ofInt b)) :
    (SortOrder.ascendingBy path).compare d e =
      compare (Number.roundInteger a) (Number.roundInteger b) := by
  rw [SortOrder.compare, SortOrder.ascendingBy, SortOrder.compareEntries_cons,
    SortOrder.compareEntries_nil, Ordering.then_eq, SortOrder.compareOn, hd, he,
    ← Number.compare_units_integer]
  rfl

namespace Store

/-- What should come before an integer that was found is found before it. -/
theorem pair_sublist_of_integers (operations : List StoreOperation) {name path : String}
    {query : Query} {selector : Selector}
    (hcompile : Selector.compile query.selector = .ok selector)
    (hsort : query.sort = some (.ascendingBy path)) {found : List Json}
    (hfound : (empty.run operations).find name query = .ok found) {d e : Json} {a b : Int}
    (hd : d ∈ ((empty.run operations).documents name).filter selector.accepts) (he : e ∈ found)
    (ha : valueAt d path = some (.ofInt a)) (hb : valueAt e path = some (.ofInt b))
    (hab : Number.roundInteger a < Number.roundInteger b ∨
      Number.roundInteger a = Number.roundInteger b ∧
        [d, e].Sublist ((empty.run operations).documents name)) :
    [d, e].Sublist found := by
  have hkeyed := (keyed_documents_run name operations).1
  have htop := isTop_take_mergeSort hkeyed.nodup (List.filter_sublist (p := selector.accepts))
    (query.sort.getD .empty) query.limit
  rw [← Except.ok.inj (hfound.symm.trans (find_eq_ok hkeyed hcompile)), hsort] at htop
  refine htop.pair_sublist hkeyed.nodup hd he ?_
  rw [Option.getD_some, compare_ascendingBy ha hb, compare_lt_iff_lt, compare_eq_iff_eq]
  exact hab

/-- A filter with a relational operator and an integer as operand is accepted, and selects a
document with an integer in its property exactly if the operator holds between the nearest doubles
of the two. All six operators mean the integers themselves exactly if the two have different
nearest doubles or are the same, which is so whenever one of them lies within 53 bits. Whatever
was stored and in whichever order, a query sorted by the property finds the smaller of two
integers before the larger if their nearest doubles differ; if they do not, the two documents are
found as they stand in the collection. -/
theorem integers_compare_rounded (path : String) (a b : Int) :
    (isReservedKey path = false → ∀ op ∈ Operator.relational,
      ∃ s, Selector.compile (Filter.alone ⟨path, op, .ofInt b, none, false⟩) = .ok s ∧
        ∀ document, valueAt document path = some (.ofInt a) →
          (s.accepts document = true ↔
            op.Relates (Number.roundInteger a) (Number.roundInteger b))) ∧
    ((∀ op ∈ Operator.relational,
        (op.Relates (Number.roundInteger a) (Number.roundInteger b) ↔ op.Relates a b)) ↔
      (Number.roundInteger a = Number.roundInteger b → a = b)) ∧
    (a.natAbs < twoTo 53 ∨ b.natAbs < twoTo 53 →
      Number.roundInteger a = Number.roundInteger b → a = b) ∧
    ('/' ∉ path.toList → '.' ∉ path.toList →
      ∀ (operations : List StoreOperation) (name : String) (query : Query) (selector : Selector)
        (found : List Json), Selector.compile query.selector = .ok selector →
      query.sort = some (compileSort [⟨path, false, false⟩]).value →
      (empty.run operations).find name query = .ok found →
      ∀ d ∈ ((empty.run operations).documents name).filter selector.accepts, ∀ e ∈ found,
        valueAt d path = some (.ofInt a) → valueAt e path = some (.ofInt b) →
        (a < b → Number.roundInteger a ≠ Number.roundInteger b → [d, e].Sublist found) ∧
        (Number.roundInteger a = Number.roundInteger b →
          [d, e].Sublist ((empty.run operations).documents name) → [d, e].Sublist found)) := by
  refine ⟨fun hkey op hop => ?_, Operator.relates_roundInteger_iff, Number.eq_of_roundInteger_eq,
    fun hslash hdot operations name query selector found hcompile hsort hfound d hd e he ha hb =>
      ?_⟩
  · have hcomparison := Operator.mem_comparisons_of_mem_relational hop
    refine ⟨_, Filter.compile_alone rfl hcomparison hkey (fun fields => nofun),
      fun document hdocument => ?_⟩
    rw [Filter.accepts_alone_iff hcomparison, hdocument]
    exact Filter.means_ofInt_iff hop rfl
  · rw [compileSort_ascending hslash hdot] at hsort
    have hbefore := pair_sublist_of_integers operations hcompile hsort hfound hd he ha hb
    refine ⟨fun hlt hne => hbefore (.inl ?_), fun heq hsub => hbefore (.inr ⟨heq, hsub⟩)⟩
    exact lt_of_le_of_ne (Number.roundInteger_mono hlt.le) hne

/-- The largest and the smallest integer of a document, in this order. -/
def twoExtremes : List StoreOperation :=
  [.insert "notes" (note "b" "x" (.ofInt 18446744073709551615)),
    .insert "notes" (note "a" "x" (.ofInt (-9223372036854775808)))]

/-- The notes with the lowest ranks. -/
def lowestRanks : Query :=
  ⟨.object [], 10, some (compileSort [⟨"rank", false, false⟩]).value⟩

/-- The smallest integer passes as less than the largest, and is found before it. -/
theorem integers_compare_rounded_extremes :
    ∃ s found,
      Selector.compile (Filter.alone ⟨"rank", .lt, .ofInt 18446744073709551615, none, false⟩) =
        .ok s ∧
      s.accepts (note "a" "x" (.ofInt (-9223372036854775808))) = true ∧
      (empty.run twoExtremes).find "notes" lowestRanks = .ok found ∧
      [note "a" "x" (.ofInt (-9223372036854775808)),
        note "b" "x" (.ofInt 18446744073709551615)].Sublist found := by
  obtain ⟨hfilter, -, -, hsort⟩ :=
    integers_compare_rounded "rank" (-9223372036854775808) 18446744073709551615
  obtain ⟨s, hs, haccepts⟩ := hfilter (by decide) .lt (by decide)
  have hcompile : Selector.compile lowestRanks.selector = .ok (.all []) := rfl
  have hfind := find_eq_ok (keyed_documents_run "notes" twoExtremes).1 hcompile
  have hmatching : ((empty.run twoExtremes).documents "notes").filter
      (Selector.all []).accepts = [note "b" "x" (.ofInt 18446744073709551615),
        note "a" "x" (.ofInt (-9223372036854775808))] := by
    decide +kernel
  refine ⟨s, _, hs, (haccepts _ (by decide)).mpr (by decide +kernel), hfind, ?_⟩
  refine (hsort (by decide) (by decide) twoExtremes "notes" lowestRanks _ _ hcompile rfl hfind _
    (hmatching ▸ by simp) _ ?_ (by decide) (by decide)).1 (by decide) (by decide +kernel)
  rw [hmatching, List.take_of_length_le (by rw [List.length_mergeSort]; decide)]
  simp

/-- The first integer that is no double is selected as equal to the one before. Besides, a field
with the name of an operator is not selected by at all, and one with a slash is not sorted by. -/
theorem integers_compared_otherwise :
    (∃ s, Selector.compile (Filter.alone ⟨"n", .eq, .ofInt 9007199254740992, none, false⟩) = .ok s ∧
      s.accepts (.object [("n", .ofInt 9007199254740993)]) = true ∧
      ¬ Operator.eq.Relates 9007199254740993 9007199254740992) ∧
    (Selector.compile (Filter.alone ⟨"$n", .eq, .ofInt 1, none, false⟩)).isOk = false ∧
    (compileSort [⟨"n/m", false, false⟩]).value.properties = [] :=
  ⟨⟨_, rfl, by decide +kernel, by decide⟩, by decide +kernel, by decide +kernel⟩

end Store

end LiveDocuments
