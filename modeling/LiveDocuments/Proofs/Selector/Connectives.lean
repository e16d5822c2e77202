import LiveDocuments.Selector.Compile

/-!
# Selectors under connectives

A list of selectors under `$and` or `$or` is read item by item, so whether it is read and
which documents it selects are settled by the items.
-/

namespace LiveDocuments

namespace Selector

/-- The value is accepted as a selector. -/
def IsRead (value : Json) : Prop := ∃ s, compile value = .ok s

/-- The value is accepted as a selector that wants the document. -/
def Selects (value document : Json) : Prop :=
  ∃ s, compile value = .ok s ∧ s.accepts document = true

theorem isRead_of_selects {value document : Json} (h : Selects value document) :
    IsRead value := by
  rcases h with ⟨s, hs, -⟩
  exact ⟨s, hs⟩

theorem selects_iff_of_compile {value : Json} {s : Selector} (h : compile value = .ok s)
    (document : Json) : Selects value document ↔ s.accepts document = true := by
  constructor
  · rintro ⟨other, hother, haccepts⟩
    rwa [Except.ok.inj (h.symm.trans hother)]
  · exact fun haccepts => ⟨s, h, haccepts⟩

/-! ## Lists of selectors -/

theorem mem_of_compileItems {items : List Json} {parts : List Selector}
    (h : compileItems items = .ok parts) :
    (∀ item ∈ items, ∃ part ∈ parts, compile item = .ok part) ∧
      ∀ part ∈ parts, ∃ item ∈ items, compile item = .ok part := by
  induction items generalizing parts with
  | nil =>
      obtain rfl := Except.ok.inj h
      simp
  | cons item rest ih =>
      unfold compileItems at h
      split at h
      · cases h
      next part hpart =>
        split at h
        · cases h
        next others hothers =>
          obtain rfl := Except.ok.inj h
          obtain ⟨hitems, hparts⟩ := ih hothers
          constructor
          · rintro other (_ | ⟨_, hother⟩)
            · exact ⟨part, List.mem_cons_self, hpart⟩
            · obtain ⟨found, hfound, hread⟩ := hitems other hother
              exact ⟨found, List.mem_cons_of_mem _ hfound, hread⟩
          · rintro other (_ | ⟨_, hother⟩)
            · exact ⟨item, List.mem_cons_self, hpart⟩
            · obtain ⟨found, hfound, hread⟩ := hparts other hother
              exact ⟨found, List.mem_cons_of_mem _ hfound, hread⟩

theorem exists_compileItems_iff {items : List Json} :
    (∃ parts, compileItems items = .ok parts) ↔ ∀ item ∈ items, IsRead item := by
  constructor
  · rintro ⟨parts, hparts⟩ item hitem
    obtain ⟨part, -, hpart⟩ := (mem_of_compileItems hparts).1 item hitem
    exact ⟨part, hpart⟩
  · intro h
    induction items with
    | nil => exact ⟨[], rfl⟩
    | cons item rest ih =>
        obtain ⟨⟨part, hpart⟩, hrest⟩ := List.forall_mem_cons.mp h
        obtain ⟨parts, hparts⟩ := ih hrest
        exact ⟨part :: parts, by simp only [compileItems, hpart, hparts]⟩

theorem compile_all (items : List Json) :
    compile (Json.single "$and" (.array items)) =
      (compileItems items).map fun parts => .all [.all parts] := by
  cases h : compileItems items <;>
    simp [Json.single, compile, compileFields, compileField, h, Except.map]

theorem compile_any (items : List Json) :
    compile (Json.single "$or" (.array items)) =
      (compileItems items).map fun parts => .all [.any parts] := by
  cases h : compileItems items <;>
    simp [Json.single, compile, compileFields, compileField, h, Except.map]

theorem isRead_all_iff {items : List Json} :
    IsRead (Json.single "$and" (.array items)) ↔ ∀ item ∈ items, IsRead item := by
  rw [← exists_compileItems_iff, IsRead, compile_all]
  cases compileItems items <;> simp [Except.map]

theorem isRead_any_iff {items : List Json} :
    IsRead (Json.single "$or" (.array items)) ↔ ∀ item ∈ items, IsRead item := by
  rw [← exists_compileItems_iff, IsRead, compile_any]
  cases compileItems items <;> simp [Except.map]

theorem selects_all_iff {items : List Json} {document : Json} :
    Selects (Json.single "$and" (.array items)) document ↔
      ∀ item ∈ items, Selects item document := by
  by_cases hread : ∀ item ∈ items, IsRead item
  · obtain ⟨parts, hparts⟩ := exists_compileItems_iff.mpr hread
    obtain ⟨hitems, hback⟩ := mem_of_compileItems hparts
    have hcompile : compile (Json.single "$and" (.array items)) = .ok (.all [.all parts]) := by
      rw [compile_all, hparts]
      rfl
    rw [selects_iff_of_compile hcompile]
    simp only [accepts_all, List.all_cons, List.all_nil, Bool.and_true, List.all_eq_true]
    constructor
    · intro h item hitem
      obtain ⟨part, hpart, hcompiled⟩ := hitems item hitem
      exact ⟨part, hcompiled, h part hpart⟩
    · intro h part hpart
      obtain ⟨item, hitem, hcompiled⟩ := hback part hpart
      exact (selects_iff_of_compile hcompiled document).mp (h item hitem)
  · exact iff_of_false (fun h => hread (isRead_all_iff.mp (isRead_of_selects h)))
      fun h => hread fun item hitem => isRead_of_selects (h item hitem)

theorem selects_any_iff {items : List Json} {document : Json}
    (hread : ∀ item ∈ items, IsRead item) :
    Selects (Json.single "$or" (.array items)) document ↔
      ∃ item ∈ items, Selects item document := by
  obtain ⟨parts, hparts⟩ := exists_compileItems_iff.mpr hread
  obtain ⟨hitems, hback⟩ := mem_of_compileItems hparts
  have hcompile : compile (Json.single "$or" (.array items)) = .ok (.all [.any parts]) := by
    rw [compile_any, hparts]
    rfl
  rw [selects_iff_of_compile hcompile]
  simp only [accepts_all, accepts_any, List.all_cons, List.all_nil, Bool.and_true,
    List.any_eq_true]
  constructor
  · rintro ⟨part, hpart, haccepts⟩
    obtain ⟨item, hitem, hcompiled⟩ := hback part hpart
    exact ⟨item, hitem, part, hcompiled, haccepts⟩
  · rintro ⟨item, hitem, hselects⟩
    obtain ⟨part, hpart, hcompiled⟩ := hitems item hitem
    exact ⟨part, hpart, (selects_iff_of_compile hcompiled document).mp hselects⟩

end Selector

end LiveDocuments
