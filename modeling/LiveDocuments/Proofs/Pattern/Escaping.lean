import LiveDocuments.Pattern.Compile
import LiveDocuments.Proofs.Pattern.Matching

/-!
# Escaped text means itself

An escaped text is read letter by letter: whatever a character could mean in a pattern, after
escaping it is a letter (`Pattern.readTree_escape`). A pattern of letters matches the texts
that differ from it in case at most (`Pattern.spans_letters_iff`), so searching for an escaped
text regardless of case is to look for it among the case variants, anywhere, at the beginning
or at the end.
-/

namespace LiveDocuments

namespace Pattern

/-! ## Patterns of letters -/

/-- The letters of a text, each in any case. -/
def letters (cs : List Char) : List Pattern := cs.map fun c => char (.letter c)

section

variable {start stop : Place}

theorem spans_sequence_cons {p : Pattern} {ps : List Pattern} :
    (sequence (p :: ps)).Spans start stop ↔
      ∃ middle, p.Spans start middle ∧ (sequence ps).Spans middle stop := by
  cases ps with
  | nil =>
      constructor
      · exact fun h => ⟨stop, h, rfl⟩
      · rintro ⟨middle, h, rfl⟩
        exact h
  | cons q rest => exact Iff.rfl

theorem spans_sequence_append {ps qs : List Pattern} :
    (sequence (ps ++ qs)).Spans start stop ↔
      ∃ middle, (sequence ps).Spans start middle ∧ (sequence qs).Spans middle stop := by
  induction ps generalizing start with
  | nil =>
      constructor
      · exact fun h => ⟨start, rfl, h⟩
      · rintro ⟨middle, rfl, h⟩
        exact h
  | cons p ps ih =>
      rw [List.cons_append, spans_sequence_cons]
      simp only [spans_sequence_cons, ih]
      constructor
      · rintro ⟨first, hfirst, middle, hps, hqs⟩
        exact ⟨middle, ⟨first, hfirst, hps⟩, hqs⟩
      · rintro ⟨middle, ⟨first, hfirst, hps⟩, hqs⟩
        exact ⟨first, hfirst, middle, hps, hqs⟩

/-- Letters match what differs from them in case at most. -/
theorem spans_letters_iff {cs : List Char} :
    (sequence (letters cs)).Spans start stop ↔
      ∃ text, text.map foldCase = cs.map foldCase ∧ start.after = text ++ stop.after ∧
        stop.before = text.reverse ++ start.before := by
  induction cs generalizing start with
  | nil =>
      constructor
      · rintro rfl
        exact ⟨[], rfl, rfl, rfl⟩
      · rintro ⟨text, htext, hafter, hbefore⟩
        obtain rfl := List.map_eq_nil_iff.mp htext
        cases start
        cases stop
        simp_all [letters, sequence, Spans]
  | cons c cs ih =>
      rw [letters, List.map_cons, spans_sequence_cons]
      constructor
      · rintro ⟨middle, ⟨d, rest, hstart, hletter, rfl⟩, hrest⟩
        obtain ⟨text, htext, hafter, hbefore⟩ := ih.mp hrest
        refine ⟨d :: text, ?_, ?_, ?_⟩
        · rw [List.map_cons, List.map_cons, htext, (CharSet.contains_letter c d).mp hletter]
        · rw [hstart, List.cons_append]
          exact congrArg (d :: ·) hafter
        · rw [hbefore, List.reverse_cons, List.append_assoc, List.singleton_append]
      · rintro ⟨text, htext, hafter, hbefore⟩
        obtain ⟨d, text, rfl, hletter, htext⟩ := List.map_eq_cons_iff.mp htext
        refine ⟨⟨d :: start.before, text ++ stop.after⟩,
          ⟨d, _, hafter, (CharSet.contains_letter c d).mpr hletter.symm, rfl⟩,
          ih.mpr ⟨text, htext, rfl, ?_⟩⟩
        rw [hbefore, List.reverse_cons, List.append_assoc, List.singleton_append]

end

variable (cs text : List Char)

/-- Letters occur where their case variants do. -/
theorem occursIn_letters_iff :
    (sequence (letters cs)).occursIn text = true ↔ cs.map foldCase <:+: text.map foldCase := by
  simp only [occursIn_iff, spans_letters_iff]
  constructor
  · rintro ⟨start, stop, ⟨front, hfront, -⟩, found, hfound, hafter, -⟩
    refine ⟨front.map foldCase, stop.after.map foldCase, ?_⟩
    simp only at hfront
    rw [hfront, hafter, List.map_append, List.map_append, hfound, List.append_assoc]
  · rintro ⟨front, back, hparts⟩
    obtain ⟨left, right, rfl, hleft, -⟩ := List.map_eq_append_iff.mp hparts.symm
    obtain ⟨before, found, rfl, -, hfound⟩ := List.map_eq_append_iff.mp hleft
    exact ⟨⟨before.reverse, found ++ right⟩, ⟨found.reverse ++ before.reverse, right⟩,
      ⟨before, by simp, by simp⟩, found, hfound, rfl, rfl⟩

theorem occursIn_start_letters_iff :
    (sequence (assertion .textStart :: letters cs)).occursIn text = true ↔
      cs.map foldCase <+: text.map foldCase := by
  simp only [occursIn_iff, spans_sequence_cons, spans_letters_iff]
  constructor
  · rintro ⟨start, stop, ⟨front, hfront, hbefore⟩, _, ⟨rfl, hstart⟩, found, hfound, hafter, -⟩
    obtain rfl : front = [] := by
      rw [List.isEmpty_iff.mp hstart] at hbefore
      simpa using hbefore.symm
    refine ⟨stop.after.map foldCase, ?_⟩
    simp only [List.nil_append] at hfront
    rw [hfront, hafter, List.map_append, hfound]
  · rintro ⟨back, hparts⟩
    obtain ⟨found, right, rfl, hfound, -⟩ := List.map_eq_append_iff.mp hparts.symm
    exact ⟨⟨[], found ++ right⟩, ⟨found.reverse, right⟩, .refl _, _, ⟨rfl, rfl⟩, found, hfound,
      rfl, by simp⟩

theorem occursIn_letters_end_iff :
    (sequence (letters cs ++ [assertion .textEnd])).occursIn text = true ↔
      cs.map foldCase <:+ text.map foldCase := by
  simp only [occursIn_iff, spans_sequence_append, spans_letters_iff]
  constructor
  · rintro ⟨start, stop, ⟨front, hfront, -⟩, _, ⟨found, hfound, hafter, -⟩, rfl, hend⟩
    have hnone : stop.after = [] := List.isEmpty_iff.mp hend
    refine ⟨front.map foldCase, ?_⟩
    simp only at hfront
    rw [hfront, hafter, hnone, List.append_nil, List.map_append, hfound]
  · rintro ⟨front, hparts⟩
    obtain ⟨before, found, rfl, -, hfound⟩ := List.map_eq_append_iff.mp hparts.symm
    exact ⟨⟨before.reverse, found⟩, ⟨found.reverse ++ before.reverse, []⟩,
      ⟨before, by simp, by simp⟩, _, ⟨found, hfound, by simp, rfl⟩, rfl, rfl⟩

/-! ## Reading escaped text -/

/-- The flags of a pattern that is read regardless of case and otherwise as it stands. -/
def caselessFlags : Flags := ⟨true, false, false, false, false⟩

@[simp] theorem skipLayout_caselessFlags (cs : List Char) : skipLayout caselessFlags cs = cs := by
  cases cs <;> rfl

/-- What is neither the end of a group or branch nor the beginning of a group or class nor a
repetition is one part of a pattern. -/
theorem readTree_of_readAtom {c : Char}
    (hc : c ∉ [')', '|', '(', '[', '?', '*', '+', '\x7b']) {cs rest : List Char} {part : Tree}
    (hpart : readAtom caselessFlags (c :: cs) = some (part, rest)) (fuel room : Nat)
    (names : List (List Char)) (branches parts : List Tree) :
    readTree (fuel + 1) room caselessFlags names branches parts (c :: cs) =
      readTree fuel room caselessFlags names branches (part :: parts) rest := by
  simp only [List.mem_cons, List.not_mem_nil, or_false, not_or] at hc
  rw [readTree, skipLayout_caselessFlags]
  split <;> simp_all

/-- Wherever it stands, the source is read as these parts, one after another. -/
def Reads (source : List Char) (parts : List Tree) : Prop :=
  ∀ fuel room names branches others rest,
    readTree (fuel + parts.length) room caselessFlags names branches others (source ++ rest) =
      readTree fuel room caselessFlags names branches (parts.reverse ++ others) rest

theorem reads_nil : Reads [] [] := fun _ _ _ _ _ _ => rfl

theorem Reads.append {source others : List Char} {parts more : List Tree}
    (h : Reads source parts) (hothers : Reads others more) :
    Reads (source ++ others) (parts ++ more) := by
  intro fuel room names branches before rest
  rw [List.append_assoc, List.length_append, Nat.add_comm parts.length, ← Nat.add_assoc, h,
    hothers, List.reverse_append, List.append_assoc]

theorem reads_of_readAtom {c : Char} {cs : List Char} {part : Tree}
    (hc : c ∉ [')', '|', '(', '[', '?', '*', '+', '\x7b'])
    (hpart : ∀ rest, readAtom caselessFlags (c :: cs ++ rest) = some (part, rest)) :
    Reads (c :: cs) [part] :=
  fun fuel room names branches others rest =>
    readTree_of_readAtom hc (hpart rest) fuel room names branches others

theorem reads_start : Reads ['^'] [.assertion .textStart] :=
  reads_of_readAtom (by decide) fun _ => rfl

theorem reads_end : Reads ['$'] [.assertion .textEnd] :=
  reads_of_readAtom (by decide) fun _ => rfl

theorem reads_escape_singleton (c : Char) : Reads (escape [c]) [.literal c true] := by
  rw [escape_cons, escape_nil]
  split
  · next hmeta =>
      refine reads_of_readAtom (by decide) fun rest => ?_
      simp [readAtom, readEscape, hmeta, Escaped.tree, caselessFlags]
  · next hmeta =>
      simp only [isMeta, Bool.or_eq_true, beq_iff_eq, not_or] at hmeta
      refine reads_of_readAtom ?_ fun rest => ?_
      · simp [hmeta]
      · rw [List.singleton_append]
        unfold readAtom
        split <;> simp_all [caselessFlags]

/-- Escaped text is read letter by letter. -/
theorem reads_escape (cs : List Char) :
    Reads (escape cs) (cs.map fun c => .literal c true) := by
  induction cs with
  | nil => exact reads_nil
  | cons c cs ih =>
      have hcons := (reads_escape_singleton c).append ih
      rwa [← escape_append, List.singleton_append] at hcons

theorem length_le_length_escape (cs : List Char) : cs.length ≤ (escape cs).length := by
  induction cs with
  | nil => exact Nat.le_refl 0
  | cons c cs ih =>
      rw [escape_cons]
      split <;> simp only [List.length_cons] <;> omega

theorem Tree.pattern_ofParts (parts : List Tree) :
    (Tree.ofParts parts).pattern = Pattern.sequence (parts.map Tree.pattern) := by
  match parts with
  | [] => rfl
  | [part] => rfl
  | first :: second :: rest =>
      show Pattern.sequence (Tree.patterns (first :: second :: rest)) = _
      rw [Tree.patterns_eq_map]

theorem Tree.depth_ofParts_le {parts : List Tree} (h : ∀ part ∈ parts, part.depth = 0) :
    (Tree.ofParts parts).depth ≤ 1 := by
  have hgreatest : Tree.greatestDepth parts = 0 := by
    induction parts with
    | nil => rfl
    | cons part rest ih =>
        rw [Tree.greatestDepth, h part List.mem_cons_self,
          ih fun part hpart => h part (List.mem_cons_of_mem _ hpart), Nat.max_self]
  match parts with
  | [] => simp [Tree.ofParts, Tree.depth]
  | [part] =>
      rw [Tree.ofParts, h part List.mem_cons_self]
      exact Nat.zero_le 1
  | first :: second :: rest =>
      show Tree.greatestDepth (first :: second :: rest) + 1 ≤ 1
      exact Nat.le_of_eq (congrArg (· + 1) hgreatest)

theorem parse?_of_reads {source : List Char} {parts : List Tree} (h : Reads source parts)
    (hlength : parts.length ≤ source.length) (hdepth : ∀ part ∈ parts, part.depth = 0) :
    Tree.parse? true false (String.ofList source) = some (.ofParts parts) := by
  obtain ⟨k, hk⟩ := Nat.exists_eq_add_of_le hlength
  have hread := h (k + 1) depthLimit [] [] [] []
  rw [List.append_nil, List.append_nil] at hread
  have hfuel : source.length + 1 = k + 1 + parts.length := by omega
  have hclose : readTree (k + 1) depthLimit caselessFlags [] [] parts.reverse [] =
      some (.ofParts parts, [], []) := by
    rw [readTree, skipLayout_caselessFlags]
    simp [close, Tree.ofBranches]
  have hlimit : (Tree.ofParts parts).depth ≤ depthLimit :=
    Nat.le_trans (Tree.depth_ofParts_le hdepth) (by decide)
  have hall := hread.trans hclose
  rw [← hfuel, caselessFlags] at hall
  simp only [Tree.parse?, String.toList_ofList, hall, if_pos hlimit]

/-- What is read as parts without depth is a pattern, unless it is too large. -/
theorem compile_of_reads {source : List Char} {parts : List Tree} (h : Reads source parts)
    (hlength : parts.length ≤ source.length) (hdepth : ∀ part ∈ parts, part.depth = 0) :
    compile true false (String.ofList source) = .error .oversized ∨
      compile true false (String.ofList source) = .ok (sequence (parts.map Tree.pattern)) := by
  rw [compile, parse?_of_reads h hlength hdepth]
  simp only [Tree.pattern_ofParts]
  split
  · exact .inl rfl
  · exact .inr rfl

end Pattern

end LiveDocuments
