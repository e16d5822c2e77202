import LiveDocuments.Pattern.Search
import Mathlib.Logic.Relation

/-!
# What a search finds

What a pattern matches is said without marks: `Pattern.Spans` relates the places between
which a match stretches, by recursion on the pattern. A search keeps marks instead, and what
they stand for are the matches that began earlier and may still be completed
(`Pattern.Resumes`). Reading a character turns the matches that can be completed behind it
into those that the new marks stand for (`Pattern.resumes_step_iff`), so a text is found to
contain a pattern exactly if there is a match somewhere in it (`Pattern.occursIn_iff`).
-/

namespace LiveDocuments

namespace Place

/-- The places between which some text may be read. -/
def LeadsTo (p q : Place) : Prop :=
  ∃ text, p.after = text ++ q.after ∧ q.before = text.reverse ++ p.before

theorem LeadsTo.refl (p : Place) : p.LeadsTo p := ⟨[], rfl, rfl⟩

theorem LeadsTo.trans {p q r : Place} (hpq : p.LeadsTo q) (hqr : q.LeadsTo r) : p.LeadsTo r := by
  obtain ⟨first, hfirst, hfirst'⟩ := hpq
  obtain ⟨second, hsecond, hsecond'⟩ := hqr
  exact ⟨first ++ second, by simp [hfirst, hsecond], by simp [hfirst', hsecond']⟩

theorem LeadsTo.length_le {p q : Place} (h : p.LeadsTo q) : q.after.length ≤ p.after.length := by
  obtain ⟨text, hafter, -⟩ := h
  simp [hafter]

theorem LeadsTo.antisymm {p q : Place} (hpq : p.LeadsTo q) (hqp : q.LeadsTo p) : p = q := by
  have hlength := hqp.length_le
  obtain ⟨text, hafter, hbefore⟩ := hpq
  obtain rfl : text = [] := by
    rw [hafter, List.length_append] at hlength
    exact List.length_eq_zero_iff.mp (by omega)
  cases p
  cases q
  simp_all

theorem LeadsTo.ne_of_ne {p q r : Place} (hpq : p.LeadsTo q) (hqr : q.LeadsTo r) (hne : q ≠ p) :
    r ≠ p := by
  rintro rfl
  exact hne (hqr.antisymm hpq)

variable {before rest : List Char} {c : Char} {q : Place}

theorem leadsTo_next : LeadsTo ⟨before, c :: rest⟩ ⟨c :: before, rest⟩ := ⟨[c], rfl, rfl⟩

theorem ne_of_next_leadsTo (h : LeadsTo ⟨c :: before, rest⟩ q) : q ≠ ⟨before, c :: rest⟩ := by
  rintro rfl
  have hlength := h.length_le
  simp only [List.length_cons] at hlength
  omega

theorem leadsTo_cons_iff :
    LeadsTo ⟨before, c :: rest⟩ q ↔ q = ⟨before, c :: rest⟩ ∨ LeadsTo ⟨c :: before, rest⟩ q := by
  constructor
  · rintro ⟨text, hafter, hbefore⟩
    cases text with
    | nil =>
        refine .inl ?_
        cases q
        simp_all
    | cons d text =>
        obtain ⟨rfl, hrest⟩ := List.cons.inj hafter
        exact .inr ⟨text, hrest, by simpa using hbefore⟩
  · rintro (rfl | h)
    · exact .refl _
    · exact leadsTo_next.trans h

theorem leadsTo_nil_iff : LeadsTo ⟨before, []⟩ q ↔ q = ⟨before, []⟩ := by
  constructor
  · rintro ⟨text, hafter, hbefore⟩
    obtain ⟨rfl, hq⟩ := List.append_eq_nil_iff.mp hafter.symm
    cases q
    simp_all
  · rintro rfl
    exact .refl _

end Place

namespace Pattern

open Relation

/-- Whether a match may stretch from one place to another. -/
def Spans : Pattern → Place → Place → Prop
  | empty, start, stop => stop = start
  | char s, start, stop =>
      ∃ c rest, start.after = c :: rest ∧ s.contains c = true ∧ stop = ⟨c :: start.before, rest⟩
  | assertion a, start, stop => stop = start ∧ start.satisfies a = true
  | seq p q, start, stop => ∃ middle, p.Spans start middle ∧ q.Spans middle stop
  | choice p q, start, stop => p.Spans start stop ∨ q.Spans start stop
  | oneOrMore p, start, stop => TransGen p.Spans start stop

/-- Whether a match may end at a place that was begun earlier, if the character before the
current place was read at one of the marks. -/
def Resumes : Pattern → Marks → Place → Place → Prop
  | empty, _, _, _ => False
  | char _, marks, place, stop => marks.isNone = false ∧ stop = place
  | assertion _, _, _, _ => False
  | seq p q, marks, place, stop =>
      (∃ middle, p.Resumes marks.left place middle ∧ q.Spans middle stop) ∨
        q.Resumes marks.right place stop
  | choice p q, marks, place, stop =>
      p.Resumes marks.left place stop ∨ q.Resumes marks.right place stop
  | oneOrMore p, marks, place, stop =>
      ∃ middle, p.Resumes marks place middle ∧ ReflTransGen p.Spans middle stop

/-- Whether a match may end at a place, if it was begun earlier or, where the pattern is
entered, begins now. -/
def Runs (p : Pattern) (marks : Marks) (entered : Bool) (place stop : Place) : Prop :=
  p.Resumes marks place stop ∨ entered = true ∧ p.Spans place stop

theorem Spans.leadsTo {p : Pattern} {start stop : Place} (h : p.Spans start stop) :
    start.LeadsTo stop := by
  induction p generalizing start stop with
  | empty => exact h ▸ .refl start
  | char s =>
      obtain ⟨c, rest, hafter, -, rfl⟩ := h
      exact ⟨[c], hafter, rfl⟩
  | assertion a => exact h.1 ▸ .refl start
  | seq p q ihp ihq =>
      obtain ⟨middle, hp, hq⟩ := h
      exact (ihp hp).trans (ihq hq)
  | choice p q ihp ihq => exact h.elim ihp ihq
  | oneOrMore p ih =>
      induction h with
      | single hp => exact ih hp
      | tail _ hp ihrest => exact ihrest.trans (ih hp)

theorem leadsTo_of_reflTransGen {p : Pattern} {start stop : Place}
    (h : ReflTransGen p.Spans start stop) : start.LeadsTo stop := by
  induction h with
  | refl => exact .refl start
  | tail _ hp ih => exact ih.trans hp.leadsTo

theorem Resumes.leadsTo {p : Pattern} {marks : Marks} {place stop : Place}
    (h : p.Resumes marks place stop) : place.LeadsTo stop := by
  induction p generalizing marks stop with
  | empty => exact h.elim
  | char s => exact h.2 ▸ .refl place
  | assertion a => exact h.elim
  | seq p q ihp ihq =>
      rcases h with ⟨middle, hp, hq⟩ | hq
      · exact (ihp hp).trans hq.leadsTo
      · exact ihq hq
  | choice p q ihp ihq => exact h.elim ihp ihq
  | oneOrMore p ih =>
      obtain ⟨middle, hp, hrest⟩ := h
      exact (ih hp).trans (leadsTo_of_reflTransGen hrest)

theorem Runs.leadsTo {p : Pattern} {marks : Marks} {entered : Bool} {place stop : Place}
    (h : p.Runs marks entered place stop) : place.LeadsTo stop :=
  h.elim Resumes.leadsTo fun h => h.2.leadsTo

theorem not_resumes_none (p : Pattern) (place stop : Place) : ¬ p.Resumes .none place stop := by
  induction p generalizing stop with
  | empty => exact id
  | char s => exact fun h => absurd h.1 (by decide)
  | assertion a => exact id
  | seq p q ihp ihq => exact fun h => h.elim (fun ⟨middle, hp, _⟩ => ihp middle hp) (ihq stop)
  | choice p q ihp ihq => exact fun h => h.elim (ihp stop) (ihq stop)
  | oneOrMore p ih => exact fun ⟨middle, hp, _⟩ => ih middle hp

/-- A repetition that comes to another place comes to one with some first match. -/
theorem exists_of_reflTransGen {p : Pattern} {start stop : Place}
    (h : ReflTransGen p.Spans start stop) (hne : stop ≠ start) :
    ∃ middle, middle ≠ start ∧ p.Spans start middle ∧ ReflTransGen p.Spans middle stop := by
  induction h using ReflTransGen.head_induction_on with
  | refl => exact absurd rfl hne
  | @head start middle hp hrest ih =>
      by_cases hmiddle : middle = start
      · subst hmiddle
        exact ih hne
      · exact ⟨middle, hmiddle, hp, hrest⟩

/-! ## Matches that run on -/

section

variable {p q : Pattern} {marks : Marks} {entered : Bool} {place stop : Place}

theorem not_runs_of_isNone (h : (marks.isNone && !entered) = true) :
    ¬ p.Runs marks entered place stop := by
  obtain ⟨hnone, hentered⟩ := (Bool.and_eq_true _ _).mp h
  obtain rfl : marks = .none := by cases marks <;> first | rfl | cases hnone
  rintro (hresumes | ⟨hspans, -⟩)
  · exact p.not_resumes_none place stop hresumes
  · simp [hspans] at hentered

theorem runs_seq_iff :
    (seq p q).Runs marks entered place stop ↔
      (∃ middle, p.Runs marks.left entered place middle ∧ q.Spans middle stop) ∨
        q.Resumes marks.right place stop := by
  constructor
  · rintro ((⟨middle, hp, hq⟩ | hq) | ⟨hentered, middle, hp, hq⟩)
    · exact .inl ⟨middle, .inl hp, hq⟩
    · exact .inr hq
    · exact .inl ⟨middle, .inr ⟨hentered, hp⟩, hq⟩
  · rintro (⟨middle, hp | ⟨hentered, hp⟩, hq⟩ | hq)
    · exact .inl (.inl ⟨middle, hp, hq⟩)
    · exact .inr ⟨hentered, middle, hp, hq⟩
    · exact .inl (.inr hq)

theorem runs_choice_iff :
    (choice p q).Runs marks entered place stop ↔
      p.Runs marks.left entered place stop ∨ q.Runs marks.right entered place stop := by
  constructor
  · rintro ((hp | hq) | ⟨hentered, hp | hq⟩)
    · exact .inl (.inl hp)
    · exact .inr (.inl hq)
    · exact .inl (.inr ⟨hentered, hp⟩)
    · exact .inr (.inr ⟨hentered, hq⟩)
  · rintro ((hp | ⟨hentered, hp⟩) | (hq | ⟨hentered, hq⟩))
    · exact .inl (.inl hp)
    · exact .inr ⟨hentered, .inl hp⟩
    · exact .inl (.inr hq)
    · exact .inr ⟨hentered, .inr hq⟩

theorem runs_oneOrMore_iff :
    (oneOrMore p).Runs marks entered place stop ↔
      ∃ middle, p.Runs marks entered place middle ∧ ReflTransGen p.Spans middle stop := by
  constructor
  · rintro (⟨middle, hp, hrest⟩ | ⟨hentered, h⟩)
    · exact ⟨middle, .inl hp, hrest⟩
    · obtain ⟨middle, hp, hrest⟩ := TransGen.head'_iff.mp h
      exact ⟨middle, .inr ⟨hentered, hp⟩, hrest⟩
  · rintro ⟨middle, hp | ⟨hentered, hp⟩, hrest⟩
    · exact .inl ⟨middle, hp, hrest⟩
    · exact .inr ⟨hentered, TransGen.head'_iff.mpr ⟨middle, hp, hrest⟩⟩

end

/-- A pattern can be left at a place exactly if a match ends there. -/
theorem leaves_iff (p : Pattern) (marks : Marks) (entered : Bool) (place : Place) :
    p.leaves marks entered place = true ↔ p.Runs marks entered place place := by
  induction p generalizing marks entered with
  | empty => simp [leaves, Runs, Resumes, Spans]
  | char s =>
      have hspans : ¬ (char s).Spans place place := by
        rintro ⟨c, rest, hafter, -, heq⟩
        have hlength := congrArg (fun place => place.after.length) heq
        simp [hafter] at hlength
      simp [leaves, Runs, Resumes, hspans]
  | assertion a => simp [leaves, Runs, Resumes, Spans]
  | seq p q ihp ihq =>
      simp only [leaves]
      split
      · next hnone => exact iff_of_false Bool.false_ne_true (not_runs_of_isNone hnone)
      · rw [ihq, runs_seq_iff, Runs, ihp]
        constructor
        · rintro (hq | ⟨hp, hq⟩)
          · exact .inr hq
          · exact .inl ⟨place, hp, hq⟩
        · rintro (⟨middle, hp, hq⟩ | hq)
          · obtain rfl := hp.leadsTo.antisymm hq.leadsTo
            exact .inr ⟨hp, hq⟩
          · exact .inl hq
  | choice p q ihp ihq =>
      simp only [leaves]
      split
      · next hnone => exact iff_of_false Bool.false_ne_true (not_runs_of_isNone hnone)
      · rw [Bool.or_eq_true, ihp, ihq, runs_choice_iff]
  | oneOrMore p ih =>
      rw [leaves, ih, runs_oneOrMore_iff]
      constructor
      · exact fun h => ⟨place, h, .refl⟩
      · rintro ⟨middle, hp, hrest⟩
        obtain rfl := hp.leadsTo.antisymm (leadsTo_of_reflTransGen hrest)
        exact hp

/-- The marks behind a character stand for the matches that run on past the place before it. -/
theorem resumes_step_iff (p : Pattern) (marks : Marks) (entered : Bool) (before rest : List Char)
    (c : Char) (stop : Place) :
    p.Resumes (p.step marks entered ⟨before, c :: rest⟩ c).1 ⟨c :: before, rest⟩ stop ↔
      stop ≠ ⟨before, c :: rest⟩ ∧ p.Runs marks entered ⟨before, c :: rest⟩ stop := by
  induction p generalizing marks entered stop with
  | empty =>
      refine iff_of_false id ?_
      rintro ⟨hne, h | ⟨-, rfl⟩⟩
      · exact h
      · exact hne rfl
  | char s =>
      have hnext : (⟨c :: before, rest⟩ : Place) ≠ ⟨before, c :: rest⟩ :=
        Place.ne_of_next_leadsTo (.refl _)
      constructor
      · rintro ⟨hmarks, rfl⟩
        refine ⟨hnext, .inr ?_⟩
        simp only [step] at hmarks
        split at hmarks
        · next hread =>
            obtain ⟨hentered, hcontains⟩ := (Bool.and_eq_true _ _).mp hread
            exact ⟨hentered, c, rest, rfl, hcontains, rfl⟩
        · cases hmarks
      · rintro ⟨hne, ⟨-, rfl⟩ | ⟨hentered, d, others, hafter, hcontains, rfl⟩⟩
        · exact absurd rfl hne
        · obtain ⟨rfl, rfl⟩ := List.cons.inj hafter
          refine ⟨?_, rfl⟩
          simp [step, hentered, hcontains, Marks.isNone]
  | assertion a =>
      refine iff_of_false id ?_
      rintro ⟨hne, h | ⟨-, rfl, -⟩⟩
      · exact h
      · exact hne rfl
  | seq p q ihp ihq =>
      simp only [step]
      split
      · next hnone =>
          exact iff_of_false (not_resumes_none _ _ _) fun h => not_runs_of_isNone hnone h.2
      · simp only [Resumes, Marks.left_join, Marks.right_join]
        rw [ihq, step_snd, runs_seq_iff]
        simp only [ihp]
        constructor
        · rintro (⟨middle, ⟨hne, hp⟩, hq⟩ | ⟨hne, hq | ⟨hleaves, hq⟩⟩)
          · exact ⟨hp.leadsTo.ne_of_ne hq.leadsTo hne, .inl ⟨middle, hp, hq⟩⟩
          · exact ⟨hne, .inr hq⟩
          · exact ⟨hne, .inl ⟨_, (leaves_iff p _ _ _).mp hleaves, hq⟩⟩
        · rintro ⟨hne, ⟨middle, hp, hq⟩ | hq⟩
          · by_cases hmiddle : middle = ⟨before, c :: rest⟩
            · subst hmiddle
              exact .inr ⟨hne, .inr ⟨(leaves_iff p _ _ _).mpr hp, hq⟩⟩
            · exact .inl ⟨middle, ⟨hmiddle, hp⟩, hq⟩
          · exact .inr ⟨hne, .inl hq⟩
  | choice p q ihp ihq =>
      simp only [step]
      split
      · next hnone =>
          exact iff_of_false (not_resumes_none _ _ _) fun h => not_runs_of_isNone hnone h.2
      · simp only [Resumes, Marks.left_join, Marks.right_join]
        rw [ihp, ihq, runs_choice_iff, and_or_left]
  | oneOrMore p ih =>
      simp only [step, Resumes, ih]
      rw [runs_oneOrMore_iff]
      constructor
      · rintro ⟨middle, ⟨hne, hp⟩, hrest⟩
        refine ⟨hp.leadsTo.ne_of_ne (leadsTo_of_reflTransGen hrest) hne, ?_⟩
        rcases hp with hp | ⟨hentered, hp⟩
        · exact ⟨middle, .inl hp, hrest⟩
        · rcases (Bool.or_eq_true _ _).mp hentered with hentered | hleaves
          · exact ⟨middle, .inr ⟨hentered, hp⟩, hrest⟩
          · exact ⟨_, (leaves_iff p _ _ _).mp hleaves, .head hp hrest⟩
      · rintro ⟨hne, middle, hp, hrest⟩
        by_cases hmiddle : middle = ⟨before, c :: rest⟩
        · subst hmiddle
          -- the match left the pattern where it was, so the pattern is entered again
          obtain ⟨next, hnext, hfirst, hothers⟩ := exists_of_reflTransGen hrest hne
          have hleaves := (leaves_iff p _ _ _).mpr hp
          exact ⟨next, ⟨hnext, .inr ⟨by rw [hleaves, Bool.or_true], hfirst⟩⟩, hothers⟩
        · refine ⟨middle, ⟨hmiddle, ?_⟩, hrest⟩
          exact hp.imp_right fun h => ⟨by rw [h.1, Bool.true_or], h.2⟩

/-- From a place on, a match ends if one that began earlier runs on or another one begins. -/
theorem occursFrom_iff (p : Pattern) (marks : Marks) (before text : List Char) :
    p.occursFrom marks before text = true ↔
      (∃ stop, p.Resumes marks ⟨before, text⟩ stop) ∨
        ∃ start stop, Place.LeadsTo ⟨before, text⟩ start ∧ p.Spans start stop := by
  induction text generalizing marks before with
  | nil =>
      rw [occursFrom, leaves_iff]
      constructor
      · rintro (h | ⟨-, h⟩)
        · exact .inl ⟨_, h⟩
        · exact .inr ⟨_, _, .refl _, h⟩
      · rintro (⟨stop, h⟩ | ⟨start, stop, hstart, h⟩)
        · obtain rfl := Place.leadsTo_nil_iff.mp h.leadsTo
          exact .inl h
        · obtain rfl := Place.leadsTo_nil_iff.mp hstart
          obtain rfl := Place.leadsTo_nil_iff.mp h.leadsTo
          exact .inr ⟨rfl, h⟩
  | cons c rest ih =>
      rw [occursFrom, Bool.or_eq_true, ih, step_snd, leaves_iff]
      simp only [resumes_step_iff]
      have hruns : ∀ stop, p.Runs marks true ⟨before, c :: rest⟩ stop →
          (∃ stop, p.Resumes marks ⟨before, c :: rest⟩ stop) ∨
            ∃ start stop, Place.LeadsTo ⟨before, c :: rest⟩ start ∧ p.Spans start stop := by
        rintro stop (h | ⟨-, h⟩)
        · exact .inl ⟨stop, h⟩
        · exact .inr ⟨_, stop, .refl _, h⟩
      have hends : ∀ stop, p.Runs marks true ⟨before, c :: rest⟩ stop →
          p.Runs marks true ⟨before, c :: rest⟩ ⟨before, c :: rest⟩ ∨
            ∃ stop, stop ≠ ⟨before, c :: rest⟩ ∧ p.Runs marks true ⟨before, c :: rest⟩ stop := by
        intro stop h
        by_cases hstop : stop = ⟨before, c :: rest⟩
        · exact .inl (hstop ▸ h)
        · exact .inr ⟨stop, hstop, h⟩
      constructor
      · rintro (h | ⟨stop, -, h⟩ | ⟨start, stop, hstart, h⟩)
        · exact hruns _ h
        · exact hruns stop h
        · exact .inr ⟨start, stop, Place.leadsTo_next.trans hstart, h⟩
      · rintro (⟨stop, h⟩ | ⟨start, stop, hstart, h⟩)
        · exact (hends stop (.inl h)).imp_right .inl
        · rcases Place.leadsTo_cons_iff.mp hstart with rfl | hnext
          · exact (hends stop (.inr ⟨rfl, h⟩)).imp_right .inl
          · exact .inr (.inr ⟨start, stop, hnext, h⟩)

/-- A pattern occurs in a text exactly if there is a match of it that begins and ends somewhere in
the text. -/
theorem occursIn_iff (p : Pattern) (text : List Char) :
    p.occursIn text = true ↔
      ∃ start stop, Place.LeadsTo ⟨[], text⟩ start ∧ p.Spans start stop := by
  rw [occursIn, occursFrom_iff]
  exact or_iff_right fun ⟨stop, h⟩ => p.not_resumes_none _ stop h

end Pattern

end LiveDocuments
