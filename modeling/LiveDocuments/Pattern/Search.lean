import LiveDocuments.Pattern.Basic

/-!
# Searching a text

A text is read once, one character at a time. Marks in the pattern show where the
character before the current place may have been read; from them, and from the
beginning of the pattern at every place, the marks behind the next character
follow. So a search takes a number of steps that is bounded by the lengths of text
and pattern, whatever the pattern repeats, and parts of the pattern without marks
cost nothing.

At every place a pattern may be entered, and it may be left there: at once, where it
matches the empty text, or because a match that began earlier ends.
-/

namespace LiveDocuments

/-- The marked positions in a pattern, in the shape of the pattern: `pair` belongs
to a sequence or choice, and parts without marks are cut off. -/
inductive Marks where
  | none
  | here
  | pair (left right : Marks)
deriving DecidableEq

namespace Marks

/-- Whether there are no marks. -/
def isNone : Marks → Bool
  | none => true
  | _ => false

/-- The marks in the first part. -/
def left : Marks → Marks
  | pair l _ => l
  | _ => none

/-- The marks in the second part. -/
def right : Marks → Marks
  | pair _ r => r
  | _ => none

/-- The marks of two parts together. -/
def join : Marks → Marks → Marks
  | none, none => none
  | l, r => pair l r

@[simp] theorem left_join (l r : Marks) : (join l r).left = l := by
  cases l <;> cases r <;> rfl

@[simp] theorem right_join (l r : Marks) : (join l r).right = r := by
  cases l <;> cases r <;> rfl

end Marks

namespace Pattern

/-- Whether the pattern can be left at the place, if the character before it was
read at one of the marks or the pattern is entered there. To repeat it once more
without reading a character opens no other way out. -/
def leaves : Pattern → Marks → Bool → Place → Bool
  | empty, _, entered, _ => entered
  | char _, marks, _, _ => !marks.isNone
  | assertion a, _, entered, place => entered && place.satisfies a
  | seq p q, marks, entered, place =>
      if marks.isNone && !entered then false
      else q.leaves marks.right (p.leaves marks.left entered place) place
  | choice p q, marks, entered, place =>
      if marks.isNone && !entered then false
      else p.leaves marks.left entered place || q.leaves marks.right entered place
  | oneOrMore p, marks, entered, place => p.leaves marks entered place

/-- The marks behind the next character, from the marks behind the one before the
place and whether the pattern is entered there; and whether it can be left there. -/
def step : Pattern → Marks → Bool → Place → Char → Marks × Bool
  | empty, _, entered, _, _ => (.none, entered)
  | char s, marks, entered, _, c =>
      (if entered && s.contains c then .here else .none, !marks.isNone)
  | assertion a, _, entered, place, _ => (.none, entered && place.satisfies a)
  | seq p q, marks, entered, place, c =>
      if marks.isNone && !entered then (.none, false)
      else
        let (left, between) := p.step marks.left entered place c
        let (right, out) := q.step marks.right between place c
        (.join left right, out)
  | choice p q, marks, entered, place, c =>
      if marks.isNone && !entered then (.none, false)
      else
        let (left, first) := p.step marks.left entered place c
        let (right, second) := q.step marks.right entered place c
        (.join left right, first || second)
  | oneOrMore p, marks, entered, place, c =>
      p.step marks (entered || p.leaves marks entered place) place c

theorem leaves_none (p : Pattern) (place : Place) : p.leaves .none false place = false := by
  induction p with
  | oneOrMore p ih => simpa [leaves] using ih
  | _ => simp [leaves, Marks.isNone]

theorem step_none (p : Pattern) (place : Place) (c : Char) :
    p.step .none false place c = (.none, false) := by
  induction p with
  | oneOrMore p ih => simpa [step, leaves_none] using ih
  | _ => simp [step, Marks.isNone]

/-- A pattern that can be left can also be left if it is entered besides. -/
theorem leaves_entered (p : Pattern) (marks : Marks) (place : Place) {entered : Bool}
    (h : p.leaves marks entered place = true) : p.leaves marks true place = true := by
  induction p generalizing marks entered with
  | empty => rfl
  | char s => exact h
  | assertion a =>
      simp only [leaves, Bool.and_eq_true] at h ⊢
      exact ⟨trivial, h.2⟩
  | seq p q ihp ihq =>
      simp only [leaves, Bool.not_true, Bool.and_false, Bool.false_eq_true, if_false]
      simp only [leaves] at h
      split at h
      · contradiction
      · cases hp : p.leaves marks.left entered place with
        | true => rw [hp] at h; rw [ihp _ hp]; exact h
        | false =>
            rw [hp] at h
            cases p.leaves marks.left true place with
            | true => exact ihq _ h
            | false => exact h
  | choice p q ihp ihq =>
      simp only [leaves, Bool.not_true, Bool.and_false, Bool.false_eq_true, if_false,
        Bool.or_eq_true]
      simp only [leaves] at h
      split at h
      · contradiction
      · exact ((Bool.or_eq_true _ _).mp h).imp (ihp _) (ihq _)
  | oneOrMore p ih => exact ih _ h

theorem step_snd (p : Pattern) (marks : Marks) (entered : Bool) (place : Place) (c : Char) :
    (p.step marks entered place c).2 = p.leaves marks entered place := by
  induction p generalizing marks entered with
  | seq p q ihp ihq =>
      simp only [step, leaves]
      split
      · rfl
      · rw [ihq, ihp]
  | choice p q ihp ihq =>
      simp only [step, leaves]
      split
      · rfl
      · rw [ihp, ihq]
  | oneOrMore p ih =>
      rw [step, leaves, ih]
      cases h : p.leaves marks entered place with
      | false => rw [Bool.or_false, h]
      | true => rw [Bool.or_true]; exact leaves_entered p marks place h
  | _ => rfl

/-- Whether a match ends at the place between the two sides or later, if the
character before it was read at one of the marks or the match begins now. -/
def occursFrom (p : Pattern) (marks : Marks) (before : List Char) : List Char → Bool
  | [] => p.leaves marks true ⟨before, []⟩
  | c :: rest =>
      let (marks, found) := p.step marks true ⟨before, c :: rest⟩ c
      found || p.occursFrom marks (c :: before) rest

/-- Whether the pattern occurs anywhere in a text. -/
def occursIn (p : Pattern) (text : List Char) : Bool := p.occursFrom .none [] text

end Pattern

end LiveDocuments
