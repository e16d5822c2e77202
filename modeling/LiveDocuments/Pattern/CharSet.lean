import LiveDocuments.Pattern.CaseFolding
import LiveDocuments.Pattern.Letters

/-!
# Sets of characters

The sets that patterns name, kept as they are put together, so that membership is
decided by the definition of each part. Only classes with a name are listed, by
their intervals of code points.
-/

namespace LiveDocuments

/-- A set of characters. -/
inductive CharSet where
  | none
  | interval (first last : Char)
  | letter (c : Char)
  | listed (intervals : List (Nat × Nat))
  | complement (s : CharSet)
  | union (s t : CharSet)
  | intersection (s t : CharSet)
  | difference (s t : CharSet)
  | symmetricDifference (s t : CharSet)
deriving DecidableEq

namespace CharSet

/-- Whether a character belongs to a set. `letter` is a character in any case. -/
def contains : CharSet → Char → Bool
  | none, _ => false
  | interval first last, c => first ≤ c && c ≤ last
  | letter l, c => Pattern.sameLetter l c
  | listed intervals, c => Pattern.inIntervals intervals c.toNat
  | complement s, c => !s.contains c
  | union s t, c => s.contains c || t.contains c
  | intersection s t, c => s.contains c && t.contains c
  | difference s t, c => s.contains c && !t.contains c
  | symmetricDifference s t, c => s.contains c != t.contains c

/-- The set of one character. -/
def single (c : Char) : CharSet := interval c c

/-- The decimal digits. -/
def digit : CharSet := listed Pattern.digitIntervals

/-- White space. -/
def space : CharSet := listed Pattern.spaceIntervals

/-- The characters of words. -/
def word : CharSet := listed Pattern.wordIntervals

@[simp] theorem contains_single (c d : Char) : (single c).contains d = true ↔ c = d := by
  simp only [single, contains, Bool.and_eq_true, decide_eq_true_eq]
  exact ⟨fun h => Char.le_antisymm h.1 h.2, fun h => h ▸ ⟨Char.le_refl c, Char.le_refl c⟩⟩

@[simp] theorem contains_letter (c d : Char) :
    (letter c).contains d = true ↔ Pattern.foldCase c = Pattern.foldCase d :=
  Pattern.sameLetter_iff c d

@[simp] theorem contains_word (c : Char) : word.contains c = Pattern.isWordChar c := rfl

@[simp] theorem contains_digit (c : Char) : digit.contains c = Pattern.isDigit c := rfl

@[simp] theorem contains_space (c : Char) : space.contains c = Pattern.isSpace c := rfl

end CharSet

end LiveDocuments
