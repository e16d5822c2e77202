import LiveDocuments.Pattern.CharSet

/-!
# Patterns and places

A pattern is built from sets of characters and assertions about the place, by
sequence, choice and repetition. Only whether a pattern occurs in a text is ever
asked, not which occurrence is preferred, so greedy and lazy repetition are not
told apart, and one repetition is enough: once or more often. A counted repetition
is as many copies one after another.

A place keeps the text on both sides of it, the part before it with the nearest
character first, so assertions look at the two heads and no index is needed.
-/

namespace LiveDocuments

/-- What can be asserted about a place without moving on. -/
inductive Assertion where
  | textStart
  | textEnd
  | lineStart
  | lineEnd
  | lineStartOrReturn
  | lineEndOrReturn
  | wordBoundary
  | notWordBoundary
  | wordStart
  | wordEnd
  | wordStartHalf
  | wordEndHalf
deriving DecidableEq

/-- A place in a text: the characters before it, nearest first, and those after
it. -/
structure Place where
  before : List Char
  after : List Char
deriving DecidableEq

namespace Place

/-- Whether there is a word character on that side. -/
def isWordSide : List Char → Bool
  | [] => false
  | c :: _ => Pattern.isWordChar c

/-- Whether that side begins a line. -/
def isLineSide : List Char → Bool
  | [] => true
  | c :: _ => c == '\n'

/-- Whether the first side begins a line, where a carriage return with the line
feed behind it is one break: `outer` breaks the line in any case, and `inner` does
unless `outer` is next on the other side. -/
def isBreakSide (outer inner : Char) : List Char → List Char → Bool
  | [], _ => true
  | c :: _, others => c == outer || (c == inner && others.head? != some outer)

/-- Whether an assertion holds. -/
def satisfies (p : Place) : Assertion → Bool
  | .textStart => p.before.isEmpty
  | .textEnd => p.after.isEmpty
  | .lineStart => isLineSide p.before
  | .lineEnd => isLineSide p.after
  | .lineStartOrReturn => isBreakSide '\n' '\r' p.before p.after
  | .lineEndOrReturn => isBreakSide '\r' '\n' p.after p.before
  | .wordBoundary => isWordSide p.before != isWordSide p.after
  | .notWordBoundary => isWordSide p.before == isWordSide p.after
  | .wordStart => !isWordSide p.before && isWordSide p.after
  | .wordEnd => isWordSide p.before && !isWordSide p.after
  | .wordStartHalf => !isWordSide p.before
  | .wordEndHalf => !isWordSide p.after

end Place

/-- A pattern over characters. -/
inductive Pattern where
  | empty
  | char (s : CharSet)
  | assertion (a : Assertion)
  | seq (p q : Pattern)
  | choice (p q : Pattern)
  | oneOrMore (p : Pattern)
deriving DecidableEq

namespace Pattern

/-- The patterns one after another. -/
def sequence : List Pattern → Pattern
  | [] => empty
  | [p] => p
  | p :: q :: rest => seq p (sequence (q :: rest))

/-- Any of a pattern and the others. -/
def alternatives (p : Pattern) : List Pattern → Pattern
  | [] => p
  | q :: rest => choice p (alternatives q rest)

/-- At most once; what is optional already stays so. -/
def optional : Pattern → Pattern
  | choice empty p => choice empty p
  | p => choice empty p

/-- Once or more often; what repeats already stays as it is. -/
def repeated : Pattern → Pattern
  | oneOrMore p => oneOrMore p
  | choice empty (oneOrMore p) => choice empty (oneOrMore p)
  | choice empty p => choice empty (oneOrMore p)
  | p => oneOrMore p

/-- A pattern `n` times, and then another one. -/
def timesThen (p : Pattern) (n : Nat) (q : Pattern) : Pattern := Nat.repeat (seq p) n q

/-- At most `n` times: each further time is open only after the one before it. -/
def upTo (p : Pattern) : Nat → Pattern
  | 0 => empty
  | n + 1 => Nat.repeat (fun q => optional (seq p q)) n (optional p)

/-- A pattern repeated between `least` and `most` times, or without bound. What is
optional may be left out as often as one likes. -/
def between (p : Pattern) (least : Nat) : Option Nat → Pattern
  | none =>
      if least = 0 then optional (repeated p) else timesThen p (least - 1) (repeated p)
  | some most =>
      match p with
      | choice empty (oneOrMore q) => if most = 0 then empty else choice empty (oneOrMore q)
      | choice empty q => upTo q most
      | p =>
          if least = 0 then upTo p most
          else if most ≤ least then timesThen p (least - 1) p
          else timesThen p least (upTo p (most - least))

@[simp] theorem timesThen_zero (p q : Pattern) : timesThen p 0 q = q := rfl

theorem timesThen_succ (p : Pattern) (n : Nat) (q : Pattern) :
    timesThen p (n + 1) q = seq p (timesThen p n q) := rfl

@[simp] theorem upTo_zero (p : Pattern) : upTo p 0 = empty := rfl

@[simp] theorem upTo_one (p : Pattern) : upTo p 1 = optional p := rfl

theorem upTo_succ_succ (p : Pattern) (n : Nat) :
    upTo p (n + 2) = optional (seq p (upTo p (n + 1))) := rfl

end Pattern

end LiveDocuments
