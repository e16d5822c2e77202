import LiveDocuments.Binary64.Shortest

/-!
# Numbers in documents

A document keeps integers and doubles apart: `1` and `1.0` are different stored
values with different texts. Comparisons between two numbers go through the
nearest doubles, which is expressed by `units`: the whole number of smallest
subnormals of the double that represents the number. Two numbers compare as
their units compare.
-/

namespace LiveDocuments

/-- A stored number. Integers read from text lie between `-2 ^ 63` and
`2 ^ 64 - 1`; larger ones are read as doubles. -/
inductive Number where
  | integer (value : Int)
  | double (value : Binary64)
deriving DecidableEq

namespace Number

/-- The integer rounded to 53 significant bits, with its sign kept. -/
def roundInteger (n : Int) : Int :=
  if n < 0 then -(roundTo53Bits n.natAbs : Int) else (roundTo53Bits n.natAbs : Int)

/-- The nearest double, counted in units of `2 ^ (-1074)`. -/
def units : Number → Int
  | integer n => roundInteger n * twoTo 1074
  | double x => x.units

@[simp] theorem units_double (x : Binary64) : (double x).units = x.units := rfl

theorem units_integer_of_natAbs_lt (n : Int) (h : n.natAbs < twoTo 53) :
    (integer n).units = n * twoTo 1074 := by
  simp only [units, roundInteger, roundTo53Bits_of_lt _ h]
  split <;> congr 1 <;> omega

/-- The number with the sign of a double zero forgotten. -/
def withoutZeroSign : Number → Number
  | integer n => integer n
  | double x => double x.withoutZeroSign

/-- The decimal text of a number. -/
def text : Number → String
  | integer n => toString n
  | double x => x.text

end Number

end LiveDocuments
