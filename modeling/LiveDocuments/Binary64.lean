import LiveDocuments.Powers

/-!
# Finite binary64 numbers

A double stored in a document is always finite, so it is written here as a sign,
a significand below `2 ^ 53` and a shift: its value is
`± significand * 2 ^ shift * 2 ^ (-1074)`. The exponent counts upwards from the
smallest subnormal, so every value is a whole number of *units* of size
`2 ^ (-1074)`, and order and equality of doubles are order and equality of the
integers `units`; no rational arithmetic is needed to state them. A significand
below `2 ^ 52` occurs with shift zero only, which makes the representation of a
value unique except for the sign of zero.

`ofRatio?` rounds an exact quotient to the nearest double, ties to the even
significand, and answers `none` when the quotient is beyond the largest one.
-/

namespace LiveDocuments

/-- A finite double, in units of the smallest subnormal. -/
structure Binary64 where
  negative : Bool
  significand : Nat
  shift : Nat
  significand_lt : significand < twoTo 53
  shift_le : shift ≤ 2045
  normalized : shift = 0 ∨ twoTo 52 ≤ significand
deriving DecidableEq

/-- The quotient `num / den` rounded to the nearest whole number; a half goes to
the even neighbour. -/
def roundQuotient (num den : Nat) : Nat :=
  let floor := num / den
  let twice := 2 * (num % den)
  if twice < den then floor
  else if den < twice then floor + 1
  else if floor % 2 = 0 then floor
  else floor + 1

@[simp] theorem roundQuotient_one (num : Nat) : roundQuotient num 1 = num := by
  simp [roundQuotient, Nat.mod_one]

theorem roundQuotient_mul (q den : Nat) (hden : 0 < den) :
    roundQuotient (q * den) den = q := by
  simp [roundQuotient, Nat.mul_div_cancel q hden, hden]

/-- The whole number nearest to `n` that has at most 53 significant bits. -/
def roundTo53Bits (n : Nat) : Nat :=
  roundQuotient n (twoTo (n.log2 - 52)) * twoTo (n.log2 - 52)

theorem roundTo53Bits_of_lt (n : Nat) (h : n < twoTo 53) : roundTo53Bits n = n := by
  have hlog : n.log2 ≤ 52 := by
    by_cases hn : n = 0
    · simp [hn]
    · have := (Nat.log2_lt hn).2 h
      omega
  have hzero : n.log2 - 52 = 0 := by omega
  simp [roundTo53Bits, hzero]

namespace Binary64

/-- The value in units of `2 ^ (-1074)`. Both zeros have zero units. -/
def units (x : Binary64) : Int :=
  if x.negative then -((x.significand * twoTo x.shift : Nat) : Int)
  else ((x.significand * twoTo x.shift : Nat) : Int)

/-- The double with the given parts, if they are in range. -/
def ofParts? (negative : Bool) (significand shift : Nat) : Option Binary64 :=
  if h : significand < twoTo 53 ∧ shift ≤ 2045 ∧ (shift = 0 ∨ twoTo 52 ≤ significand) then
    some ⟨negative, significand, shift, h.1, h.2.1, h.2.2⟩
  else none

/-- The zero of the given sign. -/
def zero (negative : Bool) : Binary64 :=
  ⟨negative, 0, 0, by decide, by decide, Or.inl rfl⟩

/-- The double nearest to `± num / den`, where `den` is positive. Rounding the
significand up to `2 ^ 53` moves the value into the next binade. -/
def ofRatio? (negative : Bool) (num den : Nat) : Option Binary64 :=
  let scaled := num * twoTo 1074
  let shift := (scaled / den).log2 - 52
  let significand := roundQuotient scaled (den * twoTo shift)
  if significand = twoTo 53 then ofParts? negative (twoTo 52) (shift + 1)
  else ofParts? negative significand shift

/-- The value nearest to `± digits * 10 ^ exponent`. Values whose leading digit
stands far outside the range of doubles are recognised by their digit count, so
that no power of ten is built from an arbitrary exponent. -/
def ofDecimal? (negative : Bool) (digits : Nat) (exponent : Int) : Option Binary64 :=
  if digits = 0 then some (zero negative)
  else
    let leading := exponent + (Nat.toDigits 10 digits).length
    if 400 < leading then none
    else if leading < -400 then some (zero negative)
    else ofRatio? negative (digits * tenTo exponent.toNat) (tenTo (-exponent).toNat)

/-- The value with the sign of a zero forgotten; two doubles are numerically
equal exactly when these agree. -/
def withoutZeroSign (x : Binary64) : Binary64 :=
  if x.significand = 0 then { x with negative := false } else x

@[simp] theorem units_zero (negative : Bool) : (zero negative).units = 0 := by
  cases negative <;> simp [zero, units]

@[simp] theorem units_withoutZeroSign (x : Binary64) : x.withoutZeroSign.units = x.units := by
  unfold withoutZeroSign
  split
  · next h => cases hneg : x.negative <;> simp [units, h, hneg]
  · rfl

end Binary64

end LiveDocuments
