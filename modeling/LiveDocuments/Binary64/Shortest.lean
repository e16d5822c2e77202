import LiveDocuments.Binary64

/-!
# The shortest decimal text of a double

A double is written with the fewest significant digits that read back as the
same double; among those, the ones nearest to its value. `digits` finds them by
exact arithmetic: for one, two, … seventeen digits it looks at the two
neighbours of the value on that decimal grid and takes the first grid with a
neighbour inside the interval of numbers that round to the double. The ends of
that interval belong to it exactly when the significand is even.

The layout is positional with at least one decimal for decimal exponents from
`-5` to `15`, and scientific with an explicit sign of the exponent otherwise.
-/

namespace LiveDocuments

namespace Binary64

/-- Significant decimal digits together with the position of the point: the
value is `0.d₁d₂… * 10 ^ point`. -/
structure Decimal where
  digits : List Char
  point : Int
deriving DecidableEq

/-- The count of decimal digits of `n`, none for zero. -/
def digitCount (n : Nat) : Nat :=
  if n = 0 then 0 else (Nat.toDigits 10 n).length

/-- The magnitude as a numerator over `2 ^ 1074`. -/
def magnitude (x : Binary64) : Nat := x.significand * twoTo x.shift

/-- Whether the decimal `c * 10 ^ grid` rounds to the magnitude of `x`. Bounds
are counted in quarters of a unit, because below a power of two the gap to the
neighbour is half as wide. -/
def readsBack (x : Binary64) (c : Nat) (grid : Int) : Bool :=
  let below := if x.significand = twoTo 52 ∧ x.shift ≠ 0 then 1 else 2
  let scale := tenTo (-grid).toNat
  let low := (4 * x.significand - below) * twoTo x.shift * scale
  let high := (4 * x.significand + 2) * twoTo x.shift * scale
  let value := c * tenTo grid.toNat * twoTo 1076
  if x.significand % 2 = 0 then low ≤ value && value ≤ high
  else low < value && value < high

/-- The neighbour of the magnitude on the grid `10 ^ grid` that reads back, the
nearer one if both do, and the even one if they are equally near. -/
def onGrid? (x : Binary64) (grid : Int) : Option Nat :=
  let num := x.magnitude * tenTo (-grid).toNat
  let den := twoTo 1074 * tenTo grid.toNat
  let floor := num / den
  match x.readsBack floor grid, x.readsBack (floor + 1) grid with
  | true, true => some (roundQuotient num den)
  | true, false => some floor
  | false, true => some (floor + 1)
  | false, false => none

/-- The place of the leading digit of the magnitude: it lies in
`[10 ^ (point - 1), 10 ^ point)`. -/
def leadingPoint (x : Binary64) : Int :=
  let whole := x.magnitude / twoTo 1074
  if whole = 0 then 1 - (digitCount ((twoTo 1074 - 1) / x.magnitude) : Int)
  else digitCount whole

/-- The shortest digits that read back. Seventeen digits always do, so the last
alternative stands only to make the function total. -/
def decimal (x : Binary64) : Decimal :=
  let leading := x.leadingPoint
  let found := (List.range 17).findSome? fun n =>
    let grid := leading - (n + 1 : Nat)
    (x.onGrid? grid).map fun c => (c, grid)
  let (c, grid) := found.getD (0, 0)
  let ds := Nat.toDigits 10 c
  ⟨(ds.reverse.dropWhile (· == '0')).reverse, ds.length + grid⟩

/-- A decimal written out: positional near one, scientific elsewhere. -/
def Decimal.layout (d : Decimal) : List Char :=
  let exponent := d.point - 1
  if -5 ≤ exponent ∧ exponent ≤ 15 then
    if d.point ≤ 0 then
      ['0', '.'] ++ List.replicate (-d.point).toNat '0' ++ d.digits
    else if d.digits.length ≤ d.point.toNat then
      d.digits ++ List.replicate (d.point.toNat - d.digits.length) '0' ++ ['.', '0']
    else
      d.digits.take d.point.toNat ++ '.' :: d.digits.drop d.point.toNat
  else
    let mantissa := match d.digits with
      | [] => []
      | [c] => [c]
      | c :: rest => c :: '.' :: rest
    mantissa ++ 'e' :: (if exponent < 0 then '-' else '+') :: Nat.toDigits 10 exponent.natAbs

/-- The text of a double: shortest digits, a sign also before a negative zero. -/
def text (x : Binary64) : String :=
  let body := if x.significand = 0 then ['0', '.', '0'] else x.decimal.layout
  String.ofList (if x.negative then '-' :: body else body)

end Binary64

end LiveDocuments
