import LiveDocuments.Pattern.CharSet

/-!
# Sets of characters as intervals

The code points of a set as a list of intervals that ascend and do not touch, so
that each set has one list. Surrogates are no characters: an interval may run
across all of them, but none begins or ends among them.
-/

namespace LiveDocuments

namespace CharSet

/-- An interval of code points, with both ends. -/
abbrev Interval := Nat × Nat

/-- The greatest code point. -/
def lastPoint : Nat := 0x10FFFF

/-- The intervals with those that overlap or touch put together, if their first
points ascend. -/
def coalesce : List Interval → List Interval
  | [] => []
  | (first, last) :: rest => go first last rest
where
  /-- The interval read last, still growing, before the others. -/
  go (first last : Nat) : List Interval → List Interval
    | [] => [(first, last)]
    | (nextFirst, nextLast) :: rest =>
        if nextFirst ≤ last + 1 then go first (max last nextLast) rest
        else (first, last) :: go nextFirst nextLast rest

/-- The one list of a set whose intervals come in any order. -/
def arrange (intervals : List Interval) : List Interval :=
  coalesce (intervals.mergeSort fun a b => a.1 ≤ b.1)

/-- The union of two arranged lists. -/
def unite (s t : List Interval) : List Interval :=
  coalesce (s.merge t fun a b => a.1 ≤ b.1)

/-- The interval without surrogates at its ends, if anything is left of it. -/
def withoutSurrogates (first last : Nat) : List Interval :=
  let first := if 0xD800 ≤ first ∧ first ≤ 0xDFFF then 0xE000 else first
  let last := if 0xD800 ≤ last ∧ last ≤ 0xDFFF then 0xD7FF else last
  if first ≤ last then [(first, last)] else []

/-- The gaps in an arranged list from a point on. -/
def gapsFrom (start : Nat) : List Interval → List Interval
  | [] => withoutSurrogates start lastPoint
  | (first, last) :: rest =>
      (if start < first then withoutSurrogates start (first - 1) else []) ++
        gapsFrom (last + 1) rest

/-- The complement of an arranged list. -/
def gaps (s : List Interval) : List Interval := gapsFrom 0 s

/-- The intersection of two arranged lists. -/
def overlap (s t : List Interval) : List Interval := gaps (unite (gaps s) (gaps t))

/-- The first of two arranged lists without the second. -/
def remove (s t : List Interval) : List Interval := gaps (unite (gaps s) t)

/-- The characters that case folding moves, each with the place it goes to. -/
def foldedPoints : List (Nat × Nat) :=
  Pattern.foldRuns.flatMap fun run =>
    (List.range ((run.last - run.first) / run.step + 1)).map fun i =>
      let point := run.first + i * run.step
      (point, ((point : Int) + run.distance).toNat)

/-- An arranged list with all case variants of its members. -/
def withCaseVariants (s : List Interval) : List Interval :=
  let folded := foldedPoints.filterMap fun (point, target) =>
    if Pattern.inIntervals s point then some (target, target) else Option.none
  let s := unite s (arrange folded)
  let variants := foldedPoints.filterMap fun (point, target) =>
    if Pattern.inIntervals s target then some (point, point) else Option.none
  unite s (arrange variants)

/-- The intervals of a set. -/
def intervals : CharSet → List Interval
  | none => []
  | interval first last => if first ≤ last then [(first.toNat, last.toNat)] else []
  | letter c => arrange ((Pattern.caseVariants c).map fun d => (d.toNat, d.toNat))
  | listed intervals => intervals
  | complement s => gaps s.intervals
  | union s t => unite s.intervals t.intervals
  | intersection s t => overlap s.intervals t.intervals
  | difference s t => remove s.intervals t.intervals
  | symmetricDifference s t =>
      let s := s.intervals
      let t := t.intervals
      unite (remove s t) (remove t s)

/-- The set with all case variants of its members. They are listed, since one member
has no simple way to find the others. -/
def regardlessOfCase (s : CharSet) : CharSet := listed (withCaseVariants s.intervals)

end CharSet

end LiveDocuments
