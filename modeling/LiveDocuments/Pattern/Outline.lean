import LiveDocuments.Pattern.Intervals
import LiveDocuments.Pattern.Tree

/-!
# Outlines

The outline of a pattern is its tree in a simplified form, from which its automaton
is built: literals next to each other are one literal, groups that capture nothing
are gone, lists are flat, choices between characters are classes, and what all
branches of a choice begin with stands before the choice.
-/

namespace LiveDocuments

namespace Pattern

/-- A simplified tree. A class without intervals matches nothing. -/
inductive Outline where
  | empty
  | literal (cs : List Char)
  | oneOf (intervals : List CharSet.Interval)
  | assertion (a : Assertion)
  | repetition (sub : Outline) (least : Nat) (most : Option Nat) (greedy : Bool)
  | capture (sub : Outline)
  | sequence (parts : List Outline)
  | choice (branches : List Outline)

namespace Outline

mutual

/-- Whether two outlines are alike. No two captures are: each is numbered. -/
def isLike : Outline → Outline → Bool
  | empty, empty => true
  | literal cs, literal ds => cs == ds
  | oneOf s, oneOf t => s == t
  | assertion a, assertion b => a == b
  | repetition p least most greedy, repetition q least' most' greedy' =>
      least == least' && most == most' && greedy == greedy' && p.isLike q
  | sequence ps, sequence qs => areLike ps qs
  | choice ps, choice qs => areLike ps qs
  | _, _ => false

/-- Whether two lists are alike. -/
def areLike : List Outline → List Outline → Bool
  | [], [] => true
  | p :: ps, q :: qs => p.isLike q && areLike ps qs
  | _, _ => false

end

mutual

/-- The length of the shortest match; none where some part matches nothing at all,
so that it cannot be told. -/
def leastLength : Outline → Option Nat
  | empty | assertion _ => some 0
  | literal cs => some cs.length
  | oneOf intervals => if intervals.isEmpty then none else some 1
  | repetition sub least _ _ => sub.leastLength.map (· * least)
  | capture sub => sub.leastLength
  | sequence parts => leastSum parts
  | choice branches => leastOf branches

/-- The least lengths of a list added up. -/
def leastSum : List Outline → Option Nat
  | [] => some 0
  | part :: rest =>
      match part.leastLength, leastSum rest with
      | some n, some m => some (n + m)
      | _, _ => none

/-- The least of the least lengths of a list. -/
def leastOf : List Outline → Option Nat
  | [] => none
  | [branch] => branch.leastLength
  | branch :: rest =>
      match branch.leastLength, leastOf rest with
      | some n, some m => some (min n m)
      | _, _ => none

end

mutual

/-- Whether it can match nothing but the empty text. -/
def isWidthless : Outline → Bool
  | empty | assertion _ => true
  | literal _ | oneOf _ => false
  | repetition sub _ most _ => sub.isWidthless && most.isSome
  | capture sub => sub.isWidthless
  | sequence parts => areWidthless parts
  | choice branches => areWidthless branches

/-- Whether all of a list match nothing but the empty text. -/
def areWidthless : List Outline → Bool
  | [] => true
  | outline :: rest => outline.isWidthless && areWidthless rest

end

/-! ## Simplified forms -/

/-- The class of an arranged list; one character is a literal. -/
def ofIntervals : List CharSet.Interval → Outline
  | [(first, last)] =>
      if first = last then literal [Char.ofNat first] else oneOf [(first, last)]
  | intervals => oneOf intervals

/-- A character in any case: a literal if it has no other. -/
def ofLetter (c : Char) : Outline := ofIntervals (CharSet.letter c).intervals

/-- A repetition, unless it is of no or one time. -/
def ofRepetition (sub : Outline) (least : Nat) (most : Option Nat) (greedy : Bool) : Outline :=
  if most = some 0 then empty
  else if least = 1 ∧ most = some 1 then sub
  else repetition sub least most greedy

/-- The parts of a sequence, none for the empty one. -/
def parts : Outline → List Outline
  | empty => []
  | sequence parts => parts
  | part => [part]

/-- A part before others, as one literal with a literal behind it. -/
def joinLiteral : Outline → List Outline → List Outline
  | literal cs, literal ds :: rest => literal (cs ++ ds) :: rest
  | part, rest => part :: rest

/-- A sequence. -/
def ofParts (subs : List Outline) : Outline :=
  match (subs.flatMap parts).foldr joinLiteral [] with
  | [] => empty
  | [part] => part
  | parts => sequence parts

/-- The branches of a choice. -/
def branches : Outline → List Outline
  | choice branches => branches
  | branch => [branch]

/-- The interval of a literal of one character. -/
def asCharacter? : Outline → Option (List CharSet.Interval)
  | literal [c] => some [(c.toNat, c.toNat)]
  | _ => none

/-- The intervals of a class. -/
def asClass? : Outline → Option (List CharSet.Interval)
  | oneOf intervals => some intervals
  | _ => none

/-- One class for outlines that are all classes in the given view. -/
def asOneClass? (view : Outline → Option (List CharSet.Interval)) (subs : List Outline) :
    Option Outline :=
  (subs.mapM view).map fun all => ofIntervals (CharSet.arrange all.flatten)

/-- The parts of an outline that is a sequence. -/
def sequenceParts? : Outline → Option (List Outline)
  | sequence parts => some parts
  | _ => none

/-- How many parts at the head two lists have in common. -/
def commonLength : List Outline → List Outline → Nat
  | p :: ps, q :: qs => if p.isLike q then commonLength ps qs + 1 else 0
  | _, _ => 0

/-- A choice between flat branches. If all of them are sequences, what they begin
with in common is put before the choice. Every round takes a part off each branch,
so the number of parts is fuel enough. -/
def ofFlatBranches : Nat → List Outline → Outline
  | 0, subs => choice subs
  | fuel + 1, subs =>
      match subs with
      | [] => oneOf []
      | [branch] => branch
      | subs =>
          match asOneClass? asCharacter? subs, asOneClass? asClass? subs,
              subs.mapM sequenceParts? with
          | some outline, _, _ => outline
          | none, some outline, _ => outline
          | none, none, some (first :: others) =>
              let common := others.foldl (fun n ps => min n (commonLength first ps)) first.length
              if common = 0 then choice subs
              else
                let rests := (first :: others).map fun ps => ofParts (ps.drop common)
                ofParts (first.take common ++ [ofFlatBranches fuel (rests.flatMap branches)])
          | none, none, _ => choice subs

mutual

/-- The number of outlines in an outline. -/
def count : Outline → Nat
  | repetition sub _ _ _ => sub.count + 1
  | capture sub => sub.count + 1
  | sequence parts => countAll parts + 1
  | choice branches => countAll branches + 1
  | _ => 1

/-- The number of outlines in a list. -/
def countAll : List Outline → Nat
  | [] => 0
  | outline :: rest => outline.count + countAll rest

end

/-- A choice. -/
def ofBranches (subs : List Outline) : Outline :=
  let flat := subs.flatMap branches
  ofFlatBranches (countAll flat + 1) flat

end Outline

namespace Tree

mutual

/-- The outline of a tree. -/
def outline : Tree → Outline
  | empty | change => .empty
  | literal c caseless => if caseless then .ofLetter c else .literal [c]
  | oneOf s _ => .ofIntervals s.intervals
  | assertion a => .assertion a
  | repetition sub least most greedy => .ofRepetition sub.outline least most greedy
  | group captures sub => if captures then .capture sub.outline else sub.outline
  | sequence parts => .ofParts (outlines parts)
  | choice branches => .ofBranches (outlines branches)

/-- The outlines of a list. -/
def outlines : List Tree → List Outline
  | [] => []
  | tree :: rest => tree.outline :: outlines rest

end

theorem outlines_eq_map (trees : List Tree) : outlines trees = trees.map outline := by
  induction trees with
  | nil => rfl
  | cons tree rest ih => rw [outlines, ih, List.map_cons]

end Tree

end Pattern

end LiveDocuments
