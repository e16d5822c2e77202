import LiveDocuments.Pattern.Basic

/-!
# Patterns as they are written

The tree of a written pattern keeps what its meaning drops: groups, counts, greed
and the brackets of classes. Two limits are put on the tree and not on the meaning,
its depth and the size of the automaton it stands for. A list of one part or one
branch is that part or branch.
-/

namespace LiveDocuments

namespace Pattern

/-- A written pattern. `change` is a change of flags, which matches like nothing;
a class comes with the depth of its brackets. -/
inductive Tree where
  | empty
  | change
  | literal (c : Char) (caseless : Bool)
  | oneOf (s : CharSet) (depth : Nat)
  | assertion (a : Assertion)
  | repetition (sub : Tree) (least : Nat) (most : Option Nat) (greedy : Bool)
  | group (captures : Bool) (sub : Tree)
  | sequence (parts : List Tree)
  | choice (branches : List Tree)

/-- The greatest depth of a tree that is accepted. -/
def depthLimit : Nat := 250

namespace Tree

/-- The tree of parts one after another. -/
def ofParts : List Tree → Tree
  | [] => empty
  | [part] => part
  | parts => sequence parts

/-- The tree of a choice. -/
def ofBranches : List Tree → Tree
  | [] => empty
  | [branch] => branch
  | branches => choice branches

mutual

/-- How many repetitions, groups, classes and lists are nested in each other. -/
def depth : Tree → Nat
  | empty | change | literal _ _ | assertion _ => 0
  | oneOf _ depth => depth
  | repetition sub _ _ _ => sub.depth + 1
  | group _ sub => sub.depth + 1
  | sequence parts => greatestDepth parts + 1
  | choice branches => greatestDepth branches + 1

/-- The greatest depth in a list. -/
def greatestDepth : List Tree → Nat
  | [] => 0
  | tree :: rest => max tree.depth (greatestDepth rest)

end

mutual

/-- Whether it can match nothing but the empty text. -/
def isWidthless : Tree → Bool
  | empty | change | assertion _ => true
  | literal _ _ | oneOf _ _ => false
  | repetition sub _ most _ => most == some 0 || sub.isWidthless && most.isSome
  | group _ sub => sub.isWidthless
  | sequence parts => areWidthless parts
  | choice branches => areWidthless branches

/-- Whether all of a list match nothing but the empty text. -/
def areWidthless : List Tree → Bool
  | [] => true
  | tree :: rest => tree.isWidthless && areWidthless rest

end

theorem areWidthless_eq_all (trees : List Tree) :
    areWidthless trees = trees.all isWidthless := by
  induction trees with
  | nil => rfl
  | cons tree rest ih => rw [areWidthless, ih, List.all_cons]

/-- A tree repeated. What matches only the empty text does so once as well as any
number of times. -/
def repeatedBetween (sub : Tree) (least : Nat) (most : Option Nat) (greedy : Bool) : Tree :=
  if sub.isWidthless then repetition sub (min least 1) (some (min (most.getD 1) 1)) greedy
  else repetition sub least most greedy

mutual

/-- What a written pattern means. -/
def pattern : Tree → Pattern
  | empty | change => .empty
  | literal c caseless => .char (if caseless then .letter c else .single c)
  | oneOf s _ => .char s
  | assertion a => .assertion a
  | repetition sub least most _ => sub.pattern.between least most
  | group _ sub => sub.pattern
  | sequence parts => Pattern.sequence (patterns parts)
  | choice branches =>
      match patterns branches with
      | [] => .empty
      | first :: rest => Pattern.alternatives first rest

/-- What the trees of a list mean. -/
def patterns : List Tree → List Pattern
  | [] => []
  | tree :: rest => tree.pattern :: patterns rest

end

theorem patterns_eq_map (trees : List Tree) : patterns trees = trees.map pattern := by
  induction trees with
  | nil => rfl
  | cons tree rest ih => rw [patterns, ih, List.map_cons]

end Tree

end Pattern

end LiveDocuments
