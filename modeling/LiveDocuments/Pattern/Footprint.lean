import LiveDocuments.Pattern.Fault
import LiveDocuments.Pattern.Outline
import LiveDocuments.Text.ByteRanges
import Std.Data.HashMap

/-!
# The size of a pattern's automata

A pattern stands for two automata over bytes, one that reads a text forward and one
that reads it backward, and it is granted only if neither takes more memory than the
limit. They are not built here: only their states are counted.

Every state takes 32 bytes. A state with a table of byte ranges takes 8 more for
each, and a fork 4 more for each way out. A part of an automaton has one state where
it is entered and one where it is left; where the latter is a fork, going on from it
is one more way out.

Characters beyond ASCII are read byte by byte, and a class of them shares states
between its members through a table of limited capacity: a new state takes the slot
of the one that was there. Which states meet in a slot depends on their numbers, so
the number of states before a class counts too.
-/

namespace LiveDocuments

namespace Pattern

/-- How an automaton reads a text. -/
inductive Direction where
  | forward
  | backward
deriving DecidableEq

/-- How much of an automaton there is so far. -/
structure Size where
  states : Nat
  bytes : Nat
deriving DecidableEq

namespace Size

/-- One more state, with what it takes beyond the least. -/
def state (size : Size) (extra : Nat) : Size := ⟨size.states + 1, size.bytes + 32 + extra⟩

/-- More ways out of forks that are there. -/
def ways (size : Size) (count : Nat) : Size := ⟨size.states, size.bytes + 4 * count⟩

/-- Whether the limit has been passed, so that counting may stop. -/
def isPastLimit (size : Size) : Bool := sizeLimit < size.bytes

end Size

/-- An automaton up to the end of a part, and whether that part is left at a fork. -/
structure Part where
  size : Size
  endsInFork : Bool
deriving DecidableEq

/-- The size with the step from the part to what follows. -/
def Part.linked (part : Part) : Size :=
  if part.endsInFork then part.size.ways 1 else part.size

/-! ## Repetition -/

/-- Further copies behind a part, each linked to the one before it. -/
def chain (one : Size → Part) : Nat → Part → Part
  | 0, part => part
  | count + 1, part =>
      if part.size.isPastLimit then part else chain one count (one part.linked)

/-- A number of copies; none is one state. -/
def copies (one : Size → Part) : Nat → Size → Part
  | 0, size => ⟨size.state 0, false⟩
  | count + 1, size => chain one count (one size)

/-- A repetition. What may be empty needs two forks to be repeated from none on: one
behind it to go back, and one before it to pass. -/
def repetitionPart (one : Size → Part) (mayBeEmpty : Bool) (least : Nat) :
    Option Nat → Size → Part
  | none, size =>
      if least = 0 then
        if mayBeEmpty then ⟨(((one size).linked.state 8).state 8).state 0, false⟩
        else ⟨(one (size.state 4)).linked, true⟩
      else ⟨(copies one least size).linked.state 4, true⟩
  | some most, size =>
      if least = 0 ∧ most = 1 then ⟨(one (size.state 8)).linked.state 0, false⟩
      else
        let required := copies one least size
        if least = most then required
        else
          let optional := chain (fun size => one (size.state 8)) (most - least)
            ⟨required.size.state 0, required.endsInFork⟩
          ⟨optional.linked, false⟩

/-! ## Classes -/

/-- States that can be shared, by slot: what they do, and their number. -/
structure SharedStates where
  size : Size
  slots : Std.HashMap UInt64 (List Nat × Nat)

/-- The hash that spreads states over slots: a product for every number after it has
been mixed in, in words of 64 bits. -/
def mix (numbers : List Nat) : UInt64 :=
  numbers.foldl (fun h n => (h ^^^ UInt64.ofNat n) * 1099511628211) 14695981039346656037

/-- The number of the state that does this: the one in the slot, or a new one. -/
def SharedStates.find (shared : SharedStates) (capacity : UInt64) (does : List Nat)
    (extra : Nat) : SharedStates × Nat :=
  let slot := mix does % capacity
  let number := shared.size.states
  let known := (shared.slots[slot]?).filter fun state => state.1 == does
  match known with
  | some (_, number) => (shared, number)
  | none => (⟨shared.size.state extra, shared.slots.insert slot (does, number)⟩, number)

/-- The state that reads any of the rows, which ascend, and then goes to the target.
Rows are put together by their first range, and a state is counted after those it
leads to. -/
def rowsForward (target : Nat) :
    Nat → List (List Text.ByteRange) → SharedStates → SharedStates × Nat
  | 0, _, shared => (shared, target)
  | levels + 1, rows, shared =>
      let groups := rows.splitBy fun a b => a.head? == b.head?
      let (shared, does) := groups.foldl (fun (shared, does) group =>
        match group with
        | [] | [] :: _ => (shared, does)
        | [(first, last)] :: _ => (shared, does ++ [first, last, target])
        | ((first, last) :: _) :: _ =>
            let (shared, next) :=
              rowsForward target levels (group.map fun row => row.drop 1) shared
            (shared, does ++ [first, last, next])) (shared, [])
      shared.find 10000 does (8 * groups.length)

/-- The states that read a row from its last byte to its first, before the target. -/
def rowBackward (target : Nat) (row : List Text.ByteRange) (shared : SharedStates) :
    SharedStates :=
  (row.foldl (fun (shared, next) (range : Text.ByteRange) =>
    SharedStates.find shared 1000 [next, range.1, range.2] 0) (shared, target)).1

/-- A class of characters. One of ASCII characters alone is one table. -/
def classPart (direction : Direction) (intervals : List CharSet.Interval) (size : Size) : Part :=
  if size.isPastLimit then ⟨size, false⟩
  else if intervals.all fun interval => interval.2 < 128 then
    ⟨(size.state 0).state (8 * intervals.length), false⟩
  else
    let rows := intervals.flatMap fun (first, last) => Text.byteRows first last
    match direction with
    | .forward => ⟨(rowsForward size.states 4 rows ⟨size.state 0, {}⟩).1.size, false⟩
    | .backward =>
        let target := size.states + 1
        let shared := rows.foldl (fun shared row => rowBackward target row shared)
          ⟨(size.state 0).state 0, {}⟩
        ⟨shared.size.ways rows.length, false⟩

/-! ## Literals -/

/-- The bytes of a literal in the order in which they are read. -/
def bytesOf (direction : Direction) (cs : List Char) : List UInt8 :=
  let bytes := cs.flatMap String.utf8EncodeChar
  match direction with
  | .forward => bytes
  | .backward => bytes.reverse

/-- The words between those that end here. -/
def wordRuns : List (List UInt8) → List (List (List UInt8))
  | [] => [[]]
  | [] :: rest => [] :: wordRuns rest
  | word :: rest =>
      match wordRuns rest with
      | [] => [[word]]
      | run :: runs => (word :: run) :: runs

/-- The states of a tree of words, in which words with the same beginning share it
unless one ends there between them. Where all words end there is no state. -/
def wordTree : Nat → List (List UInt8) → Size → Size
  | 0, _, size => size
  | depth + 1, words, size =>
      if words.all List.isEmpty then size
      else
        let words := if words.head? = some [] then [] :: words.dropWhile List.isEmpty else words
        let runs := wordRuns words
        let size := runs.foldl (fun size run =>
          let heads := (run.filterMap List.head?).eraseDups
          let size := heads.foldl (fun size head =>
            wordTree depth ((run.filter fun word => word.head? == some head).map fun word =>
              word.drop 1) size) size
          if heads.isEmpty then size
          else size.state (if heads.length = 1 then 0 else 8 * heads.length)) size
        let filled := runs.filter fun run => !run.isEmpty
        size.state (4 * (filled.length + (runs.length - 1)))

/-- A choice between literals. -/
def wordsPart (words : List (List UInt8)) (size : Size) : Part :=
  let depth := words.foldl (fun n word => max n word.length) 0
  ⟨wordTree (depth + 1) words (size.state 0), false⟩

/-- The characters of an outline that is a literal. -/
def Outline.literal? : Outline → Option (List Char)
  | literal cs => some cs
  | _ => none

/-! ## Outlines -/

/-- Whether an outline may match the empty text, as far as it can be told. -/
def Outline.mayBeEmpty (outline : Outline) : Bool :=
  match outline.leastLength with
  | some length => length == 0
  | none => true

namespace Outline

mutual

/-- The part that an outline stands for. Captures are kept only forward. -/
def part (direction : Direction) : Outline → Size → Part
  | empty, size => ⟨size.state 0, false⟩
  | assertion _, size => ⟨size.state 0, false⟩
  | literal cs, size =>
      let length := (bytesOf direction cs).length
      ⟨⟨size.states + length, size.bytes + 32 * length⟩, false⟩
  | oneOf intervals, size => classPart direction intervals size
  | repetition sub least most _, size =>
      repetitionPart (sub.part direction) sub.mayBeEmpty least most size
  | capture sub, size =>
      match direction with
      | .forward => ⟨(sub.part direction (size.state 0)).linked.state 0, false⟩
      | .backward => sub.part direction size
  | sequence parts, size => sequencePart direction parts size
  | choice branches, size =>
      match branches.mapM literal? with
      | some literals => wordsPart (literals.map (bytesOf direction)) size
      | none => choicePart direction branches size

/-- Parts one after another. -/
def sequencePart (direction : Direction) : List Outline → Size → Part
  | [], size => ⟨size.state 0, false⟩
  | [sub], size => sub.part direction size
  | sub :: rest, size =>
      match direction with
      | .forward => sequencePart direction rest (sub.part direction size).linked
      | .backward => sub.part direction (sequencePart direction rest size).linked

/-- Branches: the fork and the state behind them come after the first two. -/
def choicePart (direction : Direction) : List Outline → Size → Part
  | [], size => ⟨size.state 0, false⟩
  | [sub], size => sub.part direction size
  | first :: second :: rest, size =>
      let size := (first.part direction size).linked
      let size := (second.part direction size).linked
      ⟨branchSizes direction rest ((size.state 8).state 0), false⟩

/-- Further branches. -/
def branchSizes (direction : Direction) : List Outline → Size → Size
  | [], size => size
  | sub :: rest, size => branchSizes direction rest ((sub.part direction size).linked.ways 1)

end

mutual

/-- Whether every match begins at the start of the text, or backward at its end, as
far as assertions at the edge tell. -/
def isAnchored (direction : Direction) : Outline → Bool
  | assertion a =>
      match direction with
      | .forward => a == .textStart
      | .backward => a == .textEnd
  | repetition sub least _ _ => least != 0 && sub.isAnchored direction
  | capture sub => sub.isAnchored direction
  | sequence parts => isAnchoredSequence direction parts
  | choice branches => areAnchored direction branches
  | _ => false

/-- Whether some part of a sequence is anchored, up to the first that takes
characters. -/
def isAnchoredSequence (direction : Direction) : List Outline → Bool
  | [] => false
  | sub :: rest =>
      match direction with
      | .forward =>
          sub.isAnchored direction || sub.isWidthless && isAnchoredSequence direction rest
      | .backward =>
          isAnchoredSequence direction rest || areWidthless rest && sub.isAnchored direction

/-- Whether all outlines of a list are anchored. -/
def areAnchored (direction : Direction) : List Outline → Bool
  | [] => true
  | sub :: rest => sub.isAnchored direction && areAnchored direction rest

end

/-- What stands before the pattern: one state if it is anchored, and otherwise the
loop over all bytes before a match. -/
def beginning (direction : Direction) (outline : Outline) : Size :=
  if outline.isAnchored direction then Size.state ⟨0, 0⟩ 0
  else (((Size.state ⟨0, 0⟩ 4).state 0).state 8).ways 1

/-- The size of the automaton in bytes; past the limit, at least that it is past. -/
def footprint (direction : Direction) (outline : Outline) : Nat :=
  (((capture outline).part direction (outline.beginning direction)).linked.state 0).bytes

/-- Whether one of the automata is larger than the limit. -/
def isOversized (outline : Outline) : Bool :=
  sizeLimit < outline.footprint .backward || sizeLimit < outline.footprint .forward

end Outline

end Pattern

end LiveDocuments
