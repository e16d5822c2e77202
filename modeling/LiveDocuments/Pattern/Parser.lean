import LiveDocuments.Pattern.Escape
import LiveDocuments.Pattern.Intervals
import LiveDocuments.Pattern.Tree
import LiveDocuments.Powers
import LiveDocuments.Text.Digits

/-!
# Reading patterns

The written form of patterns: literals, escapes, `.`, classes in brackets,
groups, alternatives, repetitions and anchors. Flags say how what follows is
read: regardless of case, with anchors at every line, with `.` for line breaks
too, with carriage returns in line breaks, or with white space left out. They hold
to the end of the group in which they are set.

`Tree.parse?` answers nothing for a text that is no pattern. Reading goes once
through the text. Every step takes at least one character, so the length of the
text is fuel enough; groups and nested classes are the only places where one
reading function calls itself, and as the depth of a tree is limited, no more of
them are opened in each other than the limit leaves room for.
-/

namespace LiveDocuments

namespace Pattern

/-- How a pattern is read. -/
structure Flags where
  caseless : Bool
  multiLine : Bool
  dotAll : Bool
  returns : Bool
  spaced : Bool
deriving DecidableEq

/-- Where white space is left out, the text behind it and behind comments. -/
def skipLayout (flags : Flags) : List Char → List Char
  | [] => []
  | c :: rest =>
      if !flags.spaced then c :: rest
      else if isSpace c then skipLayout flags rest
      else if c = '#' then skipComment flags rest
      else c :: rest
where
  /-- The text behind the line, and behind the white space that follows. -/
  skipComment (flags : Flags) : List Char → List Char
    | [] => []
    | c :: rest => if c = '\n' then skipLayout flags rest else skipComment flags rest

/-! ## Escapes -/

/-- What an escape stands for. -/
inductive Escaped where
  | literal (c : Char)
  | set (s : CharSet)
  | assertion (a : Assertion)
deriving DecidableEq

/-- The value of a hexadecimal digit. -/
def hexValue? (c : Char) : Option Nat :=
  if '0' ≤ c ∧ c ≤ '9' then some (c.toNat - 48)
  else if 'a' ≤ c ∧ c ≤ 'f' then some (c.toNat - 87)
  else if 'A' ≤ c ∧ c ≤ 'F' then some (c.toNat - 55)
  else none

/-- The number named by hexadecimal digits, at least one of them. -/
def hexNumber? (digits : List Char) : Option Nat :=
  if digits.isEmpty then none
  else digits.foldl (fun n c => n.bind fun n => (hexValue? c).map (n * 16 + ·)) (some 0)

/-- The character with the code point, unless there is none. -/
def charOfPoint? (point : Nat) : Option Char :=
  if h : point.isValidChar then some (Char.ofNatAux point h) else none

/-- A character by its code point: in braces, or with a fixed count of digits. -/
def readHex (count : Nat) : List Char → Option (Char × List Char)
  | '\x7b' :: rest =>
      let digits := rest.takeWhile (· != '\x7d')
      match rest.dropWhile (· != '\x7d') with
      | [] => none
      | _ :: after => ((hexNumber? digits).bind charOfPoint?).map (·, after)
  | cs =>
      if cs.length < count then none
      else ((hexNumber? (cs.take count)).bind charOfPoint?).map (·, cs.drop count)

/-- The assertion named in braces behind `\b`. -/
def wordAssertion? (name : String) : Option Assertion :=
  if name = "start" then some .wordStart
  else if name = "end" then some .wordEnd
  else if name = "start-half" then some .wordStartHalf
  else if name = "end-half" then some .wordEndHalf
  else none

/-- Whether it occurs in the names of word assertions. -/
def isAssertionLetter (c : Char) : Bool := c.isAlpha || c == '-'

/-- A word boundary, with a name in braces if letters follow the brace; a brace
with anything else behind it is left for a repetition. -/
def readBoundary : List Char → Option (Escaped × List Char)
  | '\x7b' :: c :: rest =>
      if isAssertionLetter c then
        let name := (c :: rest).takeWhile isAssertionLetter
        match (c :: rest).dropWhile isAssertionLetter with
        | '\x7d' :: after => (wordAssertion? (String.ofList name)).map (.assertion ·, after)
        | _ => none
      else some (.assertion .wordBoundary, '\x7b' :: c :: rest)
  | ['\x7b'] => none
  | cs => some (.assertion .wordBoundary, cs)

/-- An escape after its backslash. A character that means something is itself,
and so is any other ASCII character that is neither letter nor digit. -/
def readEscape : List Char → Option (Escaped × List Char)
  | [] => none
  | c :: rest =>
      if isMeta c then some (.literal c, rest)
      else if c = 'd' then some (.set .digit, rest)
      else if c = 'D' then some (.set (.complement .digit), rest)
      else if c = 's' then some (.set .space, rest)
      else if c = 'S' then some (.set (.complement .space), rest)
      else if c = 'w' then some (.set .word, rest)
      else if c = 'W' then some (.set (.complement .word), rest)
      else if c = 'x' then (readHex 2 rest).map fun (c, rest) => (.literal c, rest)
      else if c = 'u' then (readHex 4 rest).map fun (c, rest) => (.literal c, rest)
      else if c = 'U' then (readHex 8 rest).map fun (c, rest) => (.literal c, rest)
      else if c = 'a' then some (.literal (Char.ofNat 7), rest)
      else if c = 'f' then some (.literal (Char.ofNat 12), rest)
      else if c = 't' then some (.literal '\t', rest)
      else if c = 'n' then some (.literal '\n', rest)
      else if c = 'r' then some (.literal '\r', rest)
      else if c = 'v' then some (.literal (Char.ofNat 11), rest)
      else if c = 'A' then some (.assertion .textStart, rest)
      else if c = 'z' then some (.assertion .textEnd, rest)
      else if c = 'b' then readBoundary rest
      else if c = 'B' then some (.assertion .notWordBoundary, rest)
      else if c = '<' then some (.assertion .wordStart, rest)
      else if c = '>' then some (.assertion .wordEnd, rest)
      else if c.toNat < 128 ∧ !c.isAlphanum then some (.literal c, rest)
      else none

/-! ## Sets of characters -/

/-- The set with all case variants, where case does not count. -/
def caseSet (flags : Flags) (s : CharSet) : CharSet :=
  if flags.caseless then .regardlessOfCase s else s

/-- The class of ASCII characters with the name. -/
def asciiClass? (name : String) : Option CharSet :=
  let lower : CharSet := .interval 'a' 'z'
  let upper : CharSet := .interval 'A' 'Z'
  let digits : CharSet := .interval '0' '9'
  let alpha : CharSet := .union upper lower
  if name = "alnum" then some (.union digits alpha)
  else if name = "alpha" then some alpha
  else if name = "ascii" then some (.interval (Char.ofNat 0) (Char.ofNat 127))
  else if name = "blank" then some (.union (.single '\t') (.single ' '))
  else if name = "cntrl" then
    some (.union (.interval (Char.ofNat 0) (Char.ofNat 31)) (.single (Char.ofNat 127)))
  else if name = "digit" then some digits
  else if name = "graph" then some (.interval '!' '~')
  else if name = "lower" then some lower
  else if name = "print" then some (.interval ' ' '~')
  else if name = "punct" then
    some (.union (.union (.interval '!' '/') (.interval ':' '@'))
      (.union (.interval '[' (Char.ofNat 96)) (.interval '\x7b' '~')))
  else if name = "space" then
    some (.union (.interval '\t' '\r') (.single ' '))
  else if name = "upper" then some upper
  else if name = "word" then some (.union (.union digits alpha) (.single '_'))
  else if name = "xdigit" then
    some (.union digits (.union (.interval 'A' 'F') (.interval 'a' 'f')))
  else none

/-- A named class such as `[:alpha:]` or `[:^alpha:]`, after its bracket. What
does not read as one is no error but an ordinary bracket. The case variants are
taken before the complement. -/
def readAsciiClass? (flags : Flags) : List Char → Option (CharSet × List Char)
  | ':' :: '^' :: rest => named rest fun s => .complement (caseSet flags s)
  | ':' :: rest => named rest fun s => caseSet flags s
  | _ => none
where
  /-- The class with the name up to `:]`. -/
  named (cs : List Char) (wrap : CharSet → CharSet) : Option (CharSet × List Char) :=
    match cs.dropWhile (· != ':') with
    | ':' :: ']' :: rest =>
        (asciiClass? (String.ofList (cs.takeWhile (· != ':')))).map fun s => (wrap s, rest)
    | _ => none

/-- One item of a class: a literal, or what an escape stands for. -/
def readClassItem : List Char → Option (Escaped × List Char)
  | [] => none
  | '\\' :: rest => readEscape rest
  | c :: rest => some (.literal c, rest)

/-- Whether a hyphen at the head joins the ends of an interval: it does not
before a closing bracket or another hyphen. -/
def joinsInterval (flags : Flags) : List Char → Bool
  | '-' :: rest =>
      match skipLayout flags rest with
      | ']' :: _ => false
      | '-' :: _ => false
      | _ => true
  | _ => false

/-- An item of a class, or an interval between two literals. -/
def readInterval (flags : Flags) (cs : List Char) : Option (CharSet × List Char) :=
  match readClassItem cs with
  | none => none
  | some (first, rest) =>
      let rest := skipLayout flags rest
      if joinsInterval flags rest then
        match first, readClassItem (skipLayout flags (rest.drop 1)) with
        | .literal low, some (.literal high, rest) =>
            if low ≤ high then some (.interval low high, rest) else none
        | _, _ => none
      else
        match first with
        | .literal c => some (.single c, rest)
        | .set s => some (s, rest)
        | .assertion _ => none

/-- The operations between the parts of a class. -/
inductive SetOperation where
  | intersection
  | difference
  | symmetricDifference
deriving DecidableEq

/-- What has been read of a class since its head or the last operation: the union
of the items, how many there are, and the greatest depth among them. -/
structure ClassPart where
  set : CharSet
  items : Nat
  depth : Nat
deriving DecidableEq

namespace ClassPart

/-- Nothing read yet. -/
def nil : ClassPart := ⟨.none, 0, 0⟩

/-- One more item. -/
def add (part : ClassPart) (s : CharSet) (depth : Nat) : ClassPart :=
  ⟨if part.items = 0 then s else .union s part.set, part.items + 1, max part.depth depth⟩

/-- The depth of the part: a union of items is one deeper than they are. -/
def height (part : ClassPart) : Nat := if part.items ≤ 1 then part.depth else part.depth + 1

end ClassPart

/-- An operand with its depth and the operation behind it. -/
structure ClassOperand where
  set : CharSet
  depth : Nat
  operation : SetOperation
deriving DecidableEq

/-- The part read so far put together with the operand and operation before it. -/
def combine (flags : Flags) (left : Option ClassOperand) (part : ClassPart) : CharSet × Nat :=
  match left with
  | none => (part.set, part.height)
  | some left =>
      let s := caseSet flags left.set
      let t := caseSet flags part.set
      let both := match left.operation with
        | .intersection => .intersection s t
        | .difference => .difference s t
        | .symmetricDifference => .symmetricDifference s t
      (both, max left.depth part.height + 1)

/-- The operand that ends before an operation. -/
def operand (flags : Flags) (left : Option ClassOperand) (part : ClassPart)
    (operation : SetOperation) : Option ClassOperand :=
  let (s, depth) := combine flags left part
  some ⟨s, depth, operation⟩

/-- Hyphens at the head of a class, which are literal. -/
def readHyphens (flags : Flags) (part : ClassPart) : List Char → ClassPart × List Char
  | [] => (part, [])
  | c :: rest =>
      if c = '-' then readHyphens flags (part.add (.single '-') 0) rest
      else if flags.spaced ∧ isSpace c then readHyphens flags part rest
      else (part, c :: rest)

/-- The head of a class after its bracket: whether it is a complement, the
literals that may only stand there, and the text behind them. -/
def openClass (flags : Flags) (cs : List Char) : Bool × ClassPart × List Char :=
  let cs := skipLayout flags cs
  let negated := cs.head? == some '^'
  let cs := if negated then skipLayout flags (cs.drop 1) else cs
  match readHyphens flags .nil cs with
  | (part, ']' :: rest) =>
      if part.items = 0 then (negated, part.add (.single ']') 0, rest)
      else (negated, part, ']' :: rest)
  | (part, rest) => (negated, part, rest)

/-- The set of a class that has been read to its end. -/
def closeClass (flags : Flags) (negated : Bool) (s : CharSet) : CharSet :=
  if negated then .complement (caseSet flags s) else caseSet flags s

/-- The rest of a class up to its closing bracket, after an operand and operation
and the items read since, with the depth of what is inside. -/
def readClass (flags : Flags) : Nat → Nat → Option ClassOperand → ClassPart → List Char →
    Option (CharSet × Nat × List Char)
  | 0, _, _, _, _ => none
  | fuel + 1, room, left, part, cs =>
      match skipLayout flags cs with
      | [] => none
      | ']' :: rest =>
          let (s, depth) := combine flags left part
          some (s, depth, rest)
      | '[' :: rest =>
          match readAsciiClass? flags rest with
          | some (s, rest) => readClass flags fuel room left (part.add s 0) rest
          | none =>
              if room = 0 then none
              else
                let (negated, first, rest) := openClass flags rest
                match readClass flags fuel (room - 1) none first rest with
                | some (s, depth, rest) =>
                    readClass flags fuel room left
                      (part.add (closeClass flags negated s) (depth + 1)) rest
                | none => none
      | '&' :: '&' :: rest =>
          readClass flags fuel room (operand flags left part .intersection) .nil rest
      | '-' :: '-' :: rest =>
          readClass flags fuel room (operand flags left part .difference) .nil rest
      | '~' :: '~' :: rest =>
          readClass flags fuel room (operand flags left part .symmetricDifference) .nil rest
      | cs =>
          match readInterval flags cs with
          | some (s, rest) => readClass flags fuel room left (part.add s 0) rest
          | none => none

/-! ## Repetitions -/

/-- Whether a repetition is greedy, and the text behind the mark of a lazy one. -/
def readGreed : List Char → Bool × List Char
  | '?' :: rest => (false, rest)
  | cs => (true, cs)

/-- Decimal digits with white space around them. -/
def readCount (cs : List Char) : Option (Nat × List Char) :=
  let cs := cs.dropWhile isSpace
  let digits := cs.takeWhile Char.isDigit
  let n := Text.natOfDigits digits
  if digits.isEmpty ∨ twoTo 32 ≤ n then none
  else some (n, (cs.dropWhile Char.isDigit).dropWhile isSpace)

/-- The bounds of a counted repetition, after its opening brace. -/
def readBounds (flags : Flags) (cs : List Char) : Option (Nat × Option Nat × List Char) :=
  match readCount cs with
  | none => none
  | some (least, '\x7d' :: rest) => some (least, some least, rest)
  | some (least, ',' :: rest) =>
      match skipLayout flags rest with
      | '\x7d' :: rest => some (least, none, rest)
      | rest =>
          match readCount rest with
          | some (most, '\x7d' :: rest) =>
              if least ≤ most then some (least, some most, rest) else none
          | _ => none
  | some _ => none

/-! ## Groups -/

/-- The flags set or cleared by the letters before a colon or closing
parenthesis: at least the flags so far, whether any letter was there, and the
text from that mark on. A letter may occur only once, the hyphen that begins the
cleared ones too, and it must not come last. -/
def readFlags (flags : Flags) (on : Bool) (seen : List Char) :
    List Char → Option (Flags × List Char × List Char)
  | [] => none
  | c :: rest =>
      if c = ':' ∨ c = ')' then
        if seen.head? = some '-' then none else some (flags, seen, c :: rest)
      else if c ∈ seen then none
      else if c = '-' then readFlags flags false (c :: seen) rest
      else if c = 'i' then readFlags { flags with caseless := on } on (c :: seen) rest
      else if c = 'm' then readFlags { flags with multiLine := on } on (c :: seen) rest
      else if c = 's' then readFlags { flags with dotAll := on } on (c :: seen) rest
      else if c = 'x' then readFlags { flags with spaced := on } on (c :: seen) rest
      else if c = 'R' then readFlags { flags with returns := on } on (c :: seen) rest
      else if c = 'U' ∨ c = 'u' then readFlags flags on (c :: seen) rest
      else none

/-- Whether a character may stand in the name of a group. -/
def isNameChar (first : Bool) (c : Char) : Bool :=
  let letter := c == '_' || (isWordChar c && !isDigit c)
  if first then letter else letter || isDigit c || c == '.' || c == '[' || c == ']'

/-- The name of a group up to its closing angle, which must be new. -/
def readName (names : List (List Char)) (cs : List Char) : Option (List Char × List Char) :=
  let name := cs.takeWhile (· != '>')
  match cs.dropWhile (· != '>'), name with
  | _ :: rest, c :: others =>
      if isNameChar true c ∧ others.all (isNameChar false) ∧ name ∉ names then some (name, rest)
      else none
  | _, _ => none

/-- What an opening parenthesis begins. -/
inductive GroupHead where
  | settings (flags : Flags)
  | group (captures : Bool) (flags : Flags) (names : List (List Char))

/-- The head of a group after its parenthesis. Looking around is not possible. -/
def readGroupHead (flags : Flags) (names : List (List Char)) (cs : List Char) :
    Option (GroupHead × List Char) :=
  match skipLayout flags cs with
  | '?' :: '=' :: _ => none
  | '?' :: '!' :: _ => none
  | '?' :: '<' :: '=' :: _ => none
  | '?' :: '<' :: '!' :: _ => none
  | '?' :: 'P' :: '<' :: rest =>
      (readName names rest).map fun (name, rest) => (.group true flags (name :: names), rest)
  | '?' :: '<' :: rest =>
      (readName names rest).map fun (name, rest) => (.group true flags (name :: names), rest)
  | '?' :: rest =>
      match readFlags flags true [] rest with
      | some (inner, _, ':' :: rest) => some (.group false inner names, rest)
      | some (after, seen, ')' :: rest) =>
          if seen.isEmpty then none else some (.settings after, rest)
      | _ => none
  | cs => some (.group true flags names, cs)

/-! ## Patterns -/

/-- The tree an escape stands for. -/
def Escaped.tree (flags : Flags) : Escaped → Tree
  | literal c => .literal c flags.caseless
  | set s => .oneOf s 0
  | assertion a => .assertion a

/-- What `.` stands for. -/
def dotSet (flags : Flags) : CharSet :=
  if flags.dotAll then .complement .none
  else if flags.returns then .complement (.union (.single '\r') (.single '\n'))
  else .complement (.single '\n')

/-- What `^` asserts. -/
def startAssertion (flags : Flags) : Assertion :=
  if !flags.multiLine then .textStart
  else if flags.returns then .lineStartOrReturn
  else .lineStart

/-- What `$` asserts. -/
def endAssertion (flags : Flags) : Assertion :=
  if !flags.multiLine then .textEnd
  else if flags.returns then .lineEndOrReturn
  else .lineEnd

/-- A literal, an escape, `.` or an anchor. -/
def readAtom (flags : Flags) : List Char → Option (Tree × List Char)
  | [] => none
  | '\\' :: rest => (readEscape rest).map fun (e, rest) => (e.tree flags, rest)
  | '.' :: rest => some (.oneOf (dotSet flags) 0, rest)
  | '^' :: rest => some (.assertion (startAssertion flags), rest)
  | '$' :: rest => some (.assertion (endAssertion flags), rest)
  | c :: rest => some (.literal c flags.caseless, rest)

/-- The parts with the latest one repeated: nothing if there is none, if it is a
change of flags, or if it is too deep to be repeated. -/
def repeatLast (least : Nat) (most : Option Nat) (greedy : Bool) : List Tree → Option (List Tree)
  | [] => none
  | .change :: _ => none
  | part :: parts =>
      if part.depth < depthLimit then some (part.repeatedBetween least most greedy :: parts)
      else none

/-- The tree of branches and parts, the latest first. -/
def close (branches parts : List Tree) : Tree :=
  .ofBranches (.ofParts parts.reverse :: branches).reverse

/-- The tree up to a closing parenthesis or the end of the text, with the group
names used so far. Branches and parts come latest first; `room` is how many more
groups may be opened in each other. -/
def readTree : Nat → Nat → Flags → List (List Char) → List Tree → List Tree → List Char →
    Option (Tree × List (List Char) × List Char)
  | 0, _, _, _, _, _, _ => none
  | fuel + 1, room, flags, names, branches, parts, cs =>
      match skipLayout flags cs with
      | [] => some (close branches parts, names, [])
      | ')' :: rest => some (close branches parts, names, ')' :: rest)
      | '|' :: rest =>
          readTree fuel room flags names (.ofParts parts.reverse :: branches) [] rest
      | '(' :: rest =>
          match readGroupHead flags names rest with
          | none => none
          | some (.settings flags, rest) =>
              readTree fuel room flags names branches (.change :: parts) rest
          | some (.group captures inner names, rest) =>
              if room = 0 then none
              else
                match readTree fuel (room - 1) inner names [] [] rest with
                | some (sub, names, ')' :: rest) =>
                    readTree fuel room flags names branches (.group captures sub :: parts) rest
                | _ => none
      | '[' :: rest =>
          let (negated, first, rest) := openClass flags rest
          match readClass flags fuel room none first rest with
          | none => none
          | some (s, depth, rest) =>
              readTree fuel room flags names branches
                (.oneOf (closeClass flags negated s) (depth + 1) :: parts) rest
      | '?' :: rest =>
          let (greedy, rest) := readGreed rest
          match repeatLast 0 (some 1) greedy parts with
          | none => none
          | some parts => readTree fuel room flags names branches parts rest
      | '*' :: rest =>
          let (greedy, rest) := readGreed rest
          match repeatLast 0 none greedy parts with
          | none => none
          | some parts => readTree fuel room flags names branches parts rest
      | '+' :: rest =>
          let (greedy, rest) := readGreed rest
          match repeatLast 1 none greedy parts with
          | none => none
          | some parts => readTree fuel room flags names branches parts rest
      | '\x7b' :: rest =>
          match readBounds flags rest with
          | none => none
          | some (least, most, rest) =>
              let (greedy, rest) := readGreed (skipLayout flags rest)
              match repeatLast least most greedy parts with
              | none => none
              | some parts => readTree fuel room flags names branches parts rest
      | cs =>
          match readAtom flags cs with
          | none => none
          | some (part, rest) => readTree fuel room flags names branches (part :: parts) rest

/-- The tree of the pattern written in a text. -/
def Tree.parse? (caseless multiLine : Bool) (text : String) : Option Tree :=
  let cs := text.toList
  match readTree (cs.length + 1) depthLimit ⟨caseless, multiLine, false, false, false⟩ [] [] []
      cs with
  | some (tree, _, []) => if tree.depth ≤ depthLimit then some tree else none
  | _ => none

end Pattern

end LiveDocuments
