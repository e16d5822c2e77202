import LiveDocuments.Json.Concrete
import LiveDocuments.Text.Digits

/-!
# Reading JSON text

A reader of the JSON grammar over characters. Each reading function answers
what it has read together with the rest of the text, or nothing if the text
does not follow the grammar: a raw control character in a string, a leading
zero, a missing separator, or anything but white space after the value.

Values nest, so the reading functions for values, items and fields call each
other; the number of calls is bounded by the length of the text, and that bound
is the fuel.
-/

namespace LiveDocuments

namespace Json

namespace Concrete

/-- White space between the parts of a JSON text. -/
def isSpace (c : Char) : Bool := c == ' ' || c == '\t' || c == '\n' || c == '\r'

/-- The text after leading white space. -/
def skipSpace (cs : List Char) : List Char := cs.dropWhile isSpace

/-- The number named by a hexadecimal digit. -/
def hexValue? (c : Char) : Option Nat :=
  if '0' ≤ c ∧ c ≤ '9' then some (c.toNat - 48)
  else if 'a' ≤ c ∧ c ≤ 'f' then some (c.toNat - 87)
  else if 'A' ≤ c ∧ c ≤ 'F' then some (c.toNat - 55)
  else none

/-- The number named by four hexadecimal digits. -/
def hexQuad? (a b c d : Char) : Option Nat :=
  match hexValue? a, hexValue? b, hexValue? c, hexValue? d with
  | some a, some b, some c, some d => some (((a * 16 + b) * 16 + c) * 16 + d)
  | _, _, _, _ => none

/-- The character named by an escape letter. -/
def escapeLetter? (c : Char) : Option Nat :=
  if c = '"' ∨ c = '\\' ∨ c = '/' then some c.toNat
  else if c = 'b' then some 8
  else if c = 'f' then some 12
  else if c = 'n' then some 10
  else if c = 'r' then some 13
  else if c = 't' then some 9
  else none

/-- The code units of a string up to its closing quote, and the text behind it.
A unit is a whole character or, from an escape, possibly half a surrogate
pair. -/
def readUnits : List Char → Option (List Nat × List Char)
  | [] => none
  | '"' :: rest => some ([], rest)
  | '\\' :: 'u' :: a :: b :: c :: d :: rest =>
      match hexQuad? a b c d, readUnits rest with
      | some unit, some (units, after) => some (unit :: units, after)
      | _, _ => none
  | '\\' :: letter :: rest =>
      match escapeLetter? letter, readUnits rest with
      | some unit, some (units, after) => some (unit :: units, after)
      | _, _ => none
  | c :: rest =>
      if c.toNat < 32 then none
      else
        match readUnits rest with
        | some (units, after) => some (c.toNat :: units, after)
        | none => none

/-- The characters denoted by code units: surrogates count only in pairs. -/
def charsOfUnits? : List Nat → Option (List Char)
  | [] => some []
  | [unit] => if 0xD800 ≤ unit ∧ unit < 0xE000 then none else some [Char.ofNat unit]
  | high :: low :: rest =>
      if 0xD800 ≤ high ∧ high < 0xDC00 then
        if 0xDC00 ≤ low ∧ low < 0xE000 then
          (charsOfUnits? rest).map
            (Char.ofNat (0x10000 + (high - 0xD800) * 0x400 + (low - 0xDC00)) :: ·)
        else none
      else if 0xDC00 ≤ high ∧ high < 0xE000 then none
      else (charsOfUnits? (low :: rest)).map (Char.ofNat high :: ·)

/-- A string after its opening quote. -/
def readString (cs : List Char) : Option (Option String × List Char) :=
  (readUnits cs).map fun (units, rest) => ((charsOfUnits? units).map String.ofList, rest)

/-- The digits after a decimal point, at least one; none without a point. -/
def readFraction : List Char → Option (List Char × List Char)
  | '.' :: cs =>
      let digits := cs.takeWhile Char.isDigit
      if digits.isEmpty then none else some (digits, cs.dropWhile Char.isDigit)
  | cs => some ([], cs)

/-- The digits of an exponent after its mark and sign. -/
def readExponentDigits (cs : List Char) : Option (Nat × List Char) :=
  let digits := cs.takeWhile Char.isDigit
  if digits.isEmpty then none else some (Text.natOfDigits digits, cs.dropWhile Char.isDigit)

/-- An exponent with its mark, or none where there is no mark. -/
def readExponent : List Char → Option (Option Int × List Char)
  | [] => some (none, [])
  | mark :: cs =>
      if mark = 'e' ∨ mark = 'E' then
        match cs with
        | '-' :: cs => (readExponentDigits cs).map fun (n, rest) => (some (-n), rest)
        | '+' :: cs => (readExponentDigits cs).map fun (n, rest) => (some n, rest)
        | cs => (readExponentDigits cs).map fun (n, rest) => (some n, rest)
      else some (none, mark :: cs)

/-- The integer with the given sign and magnitude, as a double where it has no
place among the integers; a negative zero is a double. -/
def integerNumber? (negative : Bool) (n : Nat) : Option Number :=
  if negative then
    if n = 0 ∨ twoTo 63 < n then (Binary64.ofDecimal? true n 0).map .double
    else some (.integer (-n))
  else if n < twoTo 64 then some (.integer n)
  else (Binary64.ofDecimal? false n 0).map .double

/-- A number after its sign. -/
def readUnsigned (negative : Bool) (cs : List Char) : Option (Option Number × List Char) :=
  let whole := cs.takeWhile Char.isDigit
  if whole.isEmpty || (whole.head? == some '0' && 1 < whole.length) then none
  else
    match readFraction (cs.dropWhile Char.isDigit) with
    | none => none
    | some (fraction, cs) =>
        match readExponent cs with
        | none => none
        | some (exponent, rest) =>
            if fraction.isEmpty && exponent.isNone then
              some (integerNumber? negative (Text.natOfDigits whole), rest)
            else
              let value := Binary64.ofDecimal? negative (Text.natOfDigits (whole ++ fraction))
                (exponent.getD 0 - fraction.length)
              some (value.map .double, rest)

/-- A number with its sign. -/
def readNumber : List Char → Option (Option Number × List Char)
  | '-' :: cs => readUnsigned true cs
  | cs => readUnsigned false cs

mutual

/-- A value at the head of the text. -/
def readValue : Nat → List Char → Option (Concrete × List Char)
  | 0, _ => none
  | fuel + 1, cs =>
      match skipSpace cs with
      | 'n' :: 'u' :: 'l' :: 'l' :: rest => some (null, rest)
      | 't' :: 'r' :: 'u' :: 'e' :: rest => some (bool true, rest)
      | 'f' :: 'a' :: 'l' :: 's' :: 'e' :: rest => some (bool false, rest)
      | '"' :: rest => (readString rest).map fun (s, rest) => (string s, rest)
      | '[' :: rest =>
          match skipSpace rest with
          | ']' :: rest => some (array [], rest)
          | rest => (readItems fuel rest).map fun (items, rest) => (array items, rest)
      | '{' :: rest =>
          match skipSpace rest with
          | '}' :: rest => some (object [], rest)
          | rest => (readFields fuel rest).map fun (fields, rest) => (object fields, rest)
      | cs => (readNumber cs).map fun (n, rest) => (number n, rest)

/-- The items of an array up to its closing bracket, at least one. -/
def readItems : Nat → List Char → Option (List Concrete × List Char)
  | 0, _ => none
  | fuel + 1, cs =>
      match readValue fuel cs with
      | none => none
      | some (x, rest) =>
          match skipSpace rest with
          | ']' :: rest => some ([x], rest)
          | ',' :: rest => (readItems fuel rest).map fun (xs, rest) => (x :: xs, rest)
          | _ => none

/-- The fields of an object up to its closing brace, at least one. -/
def readFields : Nat → List Char → Option (List (Option String × Concrete) × List Char)
  | 0, _ => none
  | fuel + 1, cs =>
      match skipSpace cs with
      | '"' :: rest =>
          match readString rest with
          | none => none
          | some (key, rest) =>
              match skipSpace rest with
              | ':' :: rest =>
                  match readValue fuel rest with
                  | none => none
                  | some (x, rest) =>
                      match skipSpace rest with
                      | '}' :: rest => some ([(key, x)], rest)
                      | ',' :: rest =>
                          (readFields fuel rest).map fun (fs, rest) => ((key, x) :: fs, rest)
                      | _ => none
              | _ => none
      | _ => none

end

/-- The one value that a text holds, with white space around it. -/
def ofText? (text : String) : Option Concrete :=
  let cs := text.toList
  match readValue (2 * cs.length + 2) cs with
  | some (x, rest) => if (skipSpace rest).isEmpty then some x else none
  | none => none

end Concrete

/-- The value that a text holds. -/
def ofText? (text : String) : Option Json :=
  (Concrete.ofText? text).bind (Concrete.toJson? Concrete.nestingLimit)

end Json

end LiveDocuments
