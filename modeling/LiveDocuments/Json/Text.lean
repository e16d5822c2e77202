import LiveDocuments.Json.Basic

/-!
# Compact JSON text

The text of a value has no spaces. Strings are escaped only where JSON demands
it: the quote, the backslash and the control characters, of which five have a
letter of their own and the others are written with four hexadecimal digits.
All other characters stand as they are.
-/

namespace LiveDocuments

namespace Json

/-- A hexadecimal digit in lower case. -/
def hexDigit (n : Nat) : Char := Nat.digitChar n

/-- A character inside a JSON string. -/
def escapeChar (c : Char) : List Char :=
  if c = '"' then ['\\', '"']
  else if c = '\\' then ['\\', '\\']
  else if c = '\n' then ['\\', 'n']
  else if c = '\t' then ['\\', 't']
  else if c = '\r' then ['\\', 'r']
  else if c.toNat = 8 then ['\\', 'b']
  else if c.toNat = 12 then ['\\', 'f']
  else if c.toNat < 32 then
    ['\\', 'u', '0', '0', hexDigit (c.toNat / 16), hexDigit (c.toNat % 16)]
  else [c]

/-- A string in quotes. -/
def quoted (s : String) : List Char :=
  '"' :: s.toList.flatMap escapeChar ++ ['"']

mutual

/-- The characters of the compact text. -/
def chars : Json → List Char
  | null => "null".toList
  | bool true => "true".toList
  | bool false => "false".toList
  | number n => n.text.toList
  | string s => quoted s
  | array items => '[' :: charsOfItems items ++ [']']
  | object fields => '{' :: charsOfFields fields ++ ['}']

/-- Items separated by commas. -/
def charsOfItems : List Json → List Char
  | [] => []
  | [x] => chars x
  | x :: rest => chars x ++ ',' :: charsOfItems rest

/-- Fields separated by commas, each key before its value. -/
def charsOfFields : List (String × Json) → List Char
  | [] => []
  | [(k, v)] => quoted k ++ ':' :: chars v
  | (k, v) :: rest => quoted k ++ ':' :: chars v ++ ',' :: charsOfFields rest

end

/-- The compact text of a value. -/
def text (value : Json) : String := String.ofList value.chars

end Json

end LiveDocuments
