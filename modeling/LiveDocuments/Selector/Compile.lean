import LiveDocuments.Error
import LiveDocuments.Pattern.Compile
import LiveDocuments.Selector.Basic

/-!
# Reading selectors

A selector is written as an object. The keys `$and` and `$or` take lists of
selectors, any other key that begins with `$` is refused, and every other key is
a property path with a condition. A condition is an object of tests if it has a
key that begins with `$`, unless it is an object id; anything else is the value
asked for.

A selector is read as a whole before any document is looked at, and the first
fault in the order of the keys is the one reported.
-/

namespace LiveDocuments

/-- Whether a key is reserved for the selector language. -/
def isReservedKey (key : String) : Bool := key.toList.head? == some '$'

namespace Condition

/-- Whether the fields are tests rather than a value: object ids are values. -/
def isTests (fields : List (String × Json)) : Bool :=
  (Json.lookup DocumentId.objectIdKey fields).isNone &&
    (Json.keys fields).any isReservedKey

/-- The pattern test with the option letters `i` and `m`; others mean nothing. -/
def patternTest (operand : Json) (options : String) : Except SelectorFault Test :=
  match operand with
  | .string source =>
      match Pattern.compile (options.toList.contains 'i') (options.toList.contains 'm') source with
      | .ok pattern => .ok (.matching pattern)
      | .error fault => .error (.unusablePattern fault)
  | _ => .error .patternNotText

/-- The test that a field means, none for the options of a pattern. -/
def testOf (options key : String) (operand : Json) : Except SelectorFault (Option Test) :=
  if key = "$eq" then .ok (some (.eq operand))
  else if key = "$ne" then .ok (some (.ne operand))
  else if key = "$gt" then .ok (some (.gt operand))
  else if key = "$gte" then .ok (some (.ge operand))
  else if key = "$lt" then .ok (some (.lt operand))
  else if key = "$lte" then .ok (some (.le operand))
  else if key = "$regex" then (patternTest operand options).map some
  else if key = "$options" then .ok none
  else .error (.unknownOperator key)

/-- The tests that the fields mean, in their order. -/
def testsOf (options : String) : List (String × Json) → Except SelectorFault (List Test)
  | [] => .ok []
  | (key, operand) :: rest =>
      match testOf options key operand with
      | .error fault => .error fault
      | .ok test =>
          match testsOf options rest with
          | .error fault => .error fault
          | .ok others => .ok (test.toList ++ others)

/-- The option letters given beside a pattern. -/
def optionsOf (fields : List (String × Json)) : String :=
  ((Json.lookup "$options" fields).bind Json.string?).getD ""

/-- The condition that a value means. -/
def compile : Json → Except SelectorFault Condition
  | .object fields =>
      if isTests fields then (testsOf (optionsOf fields) fields).map .tests
      else .ok (.equals (.object fields))
  | value => .ok (.equals value)

end Condition

namespace Selector

mutual

/-- The selector written in a value. -/
def compile : Json → Except SelectorFault Selector
  | .object fields => (compileFields fields).map .all
  | value => .error (.notAnObject value)

/-- The parts written in the fields, in their order. -/
def compileFields : List (String × Json) → Except SelectorFault (List Selector)
  | [] => .ok []
  | (key, condition) :: rest =>
      match compileField key condition with
      | .error fault => .error fault
      | .ok part =>
          match compileFields rest with
          | .error fault => .error fault
          | .ok parts => .ok (part :: parts)

/-- The part written in one field. -/
def compileField (key : String) : Json → Except SelectorFault Selector
  | .array items =>
      if key = "$and" then (compileItems items).map .all
      else if key = "$or" then (compileItems items).map .any
      else if isReservedKey key then .error (.unknownConnective key)
      else .ok (.field key (.equals (.array items)))
  | condition =>
      if key = "$and" ∨ key = "$or" then .error (.notAList key)
      else if isReservedKey key then .error (.unknownConnective key)
      else (Condition.compile condition).map (.field key)

/-- The selectors of a list. -/
def compileItems : List Json → Except SelectorFault (List Selector)
  | [] => .ok []
  | item :: rest =>
      match compile item with
      | .error fault => .error fault
      | .ok part =>
          match compileItems rest with
          | .error fault => .error fault
          | .ok parts => .ok (part :: parts)

end

end Selector

end LiveDocuments
