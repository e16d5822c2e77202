/-!
# Decimal digits

The number written in a run of decimal digits, the leading one first.
-/

namespace LiveDocuments

namespace Text

/-- The number named by decimal digits; no digits name zero. -/
def natOfDigits (digits : List Char) : Nat :=
  digits.foldl (fun n c => n * 10 + (c.toNat - 48)) 0

@[simp] theorem natOfDigits_nil : natOfDigits [] = 0 := rfl

theorem natOfDigits_append_singleton (digits : List Char) (c : Char) :
    natOfDigits (digits ++ [c]) = natOfDigits digits * 10 + (c.toNat - 48) := by
  simp [natOfDigits]

/-- The number named by a text that consists of decimal digits, at least one. -/
def natOfDigits? (cs : List Char) : Option Nat :=
  if cs ≠ [] ∧ cs.all Char.isDigit then some (natOfDigits cs) else none

end Text

end LiveDocuments
