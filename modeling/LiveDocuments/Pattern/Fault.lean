/-!
# Unusable patterns

A text is no usable pattern if it is not written like one, or if the automaton of
the pattern would take more memory than is granted.
-/

namespace LiveDocuments

namespace Pattern

/-- The greatest size of an automaton in bytes. -/
def sizeLimit : Nat := 10485760

/-- Why a text is no usable pattern. -/
inductive Fault where
  | malformed
  | oversized
deriving DecidableEq

/-- The wording of a fault. -/
def Fault.message : Fault → String
  | malformed => "regex parse error:"
  | oversized => "Compiled regex exceeds size limit of " ++ toString sizeLimit ++ " bytes."

end Pattern

end LiveDocuments
