import LiveDocuments.Pattern.Footprint
import LiveDocuments.Pattern.Parser

/-!
# Patterns from text

A text becomes a pattern if it can be read and if its automata keep within the
limit. What it means does not depend on either limit.
-/

namespace LiveDocuments

namespace Pattern

/-- The pattern written in a text. -/
def compile (caseless multiLine : Bool) (text : String) : Except Fault Pattern :=
  match Tree.parse? caseless multiLine text with
  | none => .error .malformed
  | some tree => if tree.outline.isOversized then .error .oversized else .ok tree.pattern

end Pattern

end LiveDocuments
