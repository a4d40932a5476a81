import Activation.Candidate.Id

/-!
# Ordering errors

Both errors are fatal: an ordering that cannot meet its constraints has no partial result.
-/

namespace Activation

/-- Why no activation order exists. -/
inductive OrderingError where
  /-- Two candidates require each other to come first: the one being placed, and the one it waits
  for, which is itself waiting to be placed. A candidate that waits for itself is named twice. -/
  | cycle (a b : CandidateId)
  /-- Retired candidates redirect to each other in a loop; its first id is repeated at the end. -/
  | replacementCycle (chain : List CandidateId)
deriving DecidableEq, Repr

namespace OrderingError

def message : OrderingError → String
  | cycle a b => s!"Ordering cycle detected between '{a}' and '{b}'"
  | replacementCycle chain =>
    "Deprecated replacement cycle detected: " ++ CandidateId.join " -> " chain

end OrderingError

end Activation
