import Activation.Candidate.IdSet

/-!
# Candidate records

A record holds everything that ordering knows about one candidate: its order value, the ids it
wants to stand before and after, the ids that replace it when it is retired, and whether the
metadata source could resolve it at all.
-/

namespace Activation

/-- The order value of a candidate that must run as early as possible. -/
def highestPrecedence : Int32 := Int32.minValue

/-- The order value of a candidate that must run as late as possible. -/
def lowestPrecedence : Int32 := Int32.maxValue

/-- The order value of a candidate that declares none, or that cannot be resolved. -/
def defaultOrder : Int32 := 0

/-- The order value of an integer, if it is in range. -/
def orderValue? (value : Int) : Option Int32 :=
  if highestPrecedence.toInt ≤ value ∧ value ≤ lowestPrecedence.toInt then some (Int32.ofInt value)
  else none

/-- Everything that ordering knows about one candidate. Without further fields it is an available
candidate with the default order and no edges. -/
structure CandidateRecord where
  id : CandidateId
  order : Int32 := defaultOrder
  before : IdSet := ∅
  after : IdSet := ∅
  replacements : IdSet := ∅
  available : Bool := true
deriving DecidableEq

namespace CandidateRecord

/-- The record of an id that the metadata source could not resolve. -/
def unavailable (id : CandidateId) : CandidateRecord := { id, available := false }

def withOrder (r : CandidateRecord) (order : Int32) : CandidateRecord := { r with order }

/-- Adds ids that must come after the candidate. -/
def withBefore (r : CandidateRecord) (ids : List CandidateId) : CandidateRecord :=
  { r with before := r.before.insertAll ids }

/-- Adds ids that must come before the candidate. -/
def withAfter (r : CandidateRecord) (ids : List CandidateId) : CandidateRecord :=
  { r with after := r.after.insertAll ids }

/-- Adds ids that stand in for the candidate, which retires it. -/
def withReplacements (r : CandidateRecord) (ids : List CandidateId) : CandidateRecord :=
  { r with replacements := r.replacements.insertAll ids }

/-- Whether the candidate is retired in favor of one or more replacements. -/
def isDeprecated (r : CandidateRecord) : Bool := !r.replacements.isEmpty

/-- Whether two records say the same, the order inside their sets aside. -/
def sameAs (r s : CandidateRecord) : Bool :=
  r.id == s.id && r.order == s.order && r.available == s.available &&
    r.before.sameMembers s.before && r.after.sameMembers s.after &&
    r.replacements.sameMembers s.replacements

theorem isDeprecated_eq_false_iff {r : CandidateRecord} :
    r.isDeprecated = false ↔ r.replacements = ∅ := by
  rw [isDeprecated, Bool.not_eq_false', IdSet.isEmpty_iff]

/-- The ids that the candidate's edges name, those it must precede first. -/
def edges (r : CandidateRecord) : List CandidateId := r.before.toList ++ r.after.toList

end CandidateRecord

end Activation
