import Activation.Candidate.IdMap
import Activation.Source.Basic
import Activation.Text.Quoted

/-!
# Live inspection

A live inspector answers from candidates that are registered with it. Each candidate speaks for
itself; a candidate registered again under the same id takes the place of the earlier one.
-/

namespace Activation

/-- The registered candidates, in the order in which their ids were first registered. -/
structure LiveInspector where
  candidates : IdMap Declaration

namespace LiveInspector

def empty : LiveInspector := ⟨∅⟩

instance : EmptyCollection LiveInspector := ⟨empty⟩

def register (inspector : LiveInspector) (candidate : Declaration) : LiveInspector :=
  ⟨inspector.candidates.insert candidate.id candidate⟩

def ofCandidates (candidates : List Declaration) : LiveInspector := candidates.foldl register ∅

def get? (inspector : LiveInspector) (id : CandidateId) : Option Declaration :=
  inspector.candidates.get? id

def size (inspector : LiveInspector) : Nat := inspector.candidates.size

def isEmpty (inspector : LiveInspector) : Bool := inspector.candidates.isEmpty

/-- The registered ids, as they are shown to a reader. -/
def description (inspector : LiveInspector) : String :=
  let ids := inspector.candidates.keys.map fun id => "CandidateId(" ++ Text.quoted id.text ++ ")"
  s!"LiveInspector \x7b candidate_count: {inspector.size}, candidate_ids: [" ++
    ", ".intercalate ids ++ "] \x7d"

def source (inspector : LiveInspector) : Source where
  isAvailable id := inspector.candidates.contains id
  order id := ((inspector.get? id).map Declaration.order).getD defaultOrder
  before id := ((inspector.get? id).map Declaration.before).getD []
  after id := ((inspector.get? id).map Declaration.after).getD []
  replacements id := ((inspector.get? id).map Declaration.replacedBy).getD []

theorem source_finite (inspector : LiveInspector) : inspector.source.Finite := by
  refine Source.Finite.of_keys inspector.candidates.keys fun id unknown => ?_
  have absent : inspector.candidates.get? id = none := IdMap.get?_eq_none_iff.mpr unknown
  simp [source, get?, IdMap.contains, absent, CandidateRecord.withReplacements,
    CandidateRecord.unavailable]

end LiveInspector

end Activation
