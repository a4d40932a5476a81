import Activation.Order.Placement

/-!
# Activation orders

The order is produced in four fixed steps:

1. the ids to order, retired ones replaced by what they stand for, are sorted by their text,
2. they are sorted by order value; ties keep the order of the first step,
3. they are placed, each one after everything that must precede it,
4. of the placement only the ids to order are kept.
-/

namespace Activation

/-- The ids that a list of names asks for: retired names replaced by what they stand for. -/
def CandidateGraph.requested (graph : CandidateGraph) (names : List CandidateId) : IdSet :=
  names.foldl (fun ids name => ids.insertAll (graph.resolve name)) ∅

/-- Ids in ascending order value; ids of the same value in the order of their text. -/
def CandidateGraph.baseline (graph : CandidateGraph) (ids : List CandidateId) : List CandidateId :=
  (ids.mergeSort fun a b => decide (a ≤ b)).mergeSort
    fun a b => decide (graph.order a ≤ graph.order b)

/-- Orders the names under the constraints of a graph. Each id that the names ask for is in the
result exactly once. -/
def sort (names : List CandidateId) (graph : CandidateGraph) :
    Reported (Except OrderingError (List CandidateId)) := do
  let requested := graph.requested names
  Reported.report (.orderingStarted requested.size graph.workingSet.length)
  let placement := Placement.run graph (graph.baseline requested.toList)
  match placement.cycle with
  | some (a, b) =>
    Reported.report (.orderingCycleDetected a b)
    return .error (.cycle a b)
  | none =>
    let ordered := placement.sorted.toList.filter fun id => decide (id ∈ requested)
    Reported.report (.orderingCompleted ordered.head? ordered.getLast? ordered.length)
    return .ok ordered

def orderCandidates (source : Source) (ids : List CandidateId)
    (explorable : source.Explorable ids) : Reported (Except OrderingError (List CandidateId)) := do
  match ← CandidateGraph.build source ids explorable with
  | .error error => return .error error
  | .ok graph => sort ids graph

end Activation
