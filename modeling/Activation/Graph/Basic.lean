import Activation.Graph.Resolution
import Activation.Graph.Walk
import Activation.Order.Error

/-!
# Candidate graphs

A graph is the working set of one ordering: the records of every id that takes part, and who must
be placed before whom.

* *primary* ids are the ones that the caller asked for, retired ids replaced by what they stand for;
  only these are ever part of the result,
* *inherited* ids are pulled in because a record names them; they steer the placement,
* *deprecated* ids are retired; they are held aside, and edges that name them are redirected.

Constraints are symmetric in how they are declared: `requestedAfter id` holds every id that must
precede `id`, whichever of the two declared it.
-/

namespace Activation

/-- The working set of one ordering. -/
structure CandidateGraph where
  /-- The records of the working set. -/
  records : IdMap CandidateRecord
  /-- The records of retired ids. -/
  deprecated : IdMap CandidateRecord
  /-- The ids that the caller asked for, in the order in which they were first reached. -/
  primary : IdSet
  /-- What each retired id stands for. -/
  replacements : IdMap IdSet
  /-- For each id of the working set, the ids it was declared to precede. -/
  successors : IdMap IdSet
  /-- For each id of the working set, the ids it was declared to follow. -/
  predecessors : IdMap IdSet
  /-- For each id, the ids that must precede it. -/
  requests : IdMap IdSet

/-- Replaces the retired ids of a set by what they stand for. -/
def redirect (replacements : IdMap IdSet) (ids : IdSet) : IdSet :=
  ids.toList.foldl (fun redirected id =>
    match replacements.get? id with
    | some standsFor => redirected.insertAll standsFor.toList
    | none => redirected.insert id) ∅

/-- Adds ids to those that must precede an id. -/
def addRequests (requests : IdMap IdSet) (id : CandidateId) (ids : List CandidateId) :
    IdMap IdSet :=
  requests.insert id (((requests.get? id).getD ∅).insertAll ids)

/-- Every id named by a `before` set must wait for the ids that declared it. -/
def addAllRequests (requests : IdMap IdSet) (before : IdSet) (declarers : List CandidateId) :
    IdMap IdSet :=
  before.toList.foldl (fun requests target => addRequests requests target declarers) requests

namespace CandidateGraph

/-- The ids that take part in the ordering, in the order in which they were reached. -/
def workingSet (graph : CandidateGraph) : List CandidateId := graph.records.keys

def isPrimary (graph : CandidateGraph) (id : CandidateId) : Bool := decide (id ∈ graph.primary)

/-- The ids that take part in the ordering but not in its result. -/
def inherited (graph : CandidateGraph) : List CandidateId :=
  graph.workingSet.filter fun id => decide (id ∉ graph.primary)

def contains (graph : CandidateGraph) (id : CandidateId) : Bool := graph.records.contains id

def isDeprecated (graph : CandidateGraph) (id : CandidateId) : Bool := graph.deprecated.contains id

def record? (graph : CandidateGraph) (id : CandidateId) : Option CandidateRecord :=
  graph.records.get? id

/-- The order value of an id, the default for ids outside the working set. -/
def order (graph : CandidateGraph) (id : CandidateId) : Int32 :=
  ((graph.record? id).map CandidateRecord.order).getD defaultOrder

/-- The ids that `id` was declared to precede, retired ones redirected. -/
def before (graph : CandidateGraph) (id : CandidateId) : IdSet := (graph.successors.get? id).getD ∅

/-- The ids that `id` was declared to follow, retired ones redirected. -/
def after (graph : CandidateGraph) (id : CandidateId) : IdSet := (graph.predecessors.get? id).getD ∅

/-- Every id that must be placed before `id`: those it was declared to follow, those that were
declared to precede it, and the replacements of retired ids that were declared to precede it. -/
def requestedAfter (graph : CandidateGraph) (id : CandidateId) : IdSet :=
  (graph.requests.get? id).getD ∅

/-- What an id stands for: a retired id for its resolved replacements, any other id for itself. -/
def resolve (graph : CandidateGraph) (id : CandidateId) : List CandidateId :=
  match graph.replacements.get? id with
  | some standsFor => standsFor.toList
  | none => [id]

/-- The constraints between the records of a finished walk. -/
def constrain (records deprecated : IdMap CandidateRecord) (primary : IdSet)
    (replacements : IdMap IdSet) : CandidateGraph :=
  let successors := records.mapValues fun record => redirect replacements record.before
  let predecessors := records.mapValues fun record => redirect replacements record.after
  let declared := successors.entries.foldl
    (fun requests (id, targets) => addAllRequests requests targets [id]) predecessors
  let requests := deprecated.entries.foldl
    (fun requests (id, record) =>
      addAllRequests requests (redirect replacements record.before)
        ((replacements.get? id).getD ∅).toList) declared
  { records, deprecated, primary, replacements, successors, predecessors, requests }

/-- Builds the working set of an ordering. Ids that cannot be resolved never fail the build; the
only failure is a loop of retired candidates that redirect to one another. -/
def build (source : Source) (ids : List CandidateId) (explorable : source.Explorable ids) :
    Reported (Except OrderingError CandidateGraph) := do
  Reported.report (.graphBuildStarted ids.length)
  let walk := Walk.run source ids explorable
  Reported.reportAll walk.events
  match resolveReplacements walk.deprecated with
  | .error chain =>
    Reported.report (.replacementCycleDetected chain)
    return .error (.replacementCycle chain)
  | .ok replacements =>
    let graph := constrain walk.records walk.deprecated walk.primary replacements
    Reported.report
      (.graphBuildCompleted graph.primary.size graph.inherited.length graph.deprecated.size)
    return .ok graph

end CandidateGraph

end Activation
