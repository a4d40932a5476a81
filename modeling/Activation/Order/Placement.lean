import Activation.Graph.Basic

/-!
# Placement

Placement turns a list of ids into an order that meets the constraints of a graph. It takes the ids
in turn and places each one after everything that must precede it, depth first; ids of the working
set that are not in the list take part as well, so that constraints which pass through them are
honored. An id that is met again while it waits to be placed closes a cycle.

The placement is a process whose state holds the chain of ids that wait for one another;
`Placement.Move` lists what a step of it can do. It halts on every graph (`Placement.halts`), because
an id is entered at most once.
-/

namespace Activation

/-- An id that waits to be placed, and the ids it has yet to wait for. -/
structure Waiting where
  id : CandidateId
  requests : List CandidateId

/-- A moment of the placement. -/
structure Placement where
  /-- Ids that are still to be taken, in this order. -/
  queue : List CandidateId
  /-- Ids of the queue that were not taken from it yet. -/
  pending : List CandidateId
  /-- The ids that wait to be placed, the innermost first. -/
  path : List Waiting := []
  /-- The ids placed so far. -/
  sorted : IdSet := ∅
  /-- The id being placed and the id it waits for, where these close a cycle. -/
  cycle : Option (CandidateId × CandidateId) := none

namespace Placement

def processing (p : Placement) : List CandidateId := p.path.map Waiting.id

/-- The moment before the first id is taken: the given ids, then the rest of the working set. -/
def start (graph : CandidateGraph) (ids : List CandidateId) : Placement :=
  let queue := ids ++ graph.workingSet.filter fun id => decide (id ∉ ids)
  { queue, pending := queue }

def enter (graph : CandidateGraph) (p : Placement) (id : CandidateId) : Placement :=
  { p with path := ⟨id, (graph.requestedAfter id).toList⟩ :: p.path }

def take (p : Placement) (id : CandidateId) (queue : List CandidateId) : Placement :=
  { p with queue, pending := p.pending.filter (· != id) }

/-- Looks at the next id that the innermost one has to wait for, places the innermost id when none
is left, or takes the next id of the queue when no id waits. -/
def step (graph : CandidateGraph) (p : Placement) : Option Placement :=
  match p.cycle, p.path with
  | some _, _ => none
  | none, [] =>
    match p.queue with
    | [] => none
    | id :: queue =>
      if id ∈ p.sorted then some (p.take id queue) else some ((p.take id queue).enter graph id)
  | none, frame :: path =>
    match frame.requests with
    | [] => some { p with path, sorted := p.sorted.insert frame.id }
    | id :: requests =>
      if id ∈ p.processing then
        some { p with path := { frame with requests } :: path, cycle := some (frame.id, id) }
      else if id ∉ p.sorted ∧ id ∈ p.pending then
        some ({ p with path := { frame with requests } :: path }.enter graph id)
      else some { p with path := { frame with requests } :: path }

variable {graph : CandidateGraph} {p q : Placement}

/-! ### Steps -/

/-- Everything that one step of a placement can do. -/
inductive Move (graph : CandidateGraph) (p : Placement) : Placement → Prop
  -- The next id of the queue is placed already.
  | skip {id : CandidateId} {queue : List CandidateId} (atTop : p.path = [])
      (left : p.queue = id :: queue) (placed : id ∈ p.sorted) : Move graph p (p.take id queue)
  -- The next id of the queue is entered.
  | begin {id : CandidateId} {queue : List CandidateId} (atTop : p.path = [])
      (left : p.queue = id :: queue) (unplaced : id ∉ p.sorted) :
      Move graph p ((p.take id queue).enter graph id)
  -- The innermost id has nothing left to wait for.
  | place {frame : Waiting} {path : List Waiting} (inProgress : p.path = frame :: path)
      (done : frame.requests = []) :
      Move graph p { p with path, sorted := p.sorted.insert frame.id }
  -- The innermost id asks for one that waits itself.
  | close {frame : Waiting} {path : List Waiting} {id : CandidateId}
      {requests : List CandidateId} (inProgress : p.path = frame :: path)
      (left : frame.requests = id :: requests) (met : id ∈ p.processing) :
      Move graph p
        { p with path := { frame with requests } :: path, cycle := some (frame.id, id) }
  -- The innermost id asks for one that is entered now.
  | follow {frame : Waiting} {path : List Waiting} {id : CandidateId}
      {requests : List CandidateId} (inProgress : p.path = frame :: path)
      (left : frame.requests = id :: requests) (fresh : id ∉ p.processing)
      (unplaced : id ∉ p.sorted) (waits : id ∈ p.pending) :
      Move graph p ({ p with path := { frame with requests } :: path }.enter graph id)
  -- The innermost id asks for one that is placed, or that is not part of the placement.
  | pass {frame : Waiting} {path : List Waiting} {id : CandidateId}
      {requests : List CandidateId} (inProgress : p.path = frame :: path)
      (left : frame.requests = id :: requests) (fresh : id ∉ p.processing)
      (placed : id ∈ p.pending → id ∈ p.sorted) :
      Move graph p { p with path := { frame with requests } :: path }

theorem move_of_step (taken : step graph p = some q) : p.cycle = none ∧ Move graph p q := by
  unfold step at taken
  split at taken
  · cases taken
  next running atTop =>
    refine ⟨running, ?_⟩
    split at taken
    · cases taken
    next id queue left =>
      split at taken
      next placed => cases taken; exact .skip atTop left placed
      next unplaced => cases taken; exact .begin atTop left unplaced
  next frame path running inProgress =>
    refine ⟨running, ?_⟩
    split at taken
    next done => cases taken; exact .place inProgress done
    next id requests left =>
      split at taken
      next met => cases taken; exact .close inProgress left met
      next fresh =>
        split at taken
        next waits => cases taken; exact .follow inProgress left fresh waits.1 waits.2
        next settled =>
          cases taken
          refine .pass inProgress left fresh fun waits => ?_
          exact Decidable.byContradiction fun unplaced => settled ⟨unplaced, waits⟩

/-! ### Halting -/

/-- All ids that can still be entered come from a pool. -/
private structure Within (pool : List CandidateId) (p : Placement) : Prop where
  queue : ∀ id ∈ p.queue, id ∈ pool
  pending : ∀ id ∈ p.pending, id ∈ pool

/-- How many ids of the pool are neither placed nor waiting. -/
private def untouched (pool : List CandidateId) (p : Placement) : Nat :=
  pool.countP fun id => decide (id ∉ p.sorted ∧ id ∉ p.processing)

/-- How much is left to do with the ids that wait. -/
private def outstanding (p : Placement) : Nat :=
  p.queue.length + (p.path.flatMap fun frame => frame.id :: frame.requests).length

section

variable {pool queue : List CandidateId} {frame : Waiting} {path : List Waiting} {id : CandidateId}

private theorem untouched_enter (graph : CandidateGraph) (member : id ∈ pool)
    (unplaced : id ∉ p.sorted) (fresh : id ∉ p.processing) :
    untouched pool (p.enter graph id) < untouched pool p := by
  apply Process.countP_lt_countP (a := id) _ member
  · simp [unplaced, fresh]
  · simp [enter, processing]
  · intro other left
    have left := of_decide_eq_true left
    exact decide_eq_true ⟨left.1, fun met => left.2 (List.mem_cons_of_mem id met)⟩

/-- To look at a request changes nothing about the ids that wait. -/
private theorem untouched_look (inProgress : p.path = frame :: path)
    (requests : List CandidateId) :
    untouched pool { p with path := { frame with requests } :: path } = untouched pool p := by
  simp only [untouched, processing, inProgress, List.map_cons]

private theorem outstanding_look {requests : List CandidateId}
    (inProgress : p.path = frame :: path) (left : frame.requests = id :: requests) :
    outstanding { p with path := { frame with requests } :: path } < outstanding p := by
  simp only [outstanding, inProgress, left, List.flatMap_cons, List.length_append,
    List.length_cons]
  omega

/-- An id that is placed has moved from the ids that wait to those in order. -/
private theorem untouched_place (inProgress : p.path = frame :: path) :
    untouched pool { p with path, sorted := p.sorted.insert frame.id } = untouched pool p := by
  apply congrFun (congrArg List.countP _)
  funext id
  simp only [processing, inProgress, List.map_cons, List.mem_cons, not_or, IdSet.mem_insert]
  grind

private theorem Within.take (within : Within pool p) (left : p.queue = id :: queue) :
    Within pool (p.take id queue) where
  queue other later := within.queue other (left ▸ List.mem_cons_of_mem id later)
  pending other still := within.pending other (List.mem_filter.mp still).1

private theorem step_progress (within : Within pool p) (taken : step graph p = some q) :
    Within pool q ∧ (untouched pool q < untouched pool p ∨
      (untouched pool q = untouched pool p ∧ outstanding q < outstanding p)) := by
  cases (move_of_step taken).2 with
  | skip atTop left placed =>
    refine ⟨within.take left, Or.inr ⟨rfl, ?_⟩⟩
    simp [outstanding, take, left]
  | @begin id queue atTop left unplaced =>
    have smaller := within.take left
    refine ⟨⟨smaller.queue, smaller.pending⟩, Or.inl ?_⟩
    exact untouched_enter graph (p := p.take id queue) (within.queue id (by simp [left])) unplaced
      (by simp [processing, take, atTop])
  | place inProgress done =>
    refine ⟨⟨within.queue, within.pending⟩, Or.inr ⟨untouched_place inProgress, ?_⟩⟩
    simp only [outstanding, inProgress, List.flatMap_cons, List.length_append, List.length_cons]
    omega
  | close inProgress left met =>
    exact ⟨⟨within.queue, within.pending⟩,
      Or.inr ⟨untouched_look inProgress _, outstanding_look inProgress left⟩⟩
  | @follow frame path id requests inProgress left fresh unplaced waits =>
    refine ⟨⟨within.queue, within.pending⟩, Or.inl ?_⟩
    rw [← untouched_look inProgress requests]
    apply untouched_enter graph (p := { p with path := { frame with requests } :: path })
      (within.pending id waits) unplaced
    simpa only [processing, inProgress, List.map_cons] using fresh
  | pass inProgress left fresh placed =>
    exact ⟨⟨within.queue, within.pending⟩,
      Or.inr ⟨untouched_look inProgress _, outstanding_look inProgress left⟩⟩

end

/-- Placement comes to an end on every graph, whatever its constraints. -/
theorem halts (graph : CandidateGraph) (ids : List CandidateId) :
    Process.Halts (step graph) (start graph ids) :=
  Process.Halts.of_measure (Within (start graph ids).queue) (untouched (start graph ids).queue)
    outstanding
    (fun _ _ within taken => (step_progress within taken).1)
    (fun _ _ within taken => (step_progress within taken).2)
    ⟨fun _ member => member, fun _ member => member⟩

def run (graph : CandidateGraph) (ids : List CandidateId) : Placement :=
  Process.run (step graph) (start graph ids) (halts graph ids)

end Placement

end Activation
