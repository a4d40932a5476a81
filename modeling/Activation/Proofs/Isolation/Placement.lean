import Activation.Proofs.Erasure
import Activation.Proofs.Placement

/-!
# Placements past an isolated id

In a graph that isolates an id (`CandidateGraph.Isolates`) nothing must precede the id, and it must
precede nothing. When its turn comes it is placed at once, and no other id ever looks at it. So each
moment of a placement, with the isolated id left out, is a moment of the placement of the other ids
(`Placement.move_without`), and the two come to the same end (`Placement.run_without`).
-/

namespace Activation

/-- No constraint of the graph is about the id. -/
structure CandidateGraph.Isolates (graph : CandidateGraph) (z : CandidateId) : Prop where
  free : graph.requestedAfter z = ∅
  unrequested : ∀ id, z ∉ graph.requestedAfter id

namespace Placement

variable {graph graph' : CandidateGraph} {ids ids' : List CandidateId} {p q : Placement}
  {z id : CandidateId}

/-! ### Leaving the isolated id out -/

/-- What is left of a moment of a placement without an id. A cycle is kept as it is. -/
def without (p : Placement) (z : CandidateId) : Placement where
  queue := p.queue.filter (· != z)
  pending := p.pending.filter (· != z)
  path := p.path.filter fun frame => frame.id != z
  sorted := p.sorted.erase z
  cycle := p.cycle

theorem mem_processing_without (differ : id ≠ z) :
    id ∈ (p.without z).processing ↔ id ∈ p.processing := by
  simp only [processing, without, List.mem_map, List.mem_filter, bne_iff_ne]
  constructor
  · rintro ⟨frame, ⟨member, -⟩, rfl⟩
    exact ⟨frame, member, rfl⟩
  · rintro ⟨frame, member, rfl⟩
    exact ⟨frame, ⟨member, differ⟩, rfl⟩

theorem take_without {queue : List CandidateId} :
    (p.take id queue).without z = (p.without z).take id (queue.filter (· != z)) := by
  simp [take, without, Bool.and_comm]

theorem take_without_self {queue : List CandidateId} (left : p.queue = z :: queue) :
    (p.take z queue).without z = p.without z := by
  simp [take, without, left]

theorem enter_without (differ : id ≠ z) :
    (p.enter graph id).without z = (p.without z).enter graph id := by
  simp [enter, without, differ]

theorem enter_without_self : (p.enter graph z).without z = p.without z := by
  simp [enter, without]

theorem path_without {frame : Waiting} {path : List Waiting} (inProgress : p.path = frame :: path)
    (differ : frame.id ≠ z) :
    (p.without z).path = frame :: path.filter fun frame => frame.id != z := by
  simp [without, inProgress, differ]

theorem look_without {frame : Waiting} {path : List Waiting} (requests : List CandidateId)
    (differ : frame.id ≠ z) :
    ({ p with path := { frame with requests } :: path }).without z =
      { p.without z with
        path := { frame with requests } :: path.filter fun frame => frame.id != z } := by
  simp [without, differ]

/-- A step is a step of the placement without the isolated id, or it leaves that placement as it
is. -/
theorem move_without (isolates : graph.Isolates z) (asking : Asking graph p)
    (move : Move graph p q) :
    q.without z = p.without z ∨ Move graph (p.without z) (q.without z) := by
  -- The isolated id asks for nothing and nothing asks for it.
  have apart {frame : Waiting} {path : List Waiting} {id : CandidateId}
      {requests : List CandidateId} (inProgress : p.path = frame :: path)
      (left : frame.requests = id :: requests) : frame.id ≠ z ∧ id ≠ z := by
    have asks : id ∈ graph.requestedAfter frame.id :=
      asking frame (inProgress ▸ List.mem_cons_self) id (left ▸ List.mem_cons_self)
    refine ⟨fun same => ?_, fun same => isolates.unrequested frame.id (same ▸ asks)⟩
    rw [same, isolates.free] at asks
    exact IdSet.not_mem_empty id asks
  cases move with
  | @skip id queue atTop left placed =>
    by_cases same : id = z
    · subst same
      exact Or.inl (take_without_self left)
    · rw [take_without]
      exact Or.inr (.skip (by simp [without, atTop]) (by simp [without, left, same])
        (IdSet.mem_erase.mpr ⟨placed, same⟩))
  | @begin id queue atTop left unplaced =>
    by_cases same : id = z
    · subst same
      exact Or.inl (enter_without_self.trans (take_without_self left))
    · rw [enter_without same, take_without]
      exact Or.inr (.begin (by simp [without, atTop]) (by simp [without, left, same])
        fun placed => unplaced (IdSet.mem_erase.mp placed).1)
  | @place frame path inProgress done =>
    by_cases same : frame.id = z
    · exact Or.inl (by simp [without, inProgress, same])
    · have placed : Move graph (p.without z) _ := .place (path_without inProgress same) done
      refine Or.inr ?_
      simpa [without, IdSet.erase_insert_of_ne same] using placed
  | @close frame path id requests inProgress left met =>
    obtain ⟨waits, asked⟩ := apart inProgress left
    have closed : Move graph (p.without z) _ :=
      .close (path_without inProgress waits) left ((mem_processing_without asked).mpr met)
    refine Or.inr ?_
    simpa [without, waits] using closed
  | @follow frame path id requests inProgress left fresh unplaced pending =>
    obtain ⟨waits, asked⟩ := apart inProgress left
    rw [enter_without asked, look_without requests waits]
    refine Or.inr (.follow (path_without inProgress waits) left ?_ ?_ ?_)
    · rwa [mem_processing_without asked]
    · exact fun placed => unplaced (IdSet.mem_erase.mp placed).1
    · exact List.mem_filter.mpr ⟨pending, by simpa using asked⟩
  | @pass frame path id requests inProgress left fresh placed =>
    obtain ⟨waits, asked⟩ := apart inProgress left
    rw [look_without requests waits]
    refine Or.inr (.pass (path_without inProgress waits) left ?_ fun pending => ?_)
    · rwa [mem_processing_without asked]
    · exact IdSet.mem_erase.mpr ⟨placed (List.mem_filter.mp pending).1, asked⟩

/-- Steps depend on a graph only through what its ids ask for. -/
theorem step_congr (same : ∀ id, graph.requestedAfter id = graph'.requestedAfter id) :
    step graph = step graph' := by
  have entered : enter graph = enter graph' := by
    funext p id
    rw [enter, enter, same]
  unfold step
  rw [entered]

theorem start_without (same : ids = ids'.filter (· != z))
    (workingSet : graph.workingSet = graph'.workingSet.filter (· != z)) :
    (start graph' ids').without z = start graph ids := by
  have queue : (start graph' ids').queue.filter (· != z) = (start graph ids).queue := by
    simp only [start, List.filter_append, ← same, workingSet, List.filter_filter]
    congr 1
    refine List.filter_congr fun id _ => ?_
    by_cases differ : id = z <;> simp [same, differ, Bool.and_comm]
  simp only [start, without] at queue ⊢
  rw [queue]
  rfl

/-- Without the isolated id, the end of a placement is the end of the placement of the others. -/
theorem run_without (isolates : graph'.Isolates z)
    (requests : ∀ id, graph.requestedAfter id = graph'.requestedAfter id)
    (workingSet : graph.workingSet = graph'.workingSet.filter (· != z))
    (same : ids = ids'.filter (· != z)) : run graph ids = (run graph' ids').without z := by
  refine Process.run_eq_view (fun p => p.without z) (start_without same workingSet) (halts graph ids)
    (halts graph' ids') (fun p q steps taken => ?_) fun p steps final => ?_
  · obtain ⟨running, move⟩ := move_of_step taken
    refine (move_without isolates (asking_of_steps steps) move).imp_right fun seen => ?_
    rw [step_congr requests]
    exact step_of_move running seen
  · cases closed : p.cycle with
    | some pair => simp [step, without, closed]
    | none =>
      obtain ⟨atTop, left⟩ := ended_of_step_eq_none final closed
      simp [step, without, closed, atTop, left]

end Placement

end Activation
