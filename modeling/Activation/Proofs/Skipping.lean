import Activation.Proofs.Erasure
import Activation.Proofs.Termination

/-!
# No request is skipped

A placement follows a request only where the id that is asked for is pending, and an id is pending
until the queue comes to it, also while it waits and after it was placed. So the three places where
an id can be overlap, and it takes an invariant to see that the test leaves out nothing
(`placement_skips_no_request`): a request that is passed over is for an id that is placed.

The ids that wait are read off the path of a placement. They are also the members of a set that is
kept beside it, in which an id is marked while it waits (`Placement.Marked.mem_iff`).
-/

namespace Activation

open DepthFirst CandidateGraph

namespace Placement

variable {graph : CandidateGraph} {ids : List CandidateId} {p : Placement} {marks : IdSet}

/-! ### Marks -/

/-- A set of marks that is kept along a placement: an id is marked when it starts to wait, and its
mark is taken away when it waits no longer. -/
inductive Marked (graph : CandidateGraph) (ids : List CandidateId) : Placement → IdSet → Prop
  | start : Marked graph ids (start graph ids) ∅
  | enter {p q : Placement} {marks : IdSet} {id : CandidateId} (before : Marked graph ids p marks)
      (taken : step graph p = some q) (waits : q.processing = id :: p.processing) :
      Marked graph ids q (marks.insert id)
  | leave {p q : Placement} {marks : IdSet} {id : CandidateId} (before : Marked graph ids p marks)
      (taken : step graph p = some q) (waited : p.processing = id :: q.processing) :
      Marked graph ids q (marks.erase id)
  | stay {p q : Placement} {marks : IdSet} (before : Marked graph ids p marks)
      (taken : step graph p = some q) (same : q.processing = p.processing) :
      Marked graph ids q marks

theorem exists_marked (steps : Process.Steps (step graph) (start graph ids) p) :
    ∃ marks, Marked graph ids p marks := by
  induction steps with
  | refl => exact ⟨∅, .start⟩
  | tail _ taken ih =>
    obtain ⟨marks, marked⟩ := ih
    obtain ⟨running, move⟩ := move_of_step taken
    cases change_of_move running move with
    | entered _ waits _ => exact ⟨_, marked.enter taken waits⟩
    | placed _ waited _ => exact ⟨_, marked.leave taken waited⟩
    | kept _ same _ => exact ⟨_, marked.stay taken same⟩

theorem Marked.steps (marked : Marked graph ids p marks) :
    Process.Steps (step graph) (Placement.start graph ids) p := by
  induction marked with
  | start => exact .refl
  | enter _ taken _ ih => exact ih.tail taken
  | leave _ taken _ ih => exact ih.tail taken
  | stay _ taken _ ih => exact ih.tail taken

theorem Marked.mem_iff (marked : Marked graph ids p marks) (id : CandidateId) :
    id ∈ marks ↔ id ∈ p.processing := by
  induction marked with
  | start => exact iff_of_false (IdSet.not_mem_empty id) List.not_mem_nil
  | enter _ _ waits ih => rw [IdSet.mem_insert, ih, waits, List.mem_cons, or_comm]
  | leave before _ waited ih =>
    -- The id that leaves the path is nowhere else on it, so its mark is not needed any more.
    have distinct := (tracked_of_steps before.steps).distinct
    rw [waited, List.nodup_cons] at distinct
    rw [IdSet.mem_erase, ih, waited, List.mem_cons]
    constructor
    · rintro ⟨left | waits, differs⟩
      · exact absurd left differs
      · exact waits
    · exact fun waits => ⟨Or.inr waits, fun left => distinct.1 (left ▸ waits)⟩
  | stay _ _ same ih => rw [ih, same]

/-! ### Requests in progress -/

/-- Each id that waits was asked for by the next one outwards. -/
theorem linked_of_steps (steps : Process.Steps (step graph) (start graph ids) p) :
    p.processing.IsChain fun inner outer => graph.Requests outer inner := by
  have linked := (honored_of_steps steps).suspended.linked
  rw [map_fst_stack] at linked
  exact linked.imp fun _ _ requested => requested.2

/-- What an id that waits asks for is still to be looked at, or is placed, or waits as well. -/
theorem looked_of_steps (steps : Process.Steps (step graph) (start graph ids) p) {frame : Waiting}
    (waits : frame ∈ p.path) {id : CandidateId}
    (requested : graph.RequestsAmong (start graph ids).queue frame.id id) :
    id ∈ frame.requests ∨ id ∈ p.sorted ∨ id ∈ p.processing := by
  obtain ⟨-, suspended, closing⟩ := honored_of_steps steps
  rcases suspended.looked_of_mem (List.mem_map_of_mem waits) requested with
    ahead | placed | met | deeper
  · exact Or.inl (List.mem_filter.mp ahead).1
  · exact Or.inr (Or.inl placed)
  · -- The placement has stopped there: the id closes a cycle.
    obtain ⟨⟨a, b⟩, closed, rfl⟩ := Option.map_eq_some_iff.mp met
    exact Or.inr (Or.inr (closing a b closed).2)
  · exact Or.inr (Or.inr (map_fst_stack _ p ▸ deeper))

/-- Where the id that is asked for next has not got lost, it closes a cycle, or is placed already,
or is entered now. -/
theorem step_of_request (running : p.cycle = none) {frame : Waiting} {path : List Waiting}
    (inProgress : p.path = frame :: path) {id : CandidateId} {requests : List CandidateId}
    (left : frame.requests = id :: requests)
    (known : id ∈ p.pending ∨ id ∈ p.sorted ∨ id ∈ p.processing) :
    step graph p = some (
      if id ∈ p.processing then
        { p with path := { frame with requests } :: path, cycle := some (frame.id, id) }
      else if id ∈ p.sorted then { p with path := { frame with requests } :: path }
      else ({ p with path := { frame with requests } :: path } : Placement).enter graph id) := by
  split
  next met => exact step_of_move running (.close inProgress left met)
  next fresh =>
    split
    next placed => exact step_of_move running (.pass inProgress left fresh fun _ => placed)
    next unplaced =>
      have pending : id ∈ p.pending := known.resolve_right fun met => met.elim unplaced fresh
      exact step_of_move running (.follow inProgress left fresh unplaced pending)

end Placement

/-! ### The test for pending ids -/

variable {source : Source} {ids names : List CandidateId} {graph : CandidateGraph}
  {explorable : source.Explorable ids} {p : Placement}

/-- At each moment of a placement every id of the queue is pending, placed or marked, and no id is
placed and marked. The marked ids are those of the path, on which each one was asked for by the next
one outwards. What a placed id asks for stands before it. So an id that is asked for and is neither
placed nor marked is pending, and when the placement comes to it, it is entered: of the requests of
an id that waits, those that were looked at are for ids that are placed or marked. -/
theorem placement_skips_no_request (bare : source.EdgesOnlyWhenAvailable)
    (built : (build source ids explorable).value = .ok graph)
    (steps : Process.Steps (Placement.step graph)
      (Placement.start graph (graph.baseline (graph.requested names).toList)) p) :
    ∃ marks, Placement.Marked graph (graph.baseline (graph.requested names).toList) p marks ∧
      (∀ id ∈ graph.queue names, id ∈ p.pending ∨ id ∈ p.sorted ∨ id ∈ marks) ∧
      (∀ id ∈ p.sorted, id ∉ marks) ∧
      ((∀ id, id ∈ marks ↔ id ∈ p.path.map Waiting.id) ∧ (p.path.map Waiting.id).Nodup ∧
        (p.path.map Waiting.id).IsChain fun inner outer => inner ∈ graph.requestedAfter outer) ∧
      (∀ id ∈ p.sorted, ∀ other ∈ graph.requestedAfter id,
        other ∈ p.sorted ∧ p.sorted.toList.idxOf other < p.sorted.toList.idxOf id) ∧
      (∀ id, ∀ other ∈ graph.requestedAfter id, other ∉ p.sorted → other ∉ marks →
        other ∈ p.pending) ∧
      (∀ frame ∈ p.path, ∀ other ∈ graph.requestedAfter frame.id,
        other ∈ frame.requests ∨ other ∈ p.sorted ∨ other ∈ marks) ∧
      ∀ frame path id requests, p.cycle = none → p.path = frame :: path →
        frame.requests = id :: requests →
        id ∈ graph.requestedAfter frame.id ∧
          Placement.step graph p = some (
            if id ∈ marks then
              { p with path := { frame with requests } :: path, cycle := some (frame.id, id) }
            else if id ∈ p.sorted then { p with path := { frame with requests } :: path }
            else
              ({ p with path := { frame with requests } :: path } : Placement).enter graph id) := by
  have described := describes_of_build built
  -- Every request is for an id that takes part, so nothing that holds of these ids is a restriction.
  have among := described.requestsAmong_queue bare names
  have tracked := Placement.tracked_of_steps steps
  have known (id other : CandidateId) (requested : other ∈ graph.requestedAfter id) :
      other ∈ p.pending ∨ other ∈ p.sorted ∨ other ∈ p.processing := by
    have takesPart : graph.RequestsAmong (graph.queue names) id other := among ▸ requested
    exact tracked.known other takesPart.1
  have ordered : InOrder graph.Requests p.sorted.toList :=
    among ▸ (Placement.honored_of_steps steps).ordered
  obtain ⟨marks, marked⟩ := Placement.exists_marked steps
  have waiting : ∀ id, id ∈ marks ↔ id ∈ p.processing := marked.mem_iff
  refine ⟨marks, marked, fun id queued => ?_, fun id placed marked => ?_,
    ⟨waiting, tracked.distinct, Placement.linked_of_steps steps⟩,
    fun id placed other requested => ⟨?_, ?_⟩, fun id other requested unplaced unmarked => ?_,
    fun frame waits other requested => ?_, fun frame path id requests running inProgress left => ?_⟩
  · rw [waiting]
    exact tracked.known id queued
  · exact tracked.apart id ((waiting id).mp marked) placed
  · obtain ⟨front, back, split⟩ := List.append_of_mem (IdSet.mem_toList.mpr placed)
    rw [← IdSet.mem_toList, split]
    exact List.mem_append_left _ (ordered front id back split other requested)
  · exact ordered.idxOf_lt p.sorted.nodup placed requested
  · rw [waiting] at unmarked
    exact (known id other requested).resolve_right fun met => met.elim unplaced unmarked
  · rw [waiting]
    have takesPart : graph.RequestsAmong (graph.queue names) frame.id other := among ▸ requested
    exact Placement.looked_of_steps steps waits takesPart
  · have requested : id ∈ graph.requestedAfter frame.id :=
      Placement.asking_of_steps steps frame (by simp [inProgress]) id (by simp [left])
    simp only [waiting]
    exact ⟨requested,
      Placement.step_of_request running inProgress left (known frame.id id requested)⟩

/-- The database was placed before the queue came to it, so it is pending and placed while the two
services that need it wait. -/
theorem placement_skips_no_request_webStack :
    ∃ graph, (build webStack.source [⟨"web"⟩, ⟨"pg"⟩]
        (webStack.source_finite.explorable _)).value = .ok graph ∧
      ∃ p marks, p.path.map Waiting.id = [⟨"cache"⟩, ⟨"web"⟩] ∧ ⟨"pg"⟩ ∈ p.pending ∧ ⟨"pg"⟩ ∈ p.sorted ∧
        Placement.Marked graph (graph.baseline (graph.requested [⟨"web"⟩, ⟨"pg"⟩]).toList) p marks ∧
        ⟨"cache"⟩ ∈ marks ∧ ⟨"pg"⟩ ∉ marks ∧ ⟨"cache"⟩ ∈ graph.requestedAfter ⟨"web"⟩ := by
  obtain ⟨graph, built, waits, pending, placed⟩ :
      ∃ graph, (build webStack.source [⟨"web"⟩, ⟨"pg"⟩]
          (webStack.source_finite.explorable _)).value = .ok graph ∧
        let p := Process.advance (Placement.step graph) 4
          (Placement.start graph (graph.baseline (graph.requested [⟨"web"⟩, ⟨"pg"⟩]).toList))
        p.path.map Waiting.id = [⟨"cache"⟩, ⟨"web"⟩] ∧ ⟨"pg"⟩ ∈ p.pending ∧ ⟨"pg"⟩ ∈ p.sorted :=
    exists_eq_ok_of_check (by simp only [Bool.decide_and]; cbv)
  obtain ⟨marks, marked, -, apart, ⟨path, -, linked⟩, -⟩ :=
    placement_skips_no_request webStack.source_edgesOnlyWhenAvailable built
      (Process.steps_advance (Placement.step graph) 4 _)
  refine ⟨graph, built, _, marks, waits, pending, placed, marked, ?_, apart _ placed, ?_⟩
  · rw [path, waits]
    exact List.mem_cons_self
  · rw [waits] at linked
    exact (List.isChain_cons_cons.mp linked).1

end Activation
