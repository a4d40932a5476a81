import Activation.Order.Sort
import Activation.Proofs.Graph

/-!
# Primary ids

The walk marks ids as primary while it goes; sorting computes what the names stand for from the
resolved replacements. This module shows that the two agree, order included
(`CandidateGraph.primary_eq_requested`).

The visits that make ids primary are a depth-first search along replacements. `Gathering` is its
invariant: what the walk has made primary, followed by what the ids stand for that it has still to
make primary, is the same at each moment.
-/

namespace Activation

open Relation DepthFirst

namespace CandidateGraph

theorem requested_eq_ofList (graph : CandidateGraph) (names : List CandidateId) :
    graph.requested names = IdSet.ofList (names.flatMap graph.resolve) := by
  have folded : ∀ (names : List CandidateId) (ids : IdSet),
      names.foldl (fun ids name => ids.insertAll (graph.resolve name)) ids =
        ids.insertAll (names.flatMap graph.resolve) := by
    intro names
    induction names with
    | nil => intro ids; rfl
    | cons name names ih =>
      intro ids
      rw [List.foldl_cons, List.flatMap_cons, IdSet.insertAll_append, ih]
  exact folded names ∅

theorem mem_requested {graph : CandidateGraph} {names : List CandidateId} {id : CandidateId} :
    id ∈ graph.requested names ↔ ∃ name ∈ names, id ∈ graph.resolve name := by
  rw [requested_eq_ofList, IdSet.mem_ofList, List.mem_flatMap]

end CandidateGraph

namespace Walk

variable {source : Source} {ids : List CandidateId} {graph : CandidateGraph}

/-- The ids that are still to be visited as primary, in the order of their visits. -/
def due (inner : Option CandidateId) (stack : List (CandidateId × List CandidateId))
    (requested : List CandidateId) : List CandidateId :=
  inner.toList ++ (stack.flatMap Prod.snd ++ requested)

theorem due_cons {x : CandidateId} {pending requested : List CandidateId}
    {stack : List (CandidateId × List CandidateId)} :
    due none ((x, pending) :: stack) requested = pending ++ due none stack requested := by
  simp only [due, Option.toList_none, List.nil_append, List.flatMap_cons, List.append_assoc]

/-- The search along replacements that makes ids primary, in terms of the graph that the walk leads
to. The stack holds the retired ids that are being visited as primary, each with the replacements
that are still to be visited; `inner` is the id that is to be visited now, if any. -/
structure Gathering (source : Source) (ids : List CandidateId) (graph : CandidateGraph)
    (primary promoted : IdSet) (inner : Option CandidateId)
    (stack : List (CandidateId × List CandidateId)) (requested : List CandidateId) : Prop where
  known : ∀ id ∈ due inner stack requested, graph.Knows id
  retired : ∀ id ∈ stack.map Prod.fst, id ∈ graph.deprecated.keys
  collected : primary.insertAll ((due inner stack requested).flatMap graph.resolve) =
    IdSet.ofList (ids.flatMap graph.resolve)
  suspended : Suspended (fun id other => other ∈ (source.record id).replacements)
    (fun id => ∀ other ∈ graph.resolve id, other ∈ primary) inner stack
  promoted : ∀ id ∈ promoted,
    (∀ other ∈ graph.resolve id, other ∈ primary) ∨ id ∈ stack.map Prod.fst

namespace Gathering

variable {primary promoted : IdSet} {id x : CandidateId} {pending requested : List CandidateId}
  {stack : List (CandidateId × List CandidateId)}

theorem start (described : graph.Describes source ids) :
    Gathering source ids graph ∅ ∅ none [] ids where
  known := described.requested
  retired _ member := nomatch member
  collected := rfl
  suspended := .nil
  promoted id member := absurd member (IdSet.not_mem_empty id)

theorem next
    (gathering : Gathering source ids graph primary promoted none ((x, id :: pending) :: stack)
      requested) :
    Gathering source ids graph primary promoted (some id) ((x, pending) :: stack) requested :=
  ⟨gathering.known, gathering.retired, gathering.collected, gathering.suspended.next,
    gathering.promoted⟩

theorem request (gathering : Gathering source ids graph primary promoted none [] (id :: requested)) :
    Gathering source ids graph primary promoted (some id) [] requested :=
  ⟨gathering.known, gathering.retired, gathering.collected, .nil, gathering.promoted⟩

/-- An id that was visited as primary before has been replaced in full: were it still on the stack,
it would stand for itself through replacements. -/
theorem again (described : graph.Describes source ids) (member : id ∈ promoted)
    (gathering : Gathering source ids graph primary promoted (some id) stack requested) :
    Gathering source ids graph primary promoted none stack requested := by
  have known : graph.Knows id := gathering.known id List.mem_cons_self
  -- On the stack the id would lead to the innermost one, which leads to the id.
  have open_ : id ∉ stack.map Prod.fst := by
    intro waits
    cases stack with
    | nil => cases waits
    | cons frame stack =>
      have cycle := TransGen.tail' (gathering.suspended.reaches id waits)
        gathering.suspended.needs_inner
      exact not_transGen_self (described.acc_replacements known) cycle
  have replaced := (gathering.promoted id member).resolve_right open_
  refine ⟨fun other waits => gathering.known other (List.mem_cons_of_mem id waits),
    gathering.retired, ?_, gathering.suspended.settle replaced, gathering.promoted⟩
  have collected := gathering.collected
  rwa [due, Option.toList_some, List.singleton_append, List.flatMap_cons, IdSet.insertAll_append,
    IdSet.insertAll_of_subset replaced] at collected

/-- An id that is not retired becomes primary at once. -/
theorem live (resolved : graph.resolve id = [id])
    (gathering : Gathering source ids graph primary promoted (some id) stack requested) :
    Gathering source ids graph (primary.insert id) (promoted.insert id) none stack requested := by
  have kept : ∀ other, (∀ y ∈ graph.resolve other, y ∈ primary) →
      ∀ y ∈ graph.resolve other, y ∈ primary.insert id :=
    fun other replaced y member => IdSet.mem_insert.mpr (Or.inl (replaced y member))
  have here : ∀ y ∈ graph.resolve id, y ∈ primary.insert id := by
    intro y member
    rw [resolved, List.mem_singleton] at member
    exact IdSet.mem_insert.mpr (Or.inr member)
  refine ⟨fun other waits => gathering.known other (List.mem_cons_of_mem id waits),
    gathering.retired, ?_, (gathering.suspended.mono kept).settle here, ?_⟩
  · have collected := gathering.collected
    rwa [due, Option.toList_some, List.singleton_append, List.flatMap_cons, resolved] at collected
  · intro other member
    rcases IdSet.mem_insert.mp member with old | rfl
    · exact (gathering.promoted other old).imp_left (kept other)
    · exact Or.inl here

/-- For a retired id its replacements are visited instead. -/
theorem substitute (described : graph.Describes source ids)
    (deprecated : (source.record id).isDeprecated = true)
    (gathering : Gathering source ids graph primary promoted (some id) stack requested) :
    Gathering source ids graph primary (promoted.insert id) none
      ((id, (source.record id).replacements.toList) :: stack) requested := by
  have known : graph.Knows id := gathering.known id List.mem_cons_self
  have retired := described.mem_deprecated known deprecated
  refine ⟨fun other waits => ?_, fun other waits => ?_, ?_,
    gathering.suspended.enter fun other => Iff.rfl, fun other member => ?_⟩
  · rw [due_cons, List.mem_append] at waits
    rcases waits with replaces | waits
    · exact described.closed id other known (Or.inl replaces)
    · exact gathering.known other (List.mem_cons_of_mem id waits)
  · rcases List.mem_cons.mp waits with rfl | waits
    · exact retired
    · exact gathering.retired other waits
  · have collected := gathering.collected
    rw [due, Option.toList_some, List.singleton_append, List.flatMap_cons, IdSet.insertAll_append,
      described.resolve_of_retired retired, IdSet.insertAll_ofList] at collected
    rwa [due_cons, List.flatMap_append, IdSet.insertAll_append]
  · rcases IdSet.mem_insert.mp member with old | rfl
    · exact (gathering.promoted other old).imp_right (List.mem_cons_of_mem _)
    · exact Or.inr List.mem_cons_self

/-- When all replacements of the innermost retired id were visited, it has been replaced in full. -/
theorem leave (described : graph.Describes source ids)
    (gathering : Gathering source ids graph primary promoted none ((x, []) :: stack) requested) :
    Gathering source ids graph primary promoted none stack requested := by
  obtain ⟨replaced, outer⟩ := gathering.suspended.leave
  have here : ∀ other ∈ graph.resolve x, other ∈ primary := by
    intro other member
    rw [described.resolve_of_retired (gathering.retired x List.mem_cons_self), IdSet.mem_toList,
      IdSet.mem_ofList, List.mem_flatMap] at member
    obtain ⟨replacement, replaces, member⟩ := member
    exact replaced replacement replaces other member
  refine ⟨gathering.known, fun other waits => gathering.retired other (List.mem_cons_of_mem _ waits),
    gathering.collected, outer.settle here, fun other member => ?_⟩
  rcases gathering.promoted other member with done | waits
  · exact Or.inl done
  · rcases List.mem_cons.mp waits with rfl | waits
    · exact Or.inl here
    · exact Or.inr waits

end Gathering

/-! ### The search within the walk -/

/-- The visits in progress that make ids primary, without the others. -/
def substituting (path : List Frame) : List (CandidateId × List CandidateId) :=
  (path.filter Frame.passesPrimary).map fun frame => (frame.id, frame.pending)

theorem substituting_inherited {frame : Frame} (path : List Frame)
    (inherited : frame.passesPrimary = false) : substituting (frame :: path) = substituting path := by
  simp [substituting, inherited]

theorem substituting_primary {frame : Frame} (path : List Frame)
    (passes : frame.passesPrimary = true) :
    substituting (frame :: path) = (frame.id, frame.pending) :: substituting path := by
  simp [substituting, passes]

/-- The search along replacements as a walk has it. -/
def Gathers (source : Source) (ids : List CandidateId) (graph : CandidateGraph) (w : Walk) : Prop :=
  Gathering source ids graph w.primary w.promoted none (substituting w.path) w.requested

variable {w w' : Walk} {id : CandidateId}

/-- A visit as inherited makes nothing primary. -/
theorem Visits.gathers_inherited (visits : Visits source w id false w')
    (gathers : Gathers source ids graph w) : Gathers source ids graph w' := by
  cases visits with
  | again => exact gathers
  | promote asked => cases asked
  | pass asked => cases asked
  | redirect => exact gathers
  | expand => exact gathers
  | default => exact gathers

/-- A visit as primary makes primary what the id stands for, or what is visited next does. -/
theorem Visits.gathers_primary (described : graph.Describes source ids) (filed : Filed source w)
    (visits : Visits source w id true w')
    (gathering : Gathering source ids graph w.primary w.promoted (some id) (substituting w.path)
      w.requested) :
    Gathers source ids graph w' := by
  cases visits with
  | again visited promoted => exact gathering.again described (promoted rfl)
  -- Visited as inherited before, the id has its record already; visited first, it gets it now.
  | promote asked fresh found =>
    obtain ⟨rfl, live⟩ := filed.live id _ found
    exact gathering.live (described.resolve_of_live live)
  | pass asked fresh found =>
    obtain ⟨rfl, retired⟩ := filed.retired id _ found
    exact gathering.substitute described retired
  | redirect fresh retired => exact gathering.substitute described retired
  | expand fresh live available => exact gathering.live (described.resolve_of_live live)
  | default fresh live unavailable => exact gathering.live (described.resolve_of_live live)

theorem Gathers.move (described : graph.Describes source ids) (filed : Filed source w)
    (gathers : Gathers source ids graph w) (move : Move source w w') :
    Gathers source ids graph w' := by
  cases move with
  | @finish frame path inProgress done =>
    rw [Gathers, inProgress] at gathers
    cases passes : frame.passesPrimary with
    | false => rwa [substituting_inherited path passes] at gathers
    | true =>
      rw [substituting_primary path passes, done] at gathers
      exact gathers.leave described
  | @request _ id requested atTop left visits =>
    rw [Gathers, atTop, left] at gathers
    refine visits.gathers_primary described (filed.reschedule requested w.path) ?_
    rw [atTop]
    exact gathers.request
  | @follow _ frame path id pending inProgress left visits =>
    have rest := filed.reschedule w.requested ({ frame with pending } :: path)
    rw [Gathers, inProgress] at gathers
    obtain ⟨x, primary, waits, passes⟩ := frame
    cases passes with
    | false => exact visits.gathers_inherited gathers
    | true =>
      rw [substituting_primary path rfl, left] at gathers
      exact visits.gathers_primary described rest gathers.next

end Walk

/-- What the walk has made primary is what the ids stand for, in the order in which they stand for
it. -/
theorem CandidateGraph.primary_eq_requested {source : Source} {ids : List CandidateId}
    {graph : CandidateGraph} {explorable : source.Explorable ids}
    (built : (build source ids explorable).value = .ok graph) :
    graph.primary = graph.requested ids := by
  have described := describes_of_build built
  obtain ⟨steps, final⟩ := Process.steps_run explorable
  -- At the end nothing is due, so what was collected is the primary set.
  obtain ⟨atTop, left⟩ := Walk.ended_of_step_eq_none final
  have gathers := (Walk.invariant_of_steps (Walk.Gathers source ids graph)
    (fun _ _ filed gathers move => gathers.move described filed move)
    (Walk.Gathering.start described) steps).2
  have collected := gathers.collected
  rw [atTop, left] at collected
  obtain ⟨_, -, rfl⟩ := build_eq_ok_iff.mp built
  rw [requested_eq_ofList]
  exact collected

end Activation
