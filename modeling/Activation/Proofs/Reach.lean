import Activation.Proofs.Graph
import Mathlib.Data.Set.Finite.Basic

/-!
# What is reached from the requested ids

`Source.Reaches` says which ids matter for the order of the given ones, without a walk: the given
ids, and all that an id which matters leads to. `Walk.Explored` shows that a walk misses none of
them; here the walk is shown to find nothing else (`Walk.Grounded`), so the ids of a graph are those
that are reached (`CandidateGraph.mem_workingSet_iff`, `CandidateGraph.isDeprecated_iff`).
-/

namespace Activation

/-- The ids that matter for the order of the given ones. -/
inductive Source.Reaches (source : Source) (ids : List CandidateId) : CandidateId → Prop
  | requested {id : CandidateId} (member : id ∈ ids) : source.Reaches ids id
  | led {id other : CandidateId} (reached : source.Reaches ids id)
      (leads : source.LeadsTo id other) : source.Reaches ids other

namespace Walk

variable {source : Source} {ids : List CandidateId} {w w' : Walk} {id other : CandidateId}
  {primary : Bool}

/-! ### Nothing else is scheduled -/

/-- The visit of an id schedules what the id leads to, and nothing more. -/
theorem Visits.scheduled_of_scheduled (visits : Visits source w id primary w')
    (filed : Filed source w) (scheduled : Scheduled w' other) :
    Scheduled w other ∨ other = id ∨ source.LeadsTo id other := by
  -- Two things can be new: the id itself is visited now, and one frame may be on top of the path.
  have visited : other ∈ w.visited.insert id →
      Scheduled w other ∨ other = id ∨ source.LeadsTo id other := by
    intro member
    rcases IdSet.mem_insert.mp member with old | same
    · exact Or.inl (Or.inl old)
    · exact Or.inr (Or.inl same)
  have pending : ∀ top : Frame, (∀ next ∈ top.pending, source.LeadsTo id next) →
      (∃ frame ∈ top :: w.path, other ∈ frame.pending) →
      Scheduled w other ∨ other = id ∨ source.LeadsTo id other := by
    rintro top leads ⟨frame, member, waits⟩
    rcases List.mem_cons.mp member with rfl | deeper
    · exact Or.inr (Or.inr (leads other waits))
    · exact Or.inl (Or.inr (Or.inr ⟨frame, deeper, waits⟩))
  cases visits with
  | again => exact Or.inl scheduled
  | promote => exact Or.inl scheduled
  | pass asked fresh found =>
    -- The record of a retired id is filed when the id is promoted, and it is the source's.
    obtain ⟨rfl, -⟩ := filed.retired id _ found
    rcases scheduled with old | waits | waits
    · exact Or.inl (Or.inl old)
    · exact Or.inl (Or.inr (Or.inl waits))
    · exact pending _ (fun next replaces => Or.inl replaces) waits
  | redirect fresh retired =>
    rcases scheduled with member | waits | waits
    · exact visited member
    · exact Or.inl (Or.inr (Or.inl waits))
    · exact pending _ (fun next replaces => Or.inl replaces) waits
  | expand fresh live available =>
    rcases scheduled with member | waits | waits
    · exact visited member
    · exact Or.inl (Or.inr (Or.inl waits))
    · exact pending _ (fun next named => Or.inr ⟨live, available, named⟩) waits
  | default fresh live unavailable =>
    rcases scheduled with member | waits | waits
    · exact visited member
    · exact Or.inl (Or.inr (Or.inl waits))
    · exact Or.inl (Or.inr (Or.inr waits))

/-- Everything that a walk has visited or has still to visit is reached from the given ids. -/
def Grounded (source : Source) (ids : List CandidateId) (w : Walk) : Prop :=
  ∀ id, Scheduled w id → source.Reaches ids id

theorem grounded_start : Grounded source ids (start ids) := by
  rintro id (visited | requested | ⟨frame, member, -⟩)
  · cases visited
  · exact .requested requested
  · cases member

/-- The id that is visited was scheduled, and so was all that is left of the schedule. -/
theorem Grounded.visits {taken : Walk} (grounded : Grounded source ids w)
    (filed : Filed source taken) (here : Scheduled w id)
    (rest : ∀ other, Scheduled taken other → Scheduled w other)
    (visits : Visits source taken id primary w') : Grounded source ids w' := by
  intro other scheduled
  have reached : source.Reaches ids id := grounded id here
  rcases visits.scheduled_of_scheduled filed scheduled with before | rfl | leads
  · exact grounded other (rest other before)
  · exact reached
  · exact .led reached leads

theorem Grounded.move (grounded : Grounded source ids w) (filed : Filed source w)
    (move : Move source w w') : Grounded source ids w' := by
  cases move with
  | @finish frame path inProgress done =>
    intro other scheduled
    refine grounded other (scheduled.imp_right (Or.imp_right ?_))
    rintro ⟨visit, member, waits⟩
    exact ⟨visit, inProgress ▸ List.mem_cons_of_mem frame member, waits⟩
  | @request _ id requested atTop left visits =>
    have here : Scheduled w id := Or.inr (Or.inl (left ▸ List.mem_cons_self))
    refine grounded.visits (filed.reschedule requested w.path) here ?_ visits
    intro other scheduled
    refine scheduled.imp_right (Or.imp_left fun waits => ?_)
    exact left ▸ List.mem_cons_of_mem id waits
  | @follow _ frame path id pending inProgress left visits =>
    have innermost : frame ∈ w.path := inProgress ▸ List.mem_cons_self
    have here : Scheduled w id := Or.inr (Or.inr ⟨frame, innermost, left ▸ List.mem_cons_self⟩)
    have kept := filed.reschedule w.requested ({ frame with pending } :: path)
    refine grounded.visits kept here ?_ visits
    intro other scheduled
    refine scheduled.imp_right (Or.imp_right ?_)
    rintro ⟨visit, member, waits⟩
    rcases List.mem_cons.mp member with rfl | deeper
    · exact ⟨frame, innermost, left ▸ List.mem_cons_of_mem id waits⟩
    · exact ⟨visit, inProgress ▸ List.mem_cons_of_mem frame deeper, waits⟩

/-! ### The end of a walk -/

theorem mem_visited_run_iff (explorable : source.Explorable ids) :
    id ∈ (run source ids explorable).visited ↔ source.Reaches ids id := by
  constructor
  · intro visited
    have steps := (Process.steps_run explorable).1
    have grounded := (invariant_of_steps (Grounded source ids)
      (fun _ _ filed grounded move => grounded.move filed move) grounded_start steps).2
    exact grounded id (Or.inl visited)
  · intro reached
    induction reached with
    | requested member => exact mem_visited_run explorable member
    | led _ leads ih => exact visited_closed_run explorable ih leads

/-- A walk comes to an end exactly where it reaches only finitely many ids. -/
theorem explorable_iff : source.Explorable ids ↔ {id | source.Reaches ids id}.Finite := by
  constructor
  · intro explorable
    refine (List.finite_toSet (run source ids explorable).visited.toList).subset ?_
    intro id reached
    exact IdSet.mem_toList.mpr ((mem_visited_run_iff explorable).mpr reached)
  · intro finite
    have listed : ∀ id, id ∈ finite.toFinset.toList ↔ source.Reaches ids id := by simp
    refine halts_of_closed finite.toFinset.toList (fun id pooled => ?_) fun id member =>
      (listed id).mpr (.requested member)
    have reached := (listed id).mp pooled
    constructor
    · intro other replaces
      exact (listed other).mpr (.led reached (Or.inl replaces))
    · intro live available other named
      exact (listed other).mpr (.led reached (Or.inr ⟨live, available, named⟩))

theorem Filed.live_of_mem (filed : Filed source w) (member : id ∈ w.records.keys) :
    (source.record id).isDeprecated = false := by
  obtain ⟨record, found⟩ := IdMap.mem_keys_iff.mp member
  obtain ⟨rfl, live⟩ := filed.live id record found
  exact live

theorem Filed.retired_of_mem (filed : Filed source w) (member : id ∈ w.deprecated.keys) :
    (source.record id).isDeprecated = true := by
  obtain ⟨record, found⟩ := IdMap.mem_keys_iff.mp member
  obtain ⟨rfl, retired⟩ := filed.retired id record found
  exact retired

/-- The walk files the record of each reached id, those of retired ids apart from the others. -/
theorem mem_records_run_iff (explorable : source.Explorable ids) :
    id ∈ (run source ids explorable).records.keys ↔
      source.Reaches ids id ∧ (source.record id).isDeprecated = false := by
  have filed := filed_run explorable
  rw [← mem_visited_run_iff explorable, filed.visited]
  constructor
  · intro member
    exact ⟨Or.inl member, filed.live_of_mem member⟩
  · rintro ⟨here | there, live⟩
    · exact here
    · rw [filed.retired_of_mem there] at live
      cases live

theorem mem_deprecated_run_iff (explorable : source.Explorable ids) :
    id ∈ (run source ids explorable).deprecated.keys ↔
      source.Reaches ids id ∧ (source.record id).isDeprecated = true := by
  have filed := filed_run explorable
  rw [← mem_visited_run_iff explorable, filed.visited]
  constructor
  · intro member
    exact ⟨Or.inr member, filed.retired_of_mem member⟩
  · rintro ⟨here | there, retired⟩
    · rw [filed.live_of_mem here] at retired
      cases retired
    · exact there

end Walk

namespace CandidateGraph

variable {source : Source} {ids : List CandidateId} {graph : CandidateGraph} {id : CandidateId}
  {explorable : source.Explorable ids}

/-! ### The ids of a graph -/

theorem mem_workingSet_iff (built : (build source ids explorable).value = .ok graph) :
    id ∈ graph.workingSet ↔
      source.Reaches ids id ∧ (source.record id).isDeprecated = false := by
  obtain ⟨_, -, rfl⟩ := build_eq_ok_iff.mp built
  exact Walk.mem_records_run_iff explorable

theorem isDeprecated_iff (built : (build source ids explorable).value = .ok graph) :
    graph.isDeprecated id = true ↔
      source.Reaches ids id ∧ (source.record id).isDeprecated = true := by
  obtain ⟨_, -, rfl⟩ := build_eq_ok_iff.mp built
  exact IdMap.contains_iff.trans (Walk.mem_deprecated_run_iff explorable)

theorem knows_iff (built : (build source ids explorable).value = .ok graph) :
    graph.Knows id ↔ source.Reaches ids id := by
  rw [Knows, mem_workingSet_iff built]
  constructor
  · rintro (live | retired)
    · exact live.1
    · exact ((isDeprecated_iff built).mp (IdMap.contains_iff.mpr retired)).1
  · intro reached
    cases state : (source.record id).isDeprecated with
    | false => exact Or.inl ⟨reached, rfl⟩
    | true => exact Or.inr (IdMap.contains_iff.mp ((isDeprecated_iff built).mpr ⟨reached, state⟩))

theorem isDeprecated_eq_false (built : (build source ids explorable).value = .ok graph)
    (member : id ∈ graph.workingSet) : graph.isDeprecated id = false := by
  have live := ((mem_workingSet_iff built).mp member).2
  cases held : graph.isDeprecated id with
  | false => rfl
  | true =>
    rw [((isDeprecated_iff built).mp held).2] at live
    cases live

end CandidateGraph

end Activation
