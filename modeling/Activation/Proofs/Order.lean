import Activation.Order.Finite
import Activation.Proofs.Placement
import Activation.Proofs.Primary
import Mathlib

/-!
# Correctness of activation orders

The main results, for every graph that is built over a source:

* `sort_meets_constraints`: an order meets all constraints between its ids, also those that pass
  through ids that were not asked for,
* `sort_eq_cycle_iff`: sorting fails exactly where the requests of the working set run in a circle,
  and the error names two ids of such a circle,
* `sort_total`: an order holds each id that the names ask for once and nothing else,
* `primary_eq_first_occurrences`: the primary ids are what the given ids stand for, in that order.

All of them come from the two invariants of the placement, and from what a graph says about its
source.
-/

namespace Activation

open Relation DepthFirst CandidateGraph

variable {source : Source} {ids names out : List CandidateId} {graph : CandidateGraph}
  {explorable : source.Explorable ids}

/-! ### Sources -/

/-- Assembled records carry edges only when they are available. -/
theorem Source.EdgesOnlyWhenAvailable.of_assembled
    (assembled : ∀ id, source.record id =
      if source.isAvailable id then
        Declaration.record
          { id, order := source.order id, before := source.before id, after := source.after id,
            replacedBy := source.replacements id }
      else (CandidateRecord.unavailable id).withReplacements (source.replacements id)) :
    source.EdgesOnlyWhenAvailable := by
  intro id unavailable
  rw [assembled] at unavailable ⊢
  split at unavailable
  · cases unavailable
  next absent =>
    rw [if_neg absent]
    exact ⟨rfl, rfl⟩

theorem CandidateIndex.source_edgesOnlyWhenAvailable (index : CandidateIndex) :
    index.source.EdgesOnlyWhenAvailable :=
  Source.EdgesOnlyWhenAvailable.of_assembled fun _ => rfl

/-! ### Sorting as a placement -/

/-- A result that can be computed is there if a check of it succeeds. -/
theorem exists_eq_ok_of_check {ε α : Type} {result : Except ε α} {p : α → Prop} [DecidablePred p]
    (checked : result.toOption.any (fun a => decide (p a)) = true) : ∃ a, result = .ok a ∧ p a := by
  cases result with
  | error _ => cases checked
  | ok a => exact ⟨a, rfl, of_decide_eq_true checked⟩

/-- The end of the placement that orders the names. -/
def CandidateGraph.placement (graph : CandidateGraph) (names : List CandidateId) : Placement :=
  Placement.run graph (graph.baseline (graph.requested names).toList)

/-- The ids that take part in the placement that orders the names. -/
def CandidateGraph.queue (graph : CandidateGraph) (names : List CandidateId) :
    List CandidateId :=
  (Placement.start graph (graph.baseline (graph.requested names).toList)).queue

theorem CandidateGraph.queue_eq (graph : CandidateGraph) (names : List CandidateId) :
    graph.queue names = graph.baseline (graph.requested names).toList ++
      graph.workingSet.filter fun id =>
        decide (id ∉ graph.baseline (graph.requested names).toList) := rfl

theorem value_sort (names : List CandidateId) (graph : CandidateGraph) :
    (sort names graph).value = match (graph.placement names).cycle with
      | some (a, b) => .error (.cycle a b)
      | none => .ok ((graph.placement names).sorted.toList.filter
          fun id => decide (id ∈ graph.requested names)) := by
  simp only [sort, placement, Reported.value_bind]
  cases (Placement.run graph (graph.baseline (graph.requested names).toList)).cycle with
  | none => rfl
  | some requests => rfl

theorem sort_eq_ok_iff :
    (sort names graph).value = .ok out ↔ (graph.placement names).cycle = none ∧
      out = (graph.placement names).sorted.toList.filter
        fun id => decide (id ∈ graph.requested names) := by
  rw [value_sort]
  split
  next closed => simp [closed]
  next noCycle => simp [noCycle, eq_comm]

theorem sort_eq_error_iff {error : OrderingError} :
    (sort names graph).value = .error error ↔
      ∃ a b, (graph.placement names).cycle = some (a, b) ∧ error = .cycle a b := by
  rw [value_sort]
  split
  next a b closed => simp [closed, eq_comm]
  next noCycle => simp [noCycle]

theorem value_orderCandidates (explorable : source.Explorable ids) :
    (orderCandidates source ids explorable).value =
      (build source ids explorable).value >>= fun graph => (sort ids graph).value := by
  simp only [orderCandidates, Reported.value_bind]
  cases (build source ids explorable).value <;> rfl

theorem orderCandidates_eq_ok_iff :
    (orderCandidates source ids explorable).value = .ok out ↔
      ∃ graph, (build source ids explorable).value = .ok graph ∧
        (sort ids graph).value = .ok out := by
  simp only [orderCandidates, Reported.value_bind]
  split
  next error failed => simp [failed]
  next graph built => simp [built]

theorem CandidateGraph.baseline_perm (graph : CandidateGraph) (ids : List CandidateId) :
    (graph.baseline ids).Perm ids :=
  (List.mergeSort_perm _ _).trans (List.mergeSort_perm _ _)

theorem mem_of_sort_eq_ok (sorted : (sort names graph).value = .ok out) {id : CandidateId} :
    id ∈ out ↔ id ∈ graph.requested names := by
  obtain ⟨noCycle, rfl⟩ := sort_eq_ok_iff.mp sorted
  rw [List.mem_filter, decide_eq_true_eq, IdSet.mem_toList]
  refine ⟨And.right, fun requested => ⟨?_, requested⟩⟩
  have queued : id ∈ graph.baseline (graph.requested names).toList :=
    (graph.baseline_perm _).mem_iff.mpr (IdSet.mem_toList.mpr requested)
  exact Placement.mem_sorted_run noCycle (Or.inl queued)

theorem nodup_of_sort_eq_ok (sorted : (sort names graph).value = .ok out) : out.Nodup := by
  obtain ⟨-, rfl⟩ := sort_eq_ok_iff.mp sorted
  exact (graph.placement names).sorted.nodup.filter _

namespace CandidateGraph.Describes

/-- Whatever an id asks for takes part in every placement. -/
theorem requestsAmong_queue (described : graph.Describes source ids)
    (bare : source.EdgesOnlyWhenAvailable) (names : List CandidateId) :
    graph.RequestsAmong (graph.queue names) = graph.Requests := by
  funext id other
  refine propext ⟨And.right, fun requests => ⟨?_, requests⟩⟩
  have precedes := described.mem_requestedAfter_iff.mp requests
  exact Placement.mem_queue_start.mpr
    (Or.inr (described.mem_workingSet_of_mustPrecede bare precedes))

theorem inOrder_placement (described : graph.Describes source ids)
    (bare : source.EdgesOnlyWhenAvailable) (names : List CandidateId) :
    InOrder graph.Requests (graph.placement names).sorted.toList := by
  rw [← described.requestsAmong_queue bare names]
  exact Placement.inOrder_sorted_run

/-- Where requests run in a circle through the working set, no placement comes to an end without
meeting it. -/
theorem cycle_placement_ne_none (described : graph.Describes source ids)
    (bare : source.EdgesOnlyWhenAvailable) (names : List CandidateId) {id : CandidateId}
    (member : id ∈ graph.workingSet) (circle : TransGen graph.Requests id id) :
    (graph.placement names).cycle ≠ none := by
  intro noCycle
  have placed : id ∈ (graph.placement names).sorted :=
    Placement.mem_sorted_run noCycle (Or.inr member)
  have ordered := described.inOrder_placement bare names
  exact not_transGen_self (ordered.acc (IdSet.mem_toList.mpr placed)) circle

end CandidateGraph.Describes

/-! ### Constraints are met -/

/-- A service behind a cache, the cache behind a database that is retired. -/
def webStack : CandidateIndex := .ofEntries
  [(⟨"web"⟩, { after := [⟨"cache"⟩] }), (⟨"cache"⟩, { after := [⟨"db"⟩] }),
    (⟨"db"⟩, { before := [⟨"log"⟩], replacedBy := [⟨"pg"⟩] }),
    (⟨"legacy"⟩, { replacedBy := [⟨"db"⟩, ⟨"web"⟩] }), (⟨"pg"⟩, { order := some 5 })]

/-- If an id of an order must be preceded by another one, if only through ids that were not asked
for, then the other one stands before it. -/
theorem sort_meets_constraints (bare : source.EdgesOnlyWhenAvailable)
    (built : (build source ids explorable).value = .ok graph)
    (sorted : (sort names graph).value = .ok out) :
    ∀ x ∈ out, ∀ y ∈ out,
      TransGen (fun later earlier => MustPrecede source graph earlier later) x y →
        out.idxOf y < out.idxOf x := by
  intro x inOut y alsoInOut chain
  have described := describes_of_build built
  have distinct := nodup_of_sort_eq_ok sorted
  have requested : y ∈ graph.requested names := (mem_of_sort_eq_ok sorted).mp alsoInOut
  have requests : TransGen graph.Requests x y :=
    TransGen.mono (fun _ _ precedes => described.mem_requestedAfter_iff.mpr precedes) x y chain
  obtain ⟨-, rfl⟩ := sort_eq_ok_iff.mp sorted
  -- The chain may leave the order, so it is followed in the placement, before the projection.
  have placed := (described.inOrder_placement bare names).transGen
  have kept := placed.filter fun id => decide (id ∈ graph.requested names)
  exact kept.idxOf_lt distinct inOut ⟨requests, decide_eq_true requested⟩

theorem sort_meets_constraints_webStack :
    ∃ graph, (build webStack.source [⟨"web"⟩, ⟨"pg"⟩]
        (webStack.source_finite.explorable _)).value = .ok graph ∧
      ∃ out : List CandidateId, (sort [⟨"web"⟩, ⟨"pg"⟩] graph).value = .ok out ∧ ⟨"cache"⟩ ∉ out ∧
        out.idxOf ⟨"pg"⟩ < out.idxOf ⟨"web"⟩ := by
  obtain ⟨graph, built, sorted, first, second⟩ :
      ∃ graph, (build webStack.source [⟨"web"⟩, ⟨"pg"⟩]
          (webStack.source_finite.explorable _)).value = .ok graph ∧
        (sort [⟨"web"⟩, ⟨"pg"⟩] graph).value = .ok [⟨"pg"⟩, ⟨"web"⟩] ∧
        ⟨"cache"⟩ ∈ graph.requestedAfter ⟨"web"⟩ ∧ ⟨"pg"⟩ ∈ graph.requestedAfter ⟨"cache"⟩ :=
    exists_eq_ok_of_check (by simp only [Bool.decide_and]; cbv)
  have described := describes_of_build built
  refine ⟨graph, built, _, sorted, by decide, ?_⟩
  -- `cache` was not asked for; the chain from `web` to `pg` passes through it.
  refine sort_meets_constraints webStack.source_edgesOnlyWhenAvailable built sorted
    ⟨"web"⟩ (by decide) ⟨"pg"⟩ (by decide) ?_
  exact .tail (.single (described.mem_requestedAfter_iff.mp first))
    (described.mem_requestedAfter_iff.mp second)

/-! ### Cycles are found -/

/-- Two services that wait for each other and that nothing else waits for. -/
def deadlock : CandidateIndex := .ofEntries
  [(⟨"app"⟩, { before := [⟨"left"⟩] }), (⟨"left"⟩, { after := [⟨"right"⟩] }),
    (⟨"right"⟩, { after := [⟨"left"⟩] })]

theorem CandidateGraph.Describes.transGen_requests (described : graph.Describes source ids)
    (bare : source.EdgesOnlyWhenAvailable) {id other : CandidateId}
    (chain : TransGen graph.Requests id other) :
    TransGen (fun x y => y ∈ graph.workingSet ∧ graph.Requests x y) id other := by
  refine TransGen.mono (fun x y requests => ⟨?_, requests⟩) id other chain
  exact described.mem_workingSet_of_mustPrecede bare (described.mem_requestedAfter_iff.mp requests)

/-- The ids that an error names ask for each other, if only through others. -/
theorem CandidateGraph.Describes.requests_of_sort_eq_cycle (described : graph.Describes source ids)
    (bare : source.EdgesOnlyWhenAvailable) {a b : CandidateId}
    (failed : (sort names graph).value = .error (.cycle a b)) :
    graph.Requests a b ∧ ReflTransGen graph.Requests b a := by
  obtain ⟨x, y, closed, same⟩ := sort_eq_error_iff.mp failed
  obtain ⟨rfl, rfl⟩ := OrderingError.cycle.inj same
  rw [← described.requestsAmong_queue bare names]
  exact Placement.cycle_run closed

/-- Sorting fails where the requests of the working set run in a circle, whatever the names, and
nowhere else. The ids that the error names lie on a common circle. -/
theorem sort_eq_cycle_iff (bare : source.EdgesOnlyWhenAvailable)
    (built : (build source ids explorable).value = .ok graph) (names : List CandidateId) :
    ((∃ a b, (sort names graph).value = .error (.cycle a b)) ↔
      ∃ id ∈ graph.workingSet,
        TransGen (fun x y => y ∈ graph.workingSet ∧ y ∈ graph.requestedAfter x) id id) ∧
    ∀ a b, (sort names graph).value = .error (.cycle a b) →
      b ∈ graph.requestedAfter a ∧
        (a = b ∨ TransGen (fun x y => y ∈ graph.requestedAfter x) b a) := by
  have described := describes_of_build built
  refine ⟨⟨?_, ?_⟩, fun a b failed => ?_⟩
  · rintro ⟨a, b, failed⟩
    obtain ⟨requests, back⟩ := described.requests_of_sort_eq_cycle bare failed
    have circle := described.transGen_requests bare (TransGen.tail' back requests)
    -- The last request of the circle is for `b`, so `b` takes part.
    obtain ⟨_, -, member, -⟩ := TransGen.tail'_iff.mp circle
    exact ⟨b, member, circle⟩
  · -- A placement without a cycle would stand in order, and an order has no circle.
    rintro ⟨id, member, circle⟩
    have requests := TransGen.mono (fun _ _ step => step.2) id id circle
    obtain ⟨⟨a, b⟩, closed⟩ :=
      Option.ne_none_iff_exists'.mp (described.cycle_placement_ne_none bare names member requests)
    exact ⟨a, b, sort_eq_error_iff.mpr ⟨a, b, closed, rfl⟩⟩
  · obtain ⟨requests, back⟩ := described.requests_of_sort_eq_cycle bare failed
    refine ⟨requests, ?_⟩
    rcases reflTransGen_iff_eq_or_transGen.mp back with same | chain
    · exact Or.inl same
    · exact Or.inr chain

theorem sort_eq_cycle_inherited :
    ∃ graph, (build deadlock.source [⟨"app"⟩] (deadlock.source_finite.explorable _)).value =
        .ok graph ∧
      ∃ a b, (sort [⟨"elsewhere"⟩] graph).value = .error (.cycle a b) ∧
        b ∈ graph.requestedAfter a ∧
        (a = b ∨ TransGen (fun x y => y ∈ graph.requestedAfter x) b a) := by
  obtain ⟨graph, built, member, other, first, second⟩ :
      ∃ graph, (build deadlock.source [⟨"app"⟩] (deadlock.source_finite.explorable _)).value =
          .ok graph ∧
        ⟨"left"⟩ ∈ graph.workingSet ∧ ⟨"right"⟩ ∈ graph.workingSet ∧
        ⟨"right"⟩ ∈ graph.requestedAfter ⟨"left"⟩ ∧ ⟨"left"⟩ ∈ graph.requestedAfter ⟨"right"⟩ :=
    exists_eq_ok_of_check (by simp only [Bool.decide_and]; cbv)
  obtain ⟨found, sound⟩ := sort_eq_cycle_iff deadlock.source_edgesOnlyWhenAvailable built
    [⟨"elsewhere"⟩]
  obtain ⟨a, b, failed⟩ := found.mpr
    ⟨⟨"left"⟩, member, .tail (.single ⟨other, first⟩) ⟨member, second⟩⟩
  exact ⟨graph, built, a, b, failed, sound a b failed⟩

/-! ### Orders are total -/

/-- An order holds each id that the names ask for once, and nothing else. An order of the ids that a
graph was built for holds its primary ids, none of which is retired. -/
theorem sort_total (source : Source) (ids : List CandidateId) (explorable : source.Explorable ids) :
    (∀ (graph : CandidateGraph) (names out : List CandidateId), (sort names graph).value = .ok out →
      out.Nodup ∧ ∀ id, id ∈ out ↔ ∃ name ∈ names, id ∈ graph.resolve name) ∧
    ∀ out, (orderCandidates source ids explorable).value = .ok out →
      ∃ graph, (build source ids explorable).value = .ok graph ∧
        out.Perm graph.primary.toList ∧ ∀ id ∈ out, (source.record id).isDeprecated = false := by
  refine ⟨fun graph names out sorted => ⟨nodup_of_sort_eq_ok sorted, fun id => ?_⟩, ?_⟩
  · exact (mem_of_sort_eq_ok sorted).trans mem_requested
  · intro out ordered
    obtain ⟨graph, built, sorted⟩ := orderCandidates_eq_ok_iff.mp ordered
    have described := describes_of_build built
    refine ⟨graph, built, ?_, fun id member => ?_⟩
    · rw [primary_eq_requested built,
        List.perm_ext_iff_of_nodup (nodup_of_sort_eq_ok sorted) (IdSet.nodup _)]
      exact fun id => (mem_of_sort_eq_ok sorted).trans IdSet.mem_toList.symm
    · obtain ⟨name, given, standsFor⟩ := mem_requested.mp ((mem_of_sort_eq_ok sorted).mp member)
      exact described.not_deprecated
        (described.mem_workingSet_of_mem_resolve (described.requested name given) standsFor)

theorem sort_total_webStack :
    ∃ graph, (build webStack.source [⟨"db"⟩, ⟨"legacy"⟩]
        (webStack.source_finite.explorable _)).value = .ok graph ∧
      (∃ out : List CandidateId,
        (sort [⟨"legacy"⟩, ⟨"web"⟩, ⟨"mail"⟩, ⟨"web"⟩] graph).value = .ok out ∧
        out.Nodup ∧ ⟨"mail"⟩ ∈ out ∧ ⟨"pg"⟩ ∈ out ∧ ⟨"cache"⟩ ∉ out) ∧
      ∃ out : List CandidateId, (orderCandidates webStack.source [⟨"db"⟩, ⟨"legacy"⟩]
          (webStack.source_finite.explorable _)).value = .ok out ∧
        out.Perm graph.primary.toList := by
  obtain ⟨graph, built, sorted, total, replaced, outside⟩ :
      ∃ graph, (build webStack.source [⟨"db"⟩, ⟨"legacy"⟩]
          (webStack.source_finite.explorable _)).value = .ok graph ∧
        (sort [⟨"legacy"⟩, ⟨"web"⟩, ⟨"mail"⟩, ⟨"web"⟩] graph).value =
          .ok [⟨"mail"⟩, ⟨"pg"⟩, ⟨"web"⟩] ∧
        (sort [⟨"db"⟩, ⟨"legacy"⟩] graph).value = .ok [⟨"pg"⟩, ⟨"web"⟩] ∧
        ⟨"pg"⟩ ∈ graph.resolve ⟨"legacy"⟩ ∧ ⟨"mail"⟩ ∈ graph.resolve ⟨"mail"⟩ :=
    exists_eq_ok_of_check (by simp only [Bool.decide_and]; cbv)
  have ordered := orderCandidates_eq_ok_iff.mpr ⟨graph, built, total⟩
  obtain ⟨each, whole⟩ := sort_total webStack.source [⟨"db"⟩, ⟨"legacy"⟩]
    (webStack.source_finite.explorable _)
  obtain ⟨distinct, members⟩ := each graph _ _ sorted
  have listed : (⟨"mail"⟩ : CandidateId) ∈ [⟨"mail"⟩, ⟨"pg"⟩, ⟨"web"⟩] :=
    (members ⟨"mail"⟩).mpr ⟨⟨"mail"⟩, by decide, outside⟩
  have substituted : (⟨"pg"⟩ : CandidateId) ∈ [⟨"mail"⟩, ⟨"pg"⟩, ⟨"web"⟩] :=
    (members ⟨"pg"⟩).mpr ⟨⟨"legacy"⟩, by decide, replaced⟩
  obtain ⟨other, again, same, -⟩ := whole _ ordered
  rw [built] at again
  cases again
  exact ⟨graph, built, ⟨_, sorted, distinct, listed, substituted, by decide⟩, _, ordered, same⟩

/-! ### Primary ids -/

/-- The primary ids are what the given ids stand for, each one where it is first stood for, and
these are the ids that an order of the given ids holds. -/
theorem primary_eq_first_occurrences
    (built : (build source ids explorable).value = .ok graph) :
    graph.primary.toList = (ids.flatMap graph.resolve).eraseDups ∧
    graph.primary = graph.requested ids ∧
    ∀ out, (sort ids graph).value = .ok out → ∀ id, id ∈ out ↔ id ∈ graph.primary := by
  have agree := primary_eq_requested built
  refine ⟨?_, agree, fun out sorted id => ?_⟩
  · rw [agree, requested_eq_ofList, IdSet.toList_ofList]
  · rw [agree]
    exact mem_of_sort_eq_ok sorted

theorem primary_eq_first_occurrences_webStack :
    ∃ graph, (build webStack.source [⟨"web"⟩, ⟨"legacy"⟩, ⟨"db"⟩]
        (webStack.source_finite.explorable _)).value = .ok graph ∧
      ([⟨"web"⟩, ⟨"legacy"⟩, ⟨"db"⟩].flatMap graph.resolve).eraseDups = [⟨"web"⟩, ⟨"pg"⟩] ∧
      ∃ out, (sort [⟨"web"⟩, ⟨"legacy"⟩, ⟨"db"⟩] graph).value = .ok out ∧
        out = [⟨"pg"⟩, ⟨"web"⟩] ∧ ∀ id, id ∈ out ↔ id ∈ graph.primary := by
  obtain ⟨graph, built, reached, sorted⟩ :
      ∃ graph, (build webStack.source [⟨"web"⟩, ⟨"legacy"⟩, ⟨"db"⟩]
          (webStack.source_finite.explorable _)).value = .ok graph ∧
        graph.primary.toList = [⟨"web"⟩, ⟨"pg"⟩] ∧
        (sort [⟨"web"⟩, ⟨"legacy"⟩, ⟨"db"⟩] graph).value = .ok [⟨"pg"⟩, ⟨"web"⟩] :=
    exists_eq_ok_of_check (by simp only [Bool.decide_and]; cbv)
  obtain ⟨listed, -, members⟩ := primary_eq_first_occurrences built
  exact ⟨graph, built, listed ▸ reached, _, sorted, rfl, members _ sorted⟩

end Activation
