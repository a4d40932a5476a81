import Activation.Proofs.Agreement
import Activation.Proofs.Lockstep
import Activation.Proofs.Priority

/-!
# The order of the request

The baseline forgets in which order the ids were requested, but the working set does not. It decides
in which order an id lists those that declare to precede it, and in this order they are placed. So
requests for the same ids may lead to different orders (`order_depends_on_request`).

The orders differ only among ids of one rank, and they do not differ at all where the ids that are
needed list the same ids in the same order (`orders_of_same_ids`).

It is only through the graph that a request can do this: over one graph, names that ask for the same
ids are sorted in the same way (`sort_ignores_naming`).
-/

namespace Activation

open Relation DepthFirst CandidateGraph

variable {source : Source} {ids ids' names names' out out' baseline : List CandidateId}
  {graph graph' : CandidateGraph} {explorable : source.Explorable ids}
  {explorable' : source.Explorable ids'} {id : CandidateId}

/-! ### One graph -/

namespace CandidateGraph

variable (same : ∀ id, id ∈ graph.requested names ↔ id ∈ graph.requested names')

include same

theorem baseline_requested_congr :
    graph.baseline (graph.requested names).toList =
      graph.baseline (graph.requested names').toList := by
  apply (isBaseline_baseline graph names).eq (isBaseline_baseline graph names')
  · intro id
    rw [(graph.baseline_perm _).mem_iff, (graph.baseline_perm _).mem_iff]
    exact same id
  · exact fun _ _ => rfl

theorem size_requested_congr : (graph.requested names).size = (graph.requested names').size :=
  ((List.perm_ext_iff_of_nodup (IdSet.nodup _) (IdSet.nodup _)).mpr same).length_eq

end CandidateGraph

/-- Names that ask for the same ids are sorted in the same way: to the same order or the same error,
and with the same events. In which order the names come, how often each one does, and whether an id
is asked for by its own name or by that of a retired id it replaces, makes no difference. -/
theorem sort_ignores_naming
    (same : ∀ id, (∃ name ∈ names, id ∈ graph.resolve name) ↔
      ∃ name ∈ names', id ∈ graph.resolve name) :
    sort names graph = sort names' graph := by
  have requested : ∀ id, id ∈ graph.requested names ↔ id ∈ graph.requested names' := by
    intro id
    rw [mem_requested, mem_requested]
    exact same id
  -- The baseline is made of the requested ids alone; then only membership among them is looked at.
  rw [sort, sort, baseline_requested_congr requested, size_requested_congr requested]
  simp only [requested]

/-- A retired name and a name from outside of the graph, and on the other side what they ask for. -/
theorem sort_ignores_naming_webStack :
    ∃ graph, (build webStack.source [⟨"db"⟩, ⟨"legacy"⟩]
        (webStack.source_finite.explorable _)).value = .ok graph ∧
      sort [⟨"legacy"⟩, ⟨"mail"⟩] graph =
        sort [⟨"mail"⟩, ⟨"web"⟩, ⟨"db"⟩, ⟨"web"⟩] graph ∧
      (sort [⟨"legacy"⟩, ⟨"mail"⟩] graph).value =
        .ok [⟨"mail"⟩, ⟨"pg"⟩, ⟨"web"⟩] := by
  obtain ⟨graph, built, legacy, mail, web, db, sorted⟩ :
      ∃ graph, (build webStack.source [⟨"db"⟩, ⟨"legacy"⟩]
          (webStack.source_finite.explorable _)).value = .ok graph ∧
        graph.resolve ⟨"legacy"⟩ = [⟨"pg"⟩, ⟨"web"⟩] ∧ graph.resolve ⟨"mail"⟩ = [⟨"mail"⟩] ∧
        graph.resolve ⟨"web"⟩ = [⟨"web"⟩] ∧ graph.resolve ⟨"db"⟩ = [⟨"pg"⟩] ∧
        (sort [⟨"legacy"⟩, ⟨"mail"⟩] graph).value = .ok [⟨"mail"⟩, ⟨"pg"⟩, ⟨"web"⟩] :=
    exists_eq_ok_of_check (by simp only [Bool.decide_and]; cbv)
  refine ⟨graph, built, sort_ignores_naming fun id => ?_, sorted⟩
  simp only [List.mem_cons, List.not_mem_nil, or_false, exists_eq_or_imp, exists_eq_left, legacy,
    mail, web, db]
  tauto

/-! ### Lists of requests -/

/-- Lists with the same members are equal if they begin alike and have at most one member behind
that. -/
theorem eq_of_prefix_of_unique {α : Type} {front xs ys : List α} (first : front <+: xs)
    (second : front <+: ys) (distinct : xs.Nodup) (distinct' : ys.Nodup)
    (same : ∀ x, x ∈ xs ↔ x ∈ ys)
    (unique : ∀ x ∈ xs, ∀ y ∈ xs, x ∉ front → y ∉ front → x = y) : xs = ys := by
  obtain ⟨more, rfl⟩ := first
  obtain ⟨more', rfl⟩ := second
  have permuted : more.Perm more' := (List.perm_append_left_iff front).mp
    ((List.perm_ext_iff_of_nodup distinct distinct').mpr same)
  have apart := (List.nodup_append.mp distinct).2.2
  have behind : ∀ x ∈ more, x ∉ front := fun x later early => apart x early x later rfl
  -- All members of `more` are equal, so there is no order among them.
  have equal : ∀ x y, x ∈ more → y ∈ more' → True → True → x = y := by
    intro x y first second _ _
    have second := permuted.mem_iff.mpr second
    exact unique x (List.mem_append_right _ first) y (List.mem_append_right _ second)
      (behind x first) (behind y second)
  rw [List.Perm.eq_of_pairwise equal (List.pairwise_of_forall fun _ _ => trivial)
    (List.pairwise_of_forall fun _ _ => trivial) permuted]

namespace CandidateGraph

/-- What an id must wait for is listed in the same order in both graphs if at most one of these ids is
not declared by the id itself. -/
theorem Agrees.requestedAfter_eq (agrees : graph.Agrees graph')
    (described : graph.Describes source ids) (described' : graph'.Describes source ids')
    (unique : ∀ x ∈ graph.requestedAfter id, ∀ y ∈ graph.requestedAfter id,
      x ∉ graph.after id → y ∉ graph.after id → x = y) :
    graph.requestedAfter id = graph'.requestedAfter id := by
  have first := described.prefix_requestedAfter id
  have second := described'.prefix_requestedAfter id
  rw [← agrees.after] at second
  exact IdSet.ext (eq_of_prefix_of_unique first second (IdSet.nodup _) (IdSet.nodup _)
    (agrees.requestedAfter id) unique)

/-- The id is one of the given ids, or one of them asks for it, if only through others that take
part. -/
def NeededBy (graph : CandidateGraph) (roots : List CandidateId) (id : CandidateId) : Prop :=
  ∃ root ∈ roots, ReflTransGen (graph.RequestsAmong graph.workingSet) root id

theorem Describes.mem_workingSet_of_neededBy (described : graph.Describes source ids)
    (isBaseline : graph.IsBaseline ids baseline) (needed : graph.NeededBy baseline id) :
    id ∈ graph.workingSet := by
  obtain ⟨root, member, chain⟩ := needed
  -- The last request of the chain is for an id that takes part; without requests the id is a root.
  rcases ReflTransGen.cases_tail chain with same | ⟨_, -, takesPart, -⟩
  · obtain ⟨name, given, standsFor⟩ := (isBaseline.members root).mp member
    exact same ▸ described.mem_workingSet_of_requested (mem_requested.mpr ⟨name, given, standsFor⟩)
  · exact takesPart

theorem Describes.alike (described : graph.Describes source ids)
    (requests : ∀ id, graph.NeededBy baseline id →
      graph.requestedAfter id = graph'.requestedAfter id) :
    Placement.Alike graph graph' (graph.queue ids) (graph.NeededBy baseline) := by
  refine ⟨requests, ?_⟩
  rintro id other ⟨root, member, chain⟩ ⟨takesPart, asked⟩
  exact ⟨root, member, chain.tail ⟨described.mem_queue_iff.mp takesPart, asked⟩⟩

end CandidateGraph

/-! ### Orders of the same ids -/

section SameIds

variable (same : ∀ id, id ∈ ids ↔ id ∈ ids')
  (built : (build source ids explorable).value = .ok graph)
  (built' : (build source ids' explorable').value = .ok graph')

include same built built'

namespace CandidateGraph

theorem agrees_of_same : graph.Agrees graph' :=
  agrees_of_reaches_iff (fun _ => Source.reaches_congr same) built built'

theorem mem_requested_congr (id : CandidateId) :
    id ∈ graph.requested ids ↔ id ∈ graph'.requested ids' := by
  rw [← primary_eq_requested built, ← primary_eq_requested built', mem_primary_iff same built built']

theorem mem_queue_congr (id : CandidateId) : id ∈ graph.queue ids ↔ id ∈ graph'.queue ids' := by
  rw [(describes_of_build built).mem_queue_iff, (describes_of_build built').mem_queue_iff]
  exact (agrees_of_same same built built').workingSet id

theorem baseline_eq :
    graph.baseline (graph.requested ids).toList = graph'.baseline (graph'.requested ids').toList := by
  have requested := mem_requested_congr same built built'
  apply (isBaseline_baseline graph ids).eq (isBaseline_baseline graph' ids')
  · intro id
    rw [(graph.baseline_perm _).mem_iff, (graph'.baseline_perm _).mem_iff]
    exact requested id
  · -- Both graphs have the order values of the source.
    intro id member
    have member : id ∈ graph.requested ids := (graph.baseline_perm _).mem_iff.mp member
    have here := (describes_of_build built).mem_workingSet_of_requested member
    have there := (describes_of_build built').mem_workingSet_of_requested ((requested id).mp member)
    rw [(describes_of_build built).order_eq here, (describes_of_build built').order_eq there]

end CandidateGraph

variable (sorted : (sort ids graph).value = .ok out) (sorted' : (sort ids' graph').value = .ok out')

include sorted sorted'

theorem map_rank_eq :
    out.map (rank (graph.RequestsAmong graph.workingSet)
        (graph.baseline (graph.requested ids).toList)) =
      out'.map (rank (graph.RequestsAmong graph.workingSet)
        (graph.baseline (graph.requested ids).toList)) := by
  have ranks := pairwise_rank_among_of_sort_eq_ok sorted
  have ranks' := pairwise_rank_among_of_sort_eq_ok sorted'
  rw [requestsAmong_congr fun id => (describes_of_build built).mem_queue_iff] at ranks
  rw [requestsAmong_congr fun id => (describes_of_build built').mem_queue_iff,
    ← (agrees_of_same same built built').requestsAmong, ← baseline_eq same built built'] at ranks'
  have permuted := perm_baseline_of_sort_eq_ok sorted
  have permuted' := perm_baseline_of_sort_eq_ok sorted'
  rw [← baseline_eq same built built'] at permuted'
  -- There is only one way to arrange the same ranks so that they do not fall.
  exact List.Perm.eq_of_pairwise (fun _ _ _ _ le ge => Nat.le_antisymm le ge)
    (List.pairwise_map.mpr ranks) (List.pairwise_map.mpr ranks')
    ((permuted.trans permuted'.symm).map _)

/-- Where the ids that are needed ask for the same ids in the same order, the orders are equal. -/
theorem eq_of_requestedAfter_eq
    (requests : ∀ id, graph.NeededBy (graph.baseline (graph.requested ids).toList) id →
      graph.requestedAfter id = graph'.requestedAfter id) : out = out' := by
  have alike := (describes_of_build built).alike requests
  have queues := mem_queue_congr same built built'
  have given : ∀ id ∈ graph.baseline (graph.requested ids).toList,
      graph.NeededBy (graph.baseline (graph.requested ids).toList) id :=
    fun id member => ⟨id, member, .refl⟩
  obtain ⟨noCycle, rfl⟩ := sort_eq_ok_iff.mp sorted
  obtain ⟨-, rfl⟩ := sort_eq_ok_iff.mp sorted'
  -- Both placements are given the same ids, and both orders keep the same ids of them.
  simp only [← mem_requested_congr same built built']
  rw [placement, placement, ← baseline_eq same built built']
  rw [queue, queue, ← baseline_eq same built built'] at queues
  apply Placement.filter_sorted_run_eq queues alike given noCycle
  intro id kept
  exact (graph.baseline_perm _).mem_iff.mpr (IdSet.mem_toList.mpr (of_decide_eq_true kept))

end SameIds

/-- Two filters of the same priority that each declare to precede the gate. -/
def gated : CandidateIndex := .ofEntries
  [(⟨"gate"⟩, {}), (⟨"auth"⟩, { order := some 1, before := [⟨"gate"⟩] }),
    (⟨"quota"⟩, { order := some 1, before := [⟨"gate"⟩] })]

/-- Orders of the same ids are permutations of one baseline, along which the ids have the same ranks:
the order of the request shows only among ids that the same id of the baseline needs first. Where
every id that is needed asks for the same ids in the same order, it does not show at all; in
particular where no id that is needed has to wait for two ids that it does not declare itself. -/
theorem orders_of_same_ids (same : ∀ id, id ∈ ids ↔ id ∈ ids')
    (ordered : (orderCandidates source ids explorable).value = .ok out)
    (ordered' : (orderCandidates source ids' explorable').value = .ok out') :
    ∃ graph graph' baseline, (build source ids explorable).value = .ok graph ∧
      (build source ids' explorable').value = .ok graph' ∧
      graph.IsBaseline ids baseline ∧ graph'.IsBaseline ids' baseline ∧
      out.Perm baseline ∧ out'.Perm baseline ∧
      out.map (rank (graph.RequestsAmong graph.workingSet) baseline) =
        out'.map (rank (graph.RequestsAmong graph.workingSet) baseline) ∧
      ((∀ id, graph.NeededBy baseline id →
        graph.requestedAfter id = graph'.requestedAfter id) → out = out') ∧
      ((∀ id, graph.NeededBy baseline id →
        ∀ x ∈ graph.requestedAfter id, ∀ y ∈ graph.requestedAfter id,
          x ∉ graph.after id → y ∉ graph.after id → x = y) → out = out') := by
  obtain ⟨graph, built, sorted⟩ := orderCandidates_eq_ok_iff.mp ordered
  obtain ⟨graph', built', sorted'⟩ := orderCandidates_eq_ok_iff.mp ordered'
  have described := describes_of_build built
  have described' := describes_of_build built'
  have agrees := agrees_of_same same built built'
  have isBaseline' := isBaseline_baseline graph' ids'
  have permuted' := perm_baseline_of_sort_eq_ok sorted'
  rw [← baseline_eq same built built'] at isBaseline' permuted'
  have equal := eq_of_requestedAfter_eq same built built' sorted sorted'
  refine ⟨graph, graph', _, built, built', isBaseline_baseline graph ids, isBaseline',
    perm_baseline_of_sort_eq_ok sorted, permuted', map_rank_eq same built built' sorted sorted',
    equal, fun unique => equal fun id needed => ?_⟩
  exact agrees.requestedAfter_eq described described' (unique id needed)

/-- With a single filter the request cannot change the order. -/
theorem orders_of_same_ids_gated :
    ∃ out out', (orderCandidates gated.source [⟨"gate"⟩, ⟨"auth"⟩]
        (gated.source_finite.explorable _)).value = .ok out ∧
      (orderCandidates gated.source [⟨"auth"⟩, ⟨"gate"⟩]
        (gated.source_finite.explorable _)).value = .ok out' ∧ out = out' := by
  have same : ∀ id : CandidateId, id ∈ [⟨"gate"⟩, ⟨"auth"⟩] ↔ id ∈ [⟨"auth"⟩, ⟨"gate"⟩] :=
    fun id => (List.Perm.swap _ _ _).mem_iff
  obtain ⟨out, ordered, -⟩ :
      ∃ out, (orderCandidates gated.source [⟨"gate"⟩, ⟨"auth"⟩]
        (gated.source_finite.explorable _)).value = .ok out ∧ out.length = 2 :=
    exists_eq_ok_of_check (by cbv)
  obtain ⟨out', ordered', -⟩ :
      ∃ out', (orderCandidates gated.source [⟨"auth"⟩, ⟨"gate"⟩]
        (gated.source_finite.explorable _)).value = .ok out' ∧ out'.length = 2 :=
    exists_eq_ok_of_check (by cbv)
  obtain ⟨graph, built, single⟩ :
      ∃ graph, (build gated.source [⟨"gate"⟩, ⟨"auth"⟩]
          (gated.source_finite.explorable _)).value = .ok graph ∧
        ∀ id ∈ graph.workingSet, ∀ x ∈ (graph.requestedAfter id).toList,
          ∀ y ∈ (graph.requestedAfter id).toList, x = y :=
    exists_eq_ok_of_check (by cbv)
  obtain ⟨other, _, baseline, built', -, isBaseline, -, -, -, -, -, equal⟩ :=
    orders_of_same_ids same ordered ordered'
  obtain rfl : graph = other := Except.ok.inj (built.symm.trans built')
  refine ⟨out, out', ordered, ordered', equal fun id needed x first y second _ _ => ?_⟩
  have member := (describes_of_build built).mem_workingSet_of_neededBy isBaseline needed
  exact single id member x first y second

/-- With both filters it does: the gate waits for them in the order in which they were requested. -/
theorem order_depends_on_request :
    (∀ id : CandidateId, id ∈ [⟨"gate"⟩, ⟨"auth"⟩, ⟨"quota"⟩] ↔
      id ∈ [⟨"gate"⟩, ⟨"quota"⟩, ⟨"auth"⟩]) ∧
    ∃ out out', (orderCandidates gated.source [⟨"gate"⟩, ⟨"auth"⟩, ⟨"quota"⟩]
        (gated.source_finite.explorable _)).value = .ok out ∧
      (orderCandidates gated.source [⟨"gate"⟩, ⟨"quota"⟩, ⟨"auth"⟩]
        (gated.source_finite.explorable _)).value = .ok out' ∧
      out = [⟨"auth"⟩, ⟨"quota"⟩, ⟨"gate"⟩] ∧ out' = [⟨"quota"⟩, ⟨"auth"⟩, ⟨"gate"⟩] ∧
      out ≠ out' := by
  have same : ∀ id : CandidateId, id ∈ [⟨"gate"⟩, ⟨"auth"⟩, ⟨"quota"⟩] ↔
      id ∈ [⟨"gate"⟩, ⟨"quota"⟩, ⟨"auth"⟩] :=
    fun id => ((List.Perm.swap _ _ _).cons _).mem_iff
  obtain ⟨out, ordered, rfl⟩ :
      ∃ out, (orderCandidates gated.source [⟨"gate"⟩, ⟨"auth"⟩, ⟨"quota"⟩]
          (gated.source_finite.explorable _)).value = .ok out ∧
        out = [⟨"auth"⟩, ⟨"quota"⟩, ⟨"gate"⟩] :=
    exists_eq_ok_of_check (by cbv)
  obtain ⟨out', ordered', rfl⟩ :
      ∃ out, (orderCandidates gated.source [⟨"gate"⟩, ⟨"quota"⟩, ⟨"auth"⟩]
          (gated.source_finite.explorable _)).value = .ok out ∧
        out = [⟨"quota"⟩, ⟨"auth"⟩, ⟨"gate"⟩] :=
    exists_eq_ok_of_check (by cbv)
  exact ⟨same, _, _, ordered, ordered', rfl, rfl, by decide⟩

end Activation
