import Activation.Proofs.Redirection

/-!
# Graphs that agree

Two graphs over one source agree if they have the same ids in their working sets under the same
constraints (`CandidateGraph.Agrees`). Such graphs accept the same requests, because sorting
fails exactly where requests among the ids that take part run in a circle (`exists_sort_eq_ok_iff`).

The main results say which requests lead to graphs that agree:

* `build_ignores_order`: requests for the same ids, in whatever order and however often,
* `build_ignores_retirement`: a request, and the request for what its ids stand for, as long as no
  retired id has something to say about the order.

In both, the ids that are reached decide; the course of the walk does not matter.
-/

namespace Activation

open Relation DepthFirst CandidateGraph

variable {source : Source} {ids ids' names out out' : List CandidateId}
  {graph graph' : CandidateGraph} {explorable : source.Explorable ids} {id : CandidateId}

/-! ### Circles of requests -/

/-- Names can be put in order exactly where the ids that take part request nothing in a circle. -/
theorem exists_sort_eq_ok_iff (names : List CandidateId) (graph : CandidateGraph) :
    (∃ out, (sort names graph).value = .ok out) ↔
      ∀ id, ¬ TransGen (graph.RequestsAmong (graph.queue names)) id id := by
  constructor
  · rintro ⟨out, sorted⟩ id circle
    obtain ⟨noCycle, -⟩ := sort_eq_ok_iff.mp sorted
    -- The last request of the circle is for an id of the queue, and all of these are placed.
    obtain ⟨_, -, member, -⟩ := TransGen.tail'_iff.mp circle
    have placed := Placement.mem_sorted_run noCycle (Placement.mem_queue_start.mp member)
    have finite := Placement.inOrder_sorted_run.acc (IdSet.mem_toList.mpr placed)
    exact not_transGen_self finite circle
  · intro acyclic
    cases closed : (graph.placement names).cycle with
    | none => exact ⟨_, sort_eq_ok_iff.mpr ⟨closed, rfl⟩⟩
    | some pair =>
      obtain ⟨requests, back⟩ := Placement.cycle_run (a := pair.1) (b := pair.2) closed
      exact absurd (TransGen.tail' back requests) (acyclic pair.2)

namespace CandidateGraph

theorem requestsAmong_congr {all all' : List CandidateId} (same : ∀ id, id ∈ all ↔ id ∈ all') :
    graph.RequestsAmong all = graph.RequestsAmong all' := by
  funext id other
  exact propext (and_congr_left fun _ => same other)

namespace Describes

theorem mem_workingSet_of_requested (described : graph.Describes source ids)
    (member : id ∈ graph.requested ids) : id ∈ graph.workingSet := by
  obtain ⟨name, given, standsFor⟩ := mem_requested.mp member
  exact described.mem_workingSet_of_mem_resolve (described.requested name given) standsFor

theorem mem_queue_iff (described : graph.Describes source ids) :
    id ∈ graph.queue ids ↔ id ∈ graph.workingSet := by
  rw [queue, Placement.mem_queue_start, (graph.baseline_perm _).mem_iff, IdSet.mem_toList]
  exact or_iff_right_of_imp described.mem_workingSet_of_requested

theorem exists_sort_eq_ok_iff (described : graph.Describes source ids) :
    (∃ out, (sort ids graph).value = .ok out) ↔
      ∀ id, ¬ TransGen (graph.RequestsAmong graph.workingSet) id id := by
  rw [Activation.exists_sort_eq_ok_iff, requestsAmong_congr fun id => described.mem_queue_iff]

end Describes

/-! ### Agreement -/

/-- The same ids take part in both graphs, under the same constraints. -/
structure Agrees (graph graph' : CandidateGraph) : Prop where
  workingSet : ∀ id, id ∈ graph.workingSet ↔ id ∈ graph'.workingSet
  before : ∀ id, graph.before id = graph'.before id
  after : ∀ id, graph.after id = graph'.after id
  requestedAfter : ∀ id other, other ∈ graph.requestedAfter id ↔ other ∈ graph'.requestedAfter id

theorem Agrees.requestsAmong (agrees : graph.Agrees graph') :
    graph.RequestsAmong graph.workingSet = graph'.RequestsAmong graph'.workingSet := by
  funext id other
  exact propext (and_congr (agrees.workingSet other) (agrees.requestedAfter id other))

theorem Agrees.exists_sort_eq_ok_iff (agrees : graph.Agrees graph')
    (described : graph.Describes source ids) (described' : graph'.Describes source ids') :
    (∃ out, (sort ids graph).value = .ok out) ↔ ∃ out, (sort ids' graph').value = .ok out := by
  rw [described.exists_sort_eq_ok_iff, described'.exists_sort_eq_ok_iff, agrees.requestsAmong]

namespace Describes

theorem resolve_eq (described : graph.Describes source ids)
    (described' : graph'.Describes source ids') (known : graph.Knows id)
    (known' : graph'.Knows id) : graph.resolve id = graph'.resolve id := by
  have finite := described.acc_replacements known
  induction finite with
  | intro id _ ih =>
    cases state : (source.record id).isDeprecated with
    | false => rw [described.resolve_of_live state, described'.resolve_of_live state]
    | true =>
      rw [described.resolve_of_retired (described.mem_deprecated known state),
        described'.resolve_of_retired (described'.mem_deprecated known' state)]
      -- The replacements are the source's, and both graphs know them.
      have each : ∀ next ∈ (source.record id).replacements.toList,
          graph.resolve next = graph'.resolve next := fun next replaces =>
        ih next replaces (described.closed id next known (Or.inl replaces))
          (described'.closed id next known' (Or.inl replaces))
      rw [List.flatMap_congr each]

theorem resolved_congr (workingSet : id ∈ graph.workingSet ↔ id ∈ graph'.workingSet)
    {targets : List CandidateId}
    (same : id ∈ graph.workingSet → ∀ target ∈ targets,
      graph.resolve target = graph'.resolve target) :
    (if id ∈ graph.workingSet then (targets.flatMap graph.resolve).eraseDups else []) =
      if id ∈ graph'.workingSet then (targets.flatMap graph'.resolve).eraseDups else [] := by
  by_cases member : id ∈ graph.workingSet
  · rw [if_pos member, if_pos (workingSet.mp member), List.flatMap_congr (same member)]
  · rw [if_neg member, if_neg fun member' => member (workingSet.mpr member')]

/-- Graphs with the same working set agree if they resolve what its edges name in the same way, and
if their retired ids hand on the same constraints. -/
theorem agrees (described : graph.Describes source ids) (described' : graph'.Describes source ids')
    (workingSet : ∀ id, id ∈ graph.workingSet ↔ id ∈ graph'.workingSet)
    (targets : ∀ id ∈ graph.workingSet, ∀ target ∈ (source.record id).edges,
      graph.resolve target = graph'.resolve target)
    (handed : ∀ id other,
      (∃ retired, graph.isDeprecated retired = true ∧ other ∈ graph.resolve retired ∧
        ∃ target ∈ (source.record retired).before, id ∈ graph.resolve target) ↔
      ∃ retired, graph'.isDeprecated retired = true ∧ other ∈ graph'.resolve retired ∧
        ∃ target ∈ (source.record retired).before, id ∈ graph'.resolve target) :
    graph.Agrees graph' := by
  have before : ∀ id, graph.before id = graph'.before id := by
    intro id
    apply IdSet.ext
    rw [described.toList_before, described'.toList_before]
    exact resolved_congr (workingSet id) fun member target named =>
      targets id member target (List.mem_append_left _ named)
  have after : ∀ id, graph.after id = graph'.after id := by
    intro id
    apply IdSet.ext
    rw [described.toList_after, described'.toList_after]
    exact resolved_congr (workingSet id) fun member target named =>
      targets id member target (List.mem_append_right _ named)
  refine ⟨workingSet, before, after, fun id other => ?_⟩
  rw [described.mem_requestedAfter_iff_mem_edges, described'.mem_requestedAfter_iff_mem_edges,
    after, before, workingSet, handed]

end Describes

end CandidateGraph

/-! ### What is reached -/

theorem Source.Reaches.of_reaches (given : ∀ id ∈ ids', source.Reaches ids id)
    (reached : source.Reaches ids' id) : source.Reaches ids id := by
  induction reached with
  | requested member => exact given _ member
  | led _ leads ih => exact .led ih leads

theorem Source.reaches_congr (same : ∀ id, id ∈ ids ↔ id ∈ ids') :
    source.Reaches ids id ↔ source.Reaches ids' id := by
  constructor
  · exact fun reached => reached.of_reaches fun id member => .requested ((same id).mp member)
  · exact fun reached => reached.of_reaches fun id member => .requested ((same id).mpr member)

theorem Source.Reaches.follow {last : CandidateId} (reached : source.Reaches ids id)
    (follows : ReflTransGen source.Replaces id last) : source.Reaches ids last := by
  induction follows with
  | refl => exact reached
  | tail _ replaces ih => exact .led ih (Or.inl replaces)

theorem Source.Explorable.of_reaches (explorable : source.Explorable ids)
    (given : ∀ id ∈ ids', source.Reaches ids id) : source.Explorable ids' :=
  Walk.explorable_iff.mpr
    ((Walk.explorable_iff.mp explorable).subset fun _ reached => reached.of_reaches given)

/-- A graph can be built exactly where nothing that is reached stands for itself. -/
theorem exists_build_eq_ok_iff (explorable : source.Explorable ids) :
    (∃ graph, (build source ids explorable).value = .ok graph) ↔
      ∀ id, source.Reaches ids id → ¬ TransGen source.Replaces id id := by
  constructor
  · rintro ⟨graph, built⟩ id reached
    exact not_transGen_replaces_of_build built reached
  · intro acyclic
    cases result : (build source ids explorable).value with
    | ok graph => exact ⟨graph, rfl⟩
    | error error =>
      obtain ⟨chain, -, rfl⟩ := build_eq_error_iff.mp result
      obtain ⟨isLoop, members⟩ := isLoop_of_build_eq_error result
      obtain ⟨id, member⟩ := isLoop.exists_mem
      exact absurd (isLoop.transGen member) (acyclic id (members id member).1)

/-! ### The order of the request -/

variable {explorable' : source.Explorable ids'}

section SameReach

variable (reached : ∀ id, source.Reaches ids id ↔ source.Reaches ids' id)
  (built : (build source ids explorable).value = .ok graph)
  (built' : (build source ids' explorable').value = .ok graph')

include reached built built'

namespace CandidateGraph

theorem isDeprecated_eq (id : CandidateId) : graph.isDeprecated id = graph'.isDeprecated id := by
  rw [Bool.eq_iff_iff, isDeprecated_iff built, isDeprecated_iff built', reached]

theorem resolve_eq (id : CandidateId) : graph.resolve id = graph'.resolve id := by
  have described := describes_of_build built
  have described' := describes_of_build built'
  have deprecated := isDeprecated_eq reached built built' id
  cases state : graph.isDeprecated id with
  | false =>
    rw [described.resolve_of_not_deprecated state,
      described'.resolve_of_not_deprecated (deprecated ▸ state)]
  | true =>
    have here := ((isDeprecated_iff built).mp state).1
    exact described.resolve_eq described' ((knows_iff built).mpr here)
      ((knows_iff built').mpr ((reached id).mp here))

theorem agrees_of_reaches_iff : graph.Agrees graph' := by
  have resolve := resolve_eq reached built built'
  have deprecated := isDeprecated_eq reached built built'
  refine (describes_of_build built).agrees (describes_of_build built') (fun id => ?_)
    (fun _ _ target _ => resolve target) fun id other => ?_
  · rw [mem_workingSet_iff built, mem_workingSet_iff built', reached]
  · simp only [deprecated, resolve]

end CandidateGraph

end SameReach

theorem CandidateGraph.mem_primary_iff (same : ∀ id, id ∈ ids ↔ id ∈ ids')
    (built : (build source ids explorable).value = .ok graph)
    (built' : (build source ids' explorable').value = .ok graph') :
    id ∈ graph.primary ↔ id ∈ graph'.primary := by
  have resolve := resolve_eq (fun _ => Source.reaches_congr same) built built'
  rw [primary_eq_requested built, primary_eq_requested built', mem_requested, mem_requested]
  simp only [same, resolve]

theorem exists_build_eq_ok_congr (reached : ∀ id, source.Reaches ids id ↔ source.Reaches ids' id)
    (explorable : source.Explorable ids) (explorable' : source.Explorable ids') :
    (∃ graph, (build source ids explorable).value = .ok graph) ↔
      ∃ graph', (build source ids' explorable').value = .ok graph' := by
  rw [exists_build_eq_ok_iff, exists_build_eq_ok_iff]
  exact forall_congr' fun id => imp_congr_left (reached id)

/-- Requests for the same ids either all fail, for a loop of replacements, or lead to graphs that
agree. Those hold the same ids, resolve each id in the same way, and put the requested ids in order
or all refuse to. -/
theorem build_ignores_order (same : ∀ id, id ∈ ids ↔ id ∈ ids')
    (explorable : source.Explorable ids) :
    ∃ explorable' : source.Explorable ids',
      (∃ chain chain', (build source ids explorable).value = .error (.replacementCycle chain) ∧
        (build source ids' explorable').value = .error (.replacementCycle chain')) ∨
      ∃ graph graph', (build source ids explorable).value = .ok graph ∧
        (build source ids' explorable').value = .ok graph' ∧ graph.Agrees graph' ∧
        (∀ id, graph.isDeprecated id = graph'.isDeprecated id) ∧
        (∀ id, id ∈ graph.primary ↔ id ∈ graph'.primary) ∧
        (∀ id, graph.resolve id = graph'.resolve id) ∧
        ((∃ out, (sort ids graph).value = .ok out) ↔
          ∃ out, (sort ids' graph').value = .ok out) := by
  have explorable' : source.Explorable ids' :=
    explorable.of_reaches fun id member => .requested ((same id).mpr member)
  have reached : ∀ id, source.Reaches ids id ↔ source.Reaches ids' id :=
    fun id => Source.reaches_congr same
  have verdict := exists_build_eq_ok_congr reached explorable explorable'
  refine ⟨explorable', ?_⟩
  cases result : (build source ids explorable).value with
  | error error =>
    cases result' : (build source ids' explorable').value with
    | error error' =>
      obtain ⟨chain, -, rfl⟩ := build_eq_error_iff.mp result
      obtain ⟨chain', -, rfl⟩ := build_eq_error_iff.mp result'
      exact Or.inl ⟨chain, chain', rfl, rfl⟩
    | ok graph' =>
      obtain ⟨graph, built⟩ := verdict.mpr ⟨graph', result'⟩
      rw [result] at built
      cases built
  | ok graph =>
    obtain ⟨graph', result'⟩ := verdict.mp ⟨graph, result⟩
    have agrees := agrees_of_reaches_iff reached result result'
    exact Or.inr ⟨graph, graph', rfl, result', agrees, isDeprecated_eq reached result result',
      fun id => mem_primary_iff same result result', resolve_eq reached result result',
      agrees.exists_sort_eq_ok_iff (describes_of_build result) (describes_of_build result')⟩

/-- The retired ids of `webStack` are met in another order, and one of them twice. -/
theorem build_ignores_order_webStack :
    ∃ graph graph', (build webStack.source [⟨"legacy"⟩, ⟨"db"⟩]
        (webStack.source_finite.explorable _)).value = .ok graph ∧
      (build webStack.source [⟨"db"⟩, ⟨"legacy"⟩, ⟨"db"⟩]
        (webStack.source_finite.explorable _)).value = .ok graph' ∧
      graph.Agrees graph' ∧ graph.resolve ⟨"legacy"⟩ = graph'.resolve ⟨"legacy"⟩ := by
  have same : ∀ id : CandidateId,
      id ∈ [⟨"legacy"⟩, ⟨"db"⟩] ↔ id ∈ [⟨"db"⟩, ⟨"legacy"⟩, ⟨"db"⟩] := by
    intro id
    simp only [List.mem_cons, List.not_mem_nil, or_false]
    tauto
  obtain ⟨graph, built, -⟩ :
      ∃ graph, (build webStack.source [⟨"legacy"⟩, ⟨"db"⟩]
          (webStack.source_finite.explorable _)).value = .ok graph ∧
        graph.isDeprecated ⟨"db"⟩ = true :=
    exists_eq_ok_of_check (by cbv)
  obtain ⟨_, ⟨_, _, failed, -⟩ | ⟨other, graph', built', built'', agrees, -, -, resolve, -⟩⟩ :=
    build_ignores_order same (webStack.source_finite.explorable _)
  · rw [built] at failed
    cases failed
  · obtain rfl : graph = other := Except.ok.inj (built.symm.trans built')
    exact ⟨graph, graph', built, built'', agrees, resolve ⟨"legacy"⟩⟩

/-! ### Retired ids in the request -/

/-- The live ids that a reached id stands for are reached from what the requested ids stand for. -/
theorem CandidateGraph.reaches_of_mem_resolve
    (built : (build source ids explorable).value = .ok graph) (reached : source.Reaches ids id)
    {last : CandidateId} (member : last ∈ graph.resolve id) :
    source.Reaches (ids.flatMap graph.resolve) last := by
  have described := describes_of_build built
  induction reached generalizing last with
  | requested given => exact .requested (List.mem_flatMap.mpr ⟨_, given, member⟩)
  | @led id next reached leads ih =>
    have known := (knows_iff built).mpr reached
    have next_known := described.closed id next known leads
    obtain ⟨follows, live⟩ := (described.mem_resolve_iff next_known).mp member
    rcases leads with replaces | ⟨isLive, available, named⟩
    · -- A replacement stands for no more than what it replaces.
      exact ih ((described.mem_resolve_iff known).mpr ⟨.head replaces follows, live⟩)
    · -- A live id stands for itself, so the walk goes on from it to the same ids.
      have here : source.Reaches (ids.flatMap graph.resolve) id := by
        refine ih ?_
        rw [described.resolve_of_live isLive]
        exact List.mem_singleton_self id
      exact Source.Reaches.follow (.led here (Or.inr ⟨isLive, available, named⟩)) follows

namespace CandidateGraph

theorem mem_workingSet_of_mem_flatMap (built : (build source ids explorable).value = .ok graph)
    (member : id ∈ ids.flatMap graph.resolve) : id ∈ graph.workingSet := by
  apply (describes_of_build built).mem_workingSet_of_requested
  rw [requested_eq_ofList]
  exact IdSet.mem_ofList.mpr member

theorem reaches_of_mem_flatMap (built : (build source ids explorable).value = .ok graph)
    (member : id ∈ ids.flatMap graph.resolve) : source.Reaches ids id :=
  (knows_iff built).mp (Or.inl (mem_workingSet_of_mem_flatMap built member))

section Replaced

variable {explorable' : source.Explorable (ids.flatMap graph.resolve)}
  (built : (build source ids explorable).value = .ok graph)
  (built' : (build source (ids.flatMap graph.resolve) explorable').value = .ok graph')

include built built'

/-- Asking for what the ids stand for reaches the same live ids. -/
theorem mem_workingSet_replaced_iff : id ∈ graph.workingSet ↔ id ∈ graph'.workingSet := by
  rw [mem_workingSet_iff built, mem_workingSet_iff built']
  apply and_congr_left
  intro live
  constructor
  · intro reached
    apply reaches_of_mem_resolve built reached
    rw [(describes_of_build built).resolve_of_live live]
    exact List.mem_singleton_self id
  · intro reached
    exact reached.of_reaches fun _ => reaches_of_mem_flatMap built

/-- It may reach fewer retired ids, which makes no difference where these declare nothing. -/
theorem agrees_replaced (bare : source.EdgesOnlyWhenAvailable)
    (silent : ∀ id, graph.isDeprecated id = true → (source.record id).before = ∅) :
    graph.Agrees graph' := by
  have described := describes_of_build built
  have described' := describes_of_build built'
  have deprecated : ∀ id, graph'.isDeprecated id = true → graph.isDeprecated id = true := by
    intro id held
    obtain ⟨reached, retired⟩ := (isDeprecated_iff built').mp held
    exact (isDeprecated_iff built).mpr
      ⟨reached.of_reaches fun _ => reaches_of_mem_flatMap built, retired⟩
  refine described.agrees described' (fun id => mem_workingSet_replaced_iff built built')
    (fun id member target named => ?_) fun id other => ?_
  · have leads := described.leadsTo_of_edge bare member named
    have member' := (mem_workingSet_replaced_iff built built').mp member
    exact described.resolve_eq described' (described.closed id target (Or.inl member) leads)
      (described'.closed id target (Or.inl member') leads)
  · constructor
    · rintro ⟨retired, held, -, target, declared, -⟩
      rw [silent retired held] at declared
      exact absurd declared (IdSet.not_mem_empty target)
    · rintro ⟨retired, held, -, target, declared, -⟩
      rw [silent retired (deprecated retired held)] at declared
      exact absurd declared (IdSet.not_mem_empty target)

theorem primary_replaced : graph'.primary = graph.primary := by
  -- What the ids stand for is live, so the second graph leaves it as it is.
  have resolved : ∀ id ∈ ids.flatMap graph.resolve, graph'.resolve id = [id] := by
    intro id member
    have live := (describes_of_build built).not_deprecated
      (mem_workingSet_of_mem_flatMap built member)
    exact (describes_of_build built').resolve_of_live live
  rw [primary_eq_requested built', primary_eq_requested built, requested_eq_ofList,
    requested_eq_ofList, List.flatMap_congr resolved, List.flatMap_singleton']

end Replaced

end CandidateGraph

theorem orderCandidates_eq_ok_iff_of_build (built : (build source ids explorable).value = .ok graph) :
    (orderCandidates source ids explorable).value = .ok out ↔ (sort ids graph).value = .ok out := by
  rw [orderCandidates_eq_ok_iff, built]
  simp only [Except.ok.injEq, exists_eq_left']

/-- A service that was renamed twice, the second time into two services. -/
def renamed : CandidateIndex := .ofEntries
  [(⟨"mail"⟩, { after := [⟨"post"⟩], replacedBy := [⟨"post"⟩] }),
    (⟨"post"⟩, { replacedBy := [⟨"smtp"⟩, ⟨"imap"⟩] }), (⟨"smtp"⟩, { after := [⟨"dns"⟩] }),
    (⟨"imap"⟩, { after := [⟨"auth"⟩] }), (⟨"dns"⟩, {}),
    (⟨"auth"⟩, { before := [⟨"post"⟩], after := [⟨"dns"⟩] })]

/-- Where no retired id declares what it precedes, requested ids may be replaced by what they stand
for: the graphs agree, they have the same primary ids, and their orders hold the same ids. -/
theorem build_ignores_retirement (bare : source.EdgesOnlyWhenAvailable)
    (built : (build source ids explorable).value = .ok graph)
    (silent : ∀ id, graph.isDeprecated id = true → (source.record id).before = ∅) :
    ∃ (explorable' : source.Explorable (ids.flatMap graph.resolve)) (graph' : CandidateGraph),
      (build source (ids.flatMap graph.resolve) explorable').value = .ok graph' ∧
      graph'.primary = graph.primary ∧ graph.Agrees graph' ∧
      ((∃ out, (orderCandidates source ids explorable).value = .ok out) ↔
        ∃ out, (orderCandidates source (ids.flatMap graph.resolve) explorable').value = .ok out) ∧
      ∀ out out', (orderCandidates source ids explorable).value = .ok out →
        (orderCandidates source (ids.flatMap graph.resolve) explorable').value = .ok out' →
          out.Perm out' := by
  have back : ∀ id ∈ ids.flatMap graph.resolve, source.Reaches ids id :=
    fun id => reaches_of_mem_flatMap built
  have explorable' := explorable.of_reaches back
  -- A loop of replacements would be reached by the first request as well.
  obtain ⟨graph', built'⟩ := (exists_build_eq_ok_iff explorable').mpr fun id reached =>
    not_transGen_replaces_of_build built (reached.of_reaches back)
  have primary := primary_replaced built built'
  have agrees := agrees_replaced built built' bare silent
  refine ⟨explorable', graph', built', primary, agrees, ?_, fun out out' ordered ordered' => ?_⟩
  · simp only [orderCandidates_eq_ok_iff_of_build built, orderCandidates_eq_ok_iff_of_build built']
    exact agrees.exists_sort_eq_ok_iff (describes_of_build built) (describes_of_build built')
  · rw [orderCandidates_eq_ok_iff_of_build built] at ordered
    rw [orderCandidates_eq_ok_iff_of_build built'] at ordered'
    rw [List.perm_ext_iff_of_nodup (nodup_of_sort_eq_ok ordered) (nodup_of_sort_eq_ok ordered')]
    intro id
    rw [mem_of_sort_eq_ok ordered, mem_of_sort_eq_ok ordered', ← primary_eq_requested built,
      ← primary_eq_requested built', primary]

/-- `mail` is asked for under its first name; `post` is reached twice, and later again by an edge. -/
theorem build_ignores_retirement_renamed :
    ∃ graph graph', (build renamed.source [⟨"imap"⟩, ⟨"mail"⟩]
        (renamed.source_finite.explorable _)).value = .ok graph ∧
      (build renamed.source [⟨"imap"⟩, ⟨"smtp"⟩, ⟨"imap"⟩]
        (renamed.source_finite.explorable _)).value = .ok graph' ∧
      graph.isDeprecated ⟨"mail"⟩ = true ∧ graph'.isDeprecated ⟨"mail"⟩ = false ∧
      graph'.primary = graph.primary ∧ graph.Agrees graph' := by
  obtain ⟨graph, built, retired, resolved, silent⟩ :
      ∃ graph, (build renamed.source [⟨"imap"⟩, ⟨"mail"⟩]
          (renamed.source_finite.explorable _)).value = .ok graph ∧
        graph.isDeprecated ⟨"mail"⟩ = true ∧
        [⟨"imap"⟩, ⟨"mail"⟩].flatMap graph.resolve = [⟨"imap"⟩, ⟨"smtp"⟩, ⟨"imap"⟩] ∧
        ∀ id ∈ graph.deprecated.keys, (renamed.source.record id).before = ∅ :=
    exists_eq_ok_of_check (by simp only [Bool.decide_and]; cbv)
  have replaced := build_ignores_retirement renamed.source_edgesOnlyWhenAvailable built
    fun id held => silent id (IdMap.contains_iff.mp held)
  rw [resolved] at replaced
  obtain ⟨_, graph', built', primary, agrees, -⟩ := replaced
  obtain ⟨other, built'', gone⟩ :
      ∃ other, (build renamed.source [⟨"imap"⟩, ⟨"smtp"⟩, ⟨"imap"⟩]
          (renamed.source_finite.explorable _)).value = .ok other ∧
        other.isDeprecated ⟨"mail"⟩ = false :=
    exists_eq_ok_of_check (by cbv)
  obtain rfl : graph' = other := Except.ok.inj (built'.symm.trans built'')
  exact ⟨graph, graph', built, built', retired, gone, primary, agrees⟩

end Activation
