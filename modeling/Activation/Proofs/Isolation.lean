import Activation.Proofs.Baseline
import Activation.Proofs.Isolation.Placement
import Activation.Proofs.Isolation.Walk

/-!
# Isolated candidates

A candidate that is isolated from the requested ones never disturbs them: asked for in addition, at
whatever place of the request, it is put somewhere into the order, and the others keep theirs, or
fail with the error with which they fail anyway (`order_ignores_isolated`).

The graph for the longer request is the graph for the shorter one and the record of the isolated id
(`CandidateGraph.IsWithout`), which adds no constraint (`requestedAfter_constrain_erase`). So both
the baseline and the placement are those of the shorter request once the isolated id is left out.
-/

namespace Activation

/-! ### Constraints -/

/-- What is listed after something was added depends only on what was listed before. -/
theorem listed_addAllRequests_congr {requests requests' : IdMap IdSet}
    (same : ∀ id, listed requests id = listed requests' id) (before : IdSet)
    (declarers : List CandidateId) (id : CandidateId) :
    listed (addAllRequests requests before declarers) id =
      listed (addAllRequests requests' before declarers) id := by
  unfold addAllRequests
  induction before.toList generalizing requests requests' with
  | nil => exact same id
  | cons target rest ih =>
    refine ih fun other => ?_
    rw [listed_addRequests, listed_addRequests, same]

theorem listed_foldl_congr {α : Type} {requests requests' : IdMap IdSet}
    (same : ∀ id, listed requests id = listed requests' id) (entries : List α) (before : α → IdSet)
    (declarers : α → List CandidateId) (id : CandidateId) :
    listed (entries.foldl
        (fun requests entry => addAllRequests requests (before entry) (declarers entry))
        requests) id =
      listed (entries.foldl
        (fun requests entry => addAllRequests requests (before entry) (declarers entry))
        requests') id := by
  induction entries generalizing requests requests' with
  | nil => exact same id
  | cons entry rest ih =>
    exact ih (listed_addAllRequests_congr same (before entry) (declarers entry))

/-- An id for which nothing is listed can be left out. -/
theorem listed_erase {requests : IdMap IdSet} {z : CandidateId} (empty : listed requests z = ∅)
    (id : CandidateId) : listed (requests.erase z) id = listed requests id := by
  by_cases same : id = z
  · rw [same, empty, listed, IdMap.get?_erase_self]
    rfl
  · rw [listed, listed, IdMap.get?_erase_of_ne same]

/-- What declares to precede nothing adds nothing. -/
theorem foldl_entries_erase {successors : IdMap IdSet} {z : CandidateId}
    (empty : listed successors z = ∅) (requests : IdMap IdSet) :
    (successors.erase z).entries.foldl
        (fun requests entry => addAllRequests requests entry.2 [entry.1]) requests =
      successors.entries.foldl
        (fun requests entry => addAllRequests requests entry.2 [entry.1]) requests := by
  show List.foldl _ _ (successors.entries.filter fun entry => entry.1 != z) = _
  rw [List.foldl_filter]
  refine List.foldl_ext _ _ _ fun requests entry member => ?_
  split
  · rfl
  next dropped =>
    obtain rfl : entry.1 = z := by simpa using dropped
    rw [listed, IdMap.get?_eq_some_iff.mpr member, Option.getD_some] at empty
    rw [empty]
    rfl

namespace CandidateGraph

variable {records deprecated : IdMap CandidateRecord} {primary primary' : IdSet}
  {replacements : IdMap IdSet} {z : CandidateId}

theorem listed_redirect_eq_empty {edges : CandidateRecord → IdSet}
    (bare : ∀ record, records.get? z = some record → edges record = ∅) :
    listed (records.mapValues fun record => redirect replacements (edges record)) z = ∅ := by
  rw [listed, IdMap.get?_mapValues]
  cases found : records.get? z with
  | none => rfl
  | some record =>
    rw [Option.map_some, bare record found]
    rfl

/-- A record without edges adds no constraint. -/
theorem requestedAfter_constrain_erase
    (before : ∀ record, records.get? z = some record → record.before = ∅)
    (after : ∀ record, records.get? z = some record → record.after = ∅) (id : CandidateId) :
    (constrain (records.erase z) deprecated primary' replacements).requestedAfter id =
      (constrain records deprecated primary replacements).requestedAfter id := by
  rw [requestedAfter_constrain, requestedAfter_constrain, IdMap.mapValues_erase,
    IdMap.mapValues_erase, foldl_entries_erase (listed_redirect_eq_empty before)]
  -- Both passes are the same, from maps in which the same is listed.
  exact listed_foldl_congr (listed_foldl_congr (listed_erase (listed_redirect_eq_empty after)) _ _ _)
    _ _ _ id

/-! ### Graphs -/

/-- The first graph is the second one without the id, as far as the order goes. -/
structure IsWithout (graph : CandidateGraph) (z : CandidateId) (graph' : CandidateGraph) : Prop where
  workingSet : graph.workingSet = graph'.workingSet.filter (· != z)
  order : ∀ id, id ≠ z → graph.order id = graph'.order id
  resolve : ∀ id, graph.resolve id = graph'.resolve id
  requestedAfter : ∀ id, graph.requestedAfter id = graph'.requestedAfter id

variable {source : Source} {front back : List CandidateId} {graph graph' : CandidateGraph}
  {explorable : source.Explorable (front ++ back)}
  {explorable' : source.Explorable (front ++ z :: back)} {id : CandidateId}

/-- Building the graph with the isolated id and without it fails for the same reason, or gives the
same graph but for that id. -/
theorem build_isolated (isolated : source.Isolated (front ++ back) z)
    (explorable : source.Explorable (front ++ back))
    (explorable' : source.Explorable (front ++ z :: back)) :
    (∀ error, (build source (front ++ back) explorable).value = .error error →
      (build source (front ++ z :: back) explorable').value = .error error) ∧
    ∀ graph, (build source (front ++ back) explorable).value = .ok graph →
      ∃ graph', (build source (front ++ z :: back) explorable').value = .ok graph' ∧
        graph.IsWithout z graph' := by
  have walks := Walk.run_without isolated explorable explorable'
  -- The retired ids are the same, so they are resolved in the same way.
  have retired : (Walk.run source (front ++ back) explorable).deprecated =
      (Walk.run source (front ++ z :: back) explorable').deprecated := by
    rw [walks]
    rfl
  have live : (Walk.run source (front ++ back) explorable).records =
      (Walk.run source (front ++ z :: back) explorable').records.erase z := by
    rw [walks]
    rfl
  have filed := Walk.filed_run explorable'
  constructor
  · intro error failed
    rw [build_eq_error_iff, retired] at failed
    exact build_eq_error_iff.mpr failed
  · intro graph built
    obtain ⟨replacements, resolved, rfl⟩ := build_eq_ok_iff.mp built
    rw [retired] at resolved
    refine ⟨_, build_eq_ok_iff.mpr ⟨replacements, resolved, rfl⟩, ?_, fun id differ => ?_,
      fun id => rfl, fun id => ?_⟩
    · exact (congrArg IdMap.keys live).trans IdMap.keys_erase
    · have found := congrArg (IdMap.get? · id) live
      simp only [IdMap.get?_erase_of_ne differ] at found
      simp only [order, record?, constrain, found]
    · rw [retired, live]
      apply requestedAfter_constrain_erase
      · rintro record found
        rw [(filed.live z record found).1, isolated.before]
      · rintro record found
        rw [(filed.live z record found).1, isolated.after]

/-- The graph without the isolated id has no constraint about it. -/
theorem isolates_of_build (bare : source.EdgesOnlyWhenAvailable)
    (isolated : source.Isolated (front ++ back) z)
    (built : (build source (front ++ back) explorable).value = .ok graph) : graph.Isolates z := by
  have described := describes_of_build built
  have outside : z ∉ graph.workingSet := fun member =>
    isolated.unreached ((mem_workingSet_iff built).mp member).1
  constructor
  · -- Whatever must precede the isolated id would lead to it, or is retired and names it.
    refine IdSet.ext (List.eq_nil_iff_forall_not_mem.mpr fun other member => ?_)
    cases described.mem_requestedAfter_iff.mp member with
    | after takesPart => exact outside takesPart
    | before takesPart declared standsFor =>
      exact outside (described.mem_workingSet_of_edge bare takesPart
        (List.mem_append_left _ declared) standsFor)
    | @retired declarer target deprecated replaced declared standsFor =>
      obtain ⟨reached, retired⟩ := (isDeprecated_iff built).mp deprecated
      cases state : graph.isDeprecated target with
      | true =>
        have known : graph.Knows target := Or.inr (IdMap.contains_iff.mp state)
        exact outside (described.mem_workingSet_of_mem_resolve known standsFor)
      | false =>
        rw [described.resolve_of_not_deprecated state, List.mem_singleton] at standsFor
        exact isolated.undeclared declarer reached retired (standsFor ▸ declared)
  · intro id requested
    exact outside
      (described.mem_workingSet_of_mustPrecede bare (described.mem_requestedAfter_iff.mp requested))

/-! ### Orders -/

section Orders

variable (isolated : source.Isolated (front ++ back) z)
  (built : (build source (front ++ back) explorable).value = .ok graph)
  (built' : (build source (front ++ z :: back) explorable').value = .ok graph')
  (without : graph.IsWithout z graph')

include isolated built in
theorem not_mem_requested : z ∉ graph.requested (front ++ back) := by
  intro requested
  have member := (describes_of_build built).mem_workingSet_of_requested requested
  exact isolated.unreached ((mem_workingSet_iff built).mp member).1

include isolated built' without in
/-- The names ask for the isolated id, and for what they ask for without it. -/
theorem mem_requested_isolated (id : CandidateId) :
    id ∈ graph'.requested (front ++ z :: back) ↔ id = z ∨ id ∈ graph.requested (front ++ back) := by
  have itself : graph'.resolve z = [z] :=
    (describes_of_build built').resolve_of_live isolated.live
  simp only [mem_requested, without.resolve, List.mem_append, List.mem_cons]
  constructor
  · rintro ⟨name, inFront | rfl | inBack, standsFor⟩
    · exact Or.inr ⟨name, Or.inl inFront, standsFor⟩
    · exact Or.inl (List.mem_singleton.mp (itself ▸ standsFor))
    · exact Or.inr ⟨name, Or.inr inBack, standsFor⟩
  · rintro (rfl | ⟨name, given, standsFor⟩)
    · exact ⟨id, Or.inr (Or.inl rfl), itself ▸ List.mem_singleton_self id⟩
    · exact ⟨name, given.imp_right Or.inr, standsFor⟩

include isolated built built' without

theorem baseline_isolated : graph.baseline (graph.requested (front ++ back)).toList =
    (graph'.baseline (graph'.requested (front ++ z :: back)).toList).filter (· != z) := by
  have isBaseline := isBaseline_baseline graph (front ++ back)
  have isBaseline' := isBaseline_baseline graph' (front ++ z :: back)
  have members : ∀ id, id ∈ graph.baseline (graph.requested (front ++ back)).toList ↔
      id ∈ (graph'.baseline (graph'.requested (front ++ z :: back)).toList).filter (· != z) := by
    intro id
    rw [List.mem_filter, (graph.baseline_perm _).mem_iff, (graph'.baseline_perm _).mem_iff,
      IdSet.mem_toList, IdSet.mem_toList, mem_requested_isolated isolated built' without, bne_iff_ne]
    constructor
    · intro requested
      exact ⟨Or.inr requested, fun same => not_mem_requested isolated built (same ▸ requested)⟩
    · rintro ⟨same | requested, differ⟩
      · exact absurd same differ
      · exact requested
  have filtered : graph'.IsBaseline (front ++ back)
      ((graph'.baseline (graph'.requested (front ++ z :: back)).toList).filter (· != z)) := by
    refine ⟨fun id => ?_, isBaseline'.ascending.filter _⟩
    rw [← members, isBaseline.members]
    simp only [without.resolve]
  refine isBaseline.eq filtered members fun id member => without.order id ?_
  simpa using (List.mem_filter.mp ((members id).mp member)).2

theorem placement_isolated (bare : source.EdgesOnlyWhenAvailable) :
    graph.placement (front ++ back) = (graph'.placement (front ++ z :: back)).without z := by
  have isolates := isolates_of_build bare isolated built
  have isolates' : graph'.Isolates z := by
    constructor
    · rw [← without.requestedAfter, isolates.free]
    · intro id
      rw [← without.requestedAfter]
      exact isolates.unrequested id
  exact Placement.run_without isolates' without.requestedAfter without.workingSet
    (baseline_isolated isolated built built' without)

/-- Sorting names to which an isolated id was added fails with the same cycle, or puts that id into
the order of the others. -/
theorem sort_isolated (bare : source.EdgesOnlyWhenAvailable) :
    (∀ error, (sort (front ++ back) graph).value = .error error →
      (sort (front ++ z :: back) graph').value = .error error) ∧
    ∀ out, (sort (front ++ back) graph).value = .ok out →
      ∃ out', (sort (front ++ z :: back) graph').value = .ok out' ∧
        out'.count z = 1 ∧ out'.erase z = out := by
  have placements := placement_isolated isolated built built' without bare
  have closed : (graph.placement (front ++ back)).cycle =
      (graph'.placement (front ++ z :: back)).cycle := by
    rw [placements]
    rfl
  have placed : (graph.placement (front ++ back)).sorted.toList =
      (graph'.placement (front ++ z :: back)).sorted.toList.filter (· != z) := by
    rw [placements]
    rfl
  have requested := mem_requested_isolated isolated built' without
  have outside := not_mem_requested isolated built
  constructor
  · intro error failed
    rw [sort_eq_error_iff, closed] at failed
    exact sort_eq_error_iff.mpr failed
  · intro out sorted
    obtain ⟨noCycle, rfl⟩ := sort_eq_ok_iff.mp sorted
    have sorted' := sort_eq_ok_iff.mpr ⟨closed ▸ noCycle, rfl⟩
    have distinct := nodup_of_sort_eq_ok sorted'
    have listed := (mem_of_sort_eq_ok sorted').mpr ((requested z).mpr (Or.inl rfl))
    refine ⟨_, sorted', List.count_eq_one_of_mem distinct listed, ?_⟩
    -- What the shorter request asks for is what the longer one asks for without the isolated id.
    rw [distinct.erase_eq_filter, placed, List.filter_filter, List.filter_filter]
    refine List.filter_congr fun id _ => ?_
    by_cases same : id = z
    · simp [same, outside]
    · simp [requested, same, Bool.and_comm]

end Orders

end CandidateGraph

open CandidateGraph

variable {source : Source} {front back : List CandidateId} {z : CandidateId}

/-- The probe has an order value of its own, between those of a service and of its database. -/
def probed : CandidateIndex := .ofEntries
  [(⟨"web"⟩, { after := [⟨"db"⟩] }), (⟨"db"⟩, { replacedBy := [⟨"pg"⟩] }),
    (⟨"pg"⟩, { order := some (-5) }), (⟨"probe"⟩, { order := some (-1) })]

/-- An isolated candidate never disturbs the others. Wherever it is added to a request, the request
fails as it does without it, or the order is that of the others with the candidate in it once. -/
theorem order_ignores_isolated (bare : source.EdgesOnlyWhenAvailable)
    (isolated : source.Isolated (front ++ back) z) (explorable : source.Explorable (front ++ back)) :
    ∃ explorable' : source.Explorable (front ++ z :: back),
      (∀ error, (orderCandidates source (front ++ back) explorable).value = .error error →
        (orderCandidates source (front ++ z :: back) explorable').value = .error error) ∧
      ∀ out, (orderCandidates source (front ++ back) explorable).value = .ok out →
        ∃ out', (orderCandidates source (front ++ z :: back) explorable').value = .ok out' ∧
          out'.count z = 1 ∧ out'.erase z = out := by
  have explorable' := isolated.explorable explorable
  obtain ⟨fails, builds⟩ := build_isolated isolated explorable explorable'
  refine ⟨explorable', ?_⟩
  rw [value_orderCandidates, value_orderCandidates]
  cases result : (build source (front ++ back) explorable).value with
  | error error =>
    rw [fails error result]
    exact ⟨fun _ same => same, fun out ordered => nomatch ordered⟩
  | ok graph =>
    obtain ⟨graph', built', without⟩ := builds graph result
    rw [built']
    exact sort_isolated isolated result built' without bare

/-- The probe comes between the database and the service. -/
theorem order_ignores_isolated_probed :
    probed.source.Isolated [⟨"web"⟩, ⟨"db"⟩] ⟨"probe"⟩ ∧
    ∃ (explorable : probed.source.Explorable [⟨"web"⟩, ⟨"probe"⟩, ⟨"db"⟩]) (out : List CandidateId),
      (orderCandidates probed.source [⟨"web"⟩, ⟨"probe"⟩, ⟨"db"⟩] explorable).value = .ok out ∧
        out.count ⟨"probe"⟩ = 1 ∧ out.erase ⟨"probe"⟩ = [⟨"pg"⟩, ⟨"web"⟩] := by
  obtain ⟨graph, built, outside, undeclared⟩ :
      ∃ graph, (build probed.source [⟨"web"⟩, ⟨"db"⟩]
          (probed.source_finite.explorable _)).value = .ok graph ∧
        ⟨"probe"⟩ ∉ graph.workingSet ++ graph.deprecated.keys ∧
        ∀ id ∈ graph.deprecated.keys, ⟨"probe"⟩ ∉ (probed.source.record id).before :=
    exists_eq_ok_of_check (by simp only [Bool.decide_and]; cbv)
  have isolated : probed.source.Isolated ([⟨"web"⟩] ++ [⟨"db"⟩]) ⟨"probe"⟩ := by
    refine ⟨by decide, by decide, by decide, fun reached => outside ?_, fun id reached retired => ?_⟩
    · exact List.mem_append.mpr ((knows_iff built).mpr reached)
    · exact undeclared id (IdMap.contains_iff.mp ((isDeprecated_iff built).mpr ⟨reached, retired⟩))
  obtain ⟨out, ordered, rfl⟩ :
      ∃ out, (orderCandidates probed.source [⟨"web"⟩, ⟨"db"⟩]
          (probed.source_finite.explorable _)).value = .ok out ∧ out = [⟨"pg"⟩, ⟨"web"⟩] :=
    exists_eq_ok_of_check (by cbv)
  obtain ⟨explorable, -, orders⟩ := order_ignores_isolated probed.source_edgesOnlyWhenAvailable
    isolated (probed.source_finite.explorable _)
  exact ⟨isolated, explorable, orders _ ordered⟩

end Activation
