import Activation.Proofs.Constraints
import Activation.Proofs.Walk

/-!
# What a graph says about its source

`CandidateGraph.Describes source ids graph` collects what is known about a graph that was built for
ids over a source: its records are the source's, it knows the ids and all that they lead to, and its
retired ids are resolved. `describes_of_build` shows it of every graph that is built.

From the description follow the laws of resolution (`resolve_of_live`, `resolve_of_retired`,
`mem_workingSet_of_mem_resolve`) and the meaning of the constraints: an id asks for exactly those
that must precede it (`mem_requestedAfter_iff`).
-/

namespace Activation

open Relation

namespace CandidateGraph

/-- The id takes part in the ordering, or it is retired and stands for ids that do. -/
def Knows (graph : CandidateGraph) (id : CandidateId) : Prop :=
  id ∈ graph.workingSet ∨ id ∈ graph.deprecated.keys

/-- What a graph for these ids holds, in terms of its source. -/
structure Describes (source : Source) (ids : List CandidateId) (graph : CandidateGraph) :
    Prop where
  live : ∀ id record, graph.record? id = some record →
    record = source.record id ∧ record.isDeprecated = false
  retired : ∀ id record, graph.deprecated.get? id = some record →
    record = source.record id ∧ record.isDeprecated = true
  requested : ∀ id ∈ ids, graph.Knows id
  closed : ∀ id other, graph.Knows id → source.LeadsTo id other → graph.Knows other
  complete : Resolution.Complete graph.deprecated graph.replacements
  constrained : graph =
    constrain graph.records graph.deprecated graph.primary graph.replacements

variable {source : Source} {ids : List CandidateId} {graph : CandidateGraph}

theorem build_eq_ok_iff {explorable : source.Explorable ids} :
    (build source ids explorable).value = .ok graph ↔
      ∃ replacements,
        resolveReplacements (Walk.run source ids explorable).deprecated = .ok replacements ∧
        graph = constrain (Walk.run source ids explorable).records
          (Walk.run source ids explorable).deprecated (Walk.run source ids explorable).primary
          replacements := by
  simp only [build, Reported.value_bind]
  cases resolveReplacements (Walk.run source ids explorable).deprecated with
  | error chain =>
    constructor
    · intro built
      cases built
    · rintro ⟨_, resolved, -⟩
      cases resolved
  | ok replacements =>
    constructor
    · intro built
      cases built
      exact ⟨replacements, rfl, rfl⟩
    · rintro ⟨_, resolved, rfl⟩
      cases resolved
      rfl

theorem describes_of_build {explorable : source.Explorable ids}
    (built : (build source ids explorable).value = .ok graph) : Describes source ids graph := by
  obtain ⟨replacements, resolved, rfl⟩ := build_eq_ok_iff.mp built
  have filed := Walk.filed_run explorable
  refine ⟨filed.live, filed.retired, fun id member => ?_, fun id other known leads => ?_,
    Resolution.complete_of_resolveReplacements resolved, rfl⟩
  · exact (filed.visited id).mp (Walk.mem_visited_run explorable member)
  · have visited := (filed.visited id).mpr known
    exact (filed.visited other).mp (Walk.visited_closed_run explorable visited leads)

namespace Describes

variable {id other : CandidateId}

theorem record?_eq (described : Describes source ids graph) (member : id ∈ graph.workingSet) :
    graph.record? id = some (source.record id) := by
  obtain ⟨record, found⟩ := IdMap.mem_keys_iff.mp member
  exact (described.live id record found).1 ▸ found

theorem order_eq (described : Describes source ids graph) (member : id ∈ graph.workingSet) :
    graph.order id = (source.record id).order := by
  rw [order, described.record?_eq member, Option.map_some, Option.getD_some]

theorem not_deprecated (described : Describes source ids graph) (member : id ∈ graph.workingSet) :
    (source.record id).isDeprecated = false :=
  (described.live id _ (described.record?_eq member)).2

theorem retired_eq (described : Describes source ids graph) (member : id ∈ graph.deprecated.keys) :
    graph.deprecated.get? id = some (source.record id) := by
  obtain ⟨record, found⟩ := IdMap.mem_keys_iff.mp member
  exact (described.retired id record found).1 ▸ found

theorem deprecated (described : Describes source ids graph) (member : id ∈ graph.deprecated.keys) :
    (source.record id).isDeprecated = true :=
  (described.retired id _ (described.retired_eq member)).2

theorem mem_workingSet (described : Describes source ids graph) (known : graph.Knows id)
    (live : (source.record id).isDeprecated = false) : id ∈ graph.workingSet := by
  refine known.resolve_right fun retired => ?_
  rw [described.deprecated retired] at live
  cases live

theorem mem_deprecated (described : Describes source ids graph) (known : graph.Knows id)
    (retired : (source.record id).isDeprecated = true) : id ∈ graph.deprecated.keys := by
  refine known.resolve_left fun live => ?_
  rw [described.not_deprecated live] at retired
  cases retired

/-! ### Resolution -/

theorem resolve_of_live (described : Describes source ids graph)
    (live : (source.record id).isDeprecated = false) : graph.resolve id = [id] := by
  have absent : graph.deprecated.get? id = none := by
    rw [IdMap.get?_eq_none_iff]
    intro retired
    rw [described.deprecated retired] at live
    cases live
  simp only [resolve, described.complete.live id absent]

theorem resolve_of_retired (described : Describes source ids graph)
    (member : id ∈ graph.deprecated.keys) :
    graph.resolve id =
      (IdSet.ofList ((source.record id).replacements.toList.flatMap graph.resolve)).toList := by
  have found := described.complete.retired id _ (described.retired_eq member)
  exact Resolution.standsFor_of_get? found

theorem resolve_eq_listed (described : Describes source ids graph)
    (member : id ∈ graph.deprecated.keys) :
    graph.resolve id = (listed graph.replacements id).toList := by
  have found := described.complete.retired id _ (described.retired_eq member)
  rw [listed, found]
  exact Resolution.standsFor_of_get? found

theorem acc_replacements (described : Describes source ids graph) (known : graph.Knows id) :
    Acc (fun other id => other ∈ (source.record id).replacements) id := by
  have finite := described.complete.finite.apply id
  induction finite with
  | intro id _ ih =>
    -- Only a retired id has replacements, and each of them is known again.
    refine ⟨id, fun other replaces => ?_⟩
    have retired := described.mem_deprecated known (CandidateRecord.isDeprecated_of_mem replaces)
    exact ih other ⟨_, described.retired_eq retired, replaces⟩
      (described.closed id other known (Or.inl replaces))

theorem mem_workingSet_of_mem_resolve (described : Describes source ids graph)
    (known : graph.Knows id) (member : other ∈ graph.resolve id) : other ∈ graph.workingSet := by
  have finite := described.acc_replacements known
  induction finite with
  | intro id _ ih =>
    cases state : (source.record id).isDeprecated with
    | false =>
      rw [described.resolve_of_live state, List.mem_singleton] at member
      exact member ▸ described.mem_workingSet known state
    | true =>
      rw [described.resolve_of_retired (described.mem_deprecated known state), IdSet.mem_toList,
        IdSet.mem_ofList, List.mem_flatMap] at member
      obtain ⟨replacement, replaces, member⟩ := member
      exact ih replacement replaces (described.closed id replacement known (Or.inl replaces)) member

end Describes

/-! ### Constraints -/

/-- The first id must be placed before the second one. -/
inductive MustPrecede (source : Source) (graph : CandidateGraph) (first second : CandidateId) :
    Prop
  -- The second id declares that it follows an id that stands for the first one.
  | after {target : CandidateId} (takesPart : second ∈ graph.workingSet)
      (declared : target ∈ (source.record second).after) (standsFor : first ∈ graph.resolve target)
  -- The first id declares that it precedes an id that stands for the second one.
  | before {target : CandidateId} (takesPart : first ∈ graph.workingSet)
      (declared : target ∈ (source.record first).before)
      (standsFor : second ∈ graph.resolve target)
  -- A retired id that stands for the first one declares that it precedes an id that stands for
  -- the second one.
  | retired {declarer target : CandidateId} (deprecated : graph.isDeprecated declarer = true)
      (replaced : first ∈ graph.resolve declarer)
      (declared : target ∈ (source.record declarer).before)
      (standsFor : second ∈ graph.resolve target)

namespace Describes

variable {id other : CandidateId}

/-- The edges of an id, retired targets redirected, are its source's edges resolved. -/
private theorem mem_redirected_iff (described : Describes source ids graph)
    (edges : CandidateRecord → IdSet) :
    (∃ record, graph.record? id = some record ∧
        other ∈ redirect graph.replacements (edges record)) ↔
      id ∈ graph.workingSet ∧ ∃ target ∈ edges (source.record id), other ∈ graph.resolve target := by
  constructor
  · rintro ⟨record, found, named⟩
    obtain ⟨rfl, -⟩ := described.live id record found
    exact ⟨IdMap.mem_keys_of_get? found, mem_redirect.mp named⟩
  · rintro ⟨member, named⟩
    exact ⟨_, described.record?_eq member, mem_redirect.mpr named⟩

theorem mem_after_iff (described : Describes source ids graph) :
    other ∈ graph.after id ↔ id ∈ graph.workingSet ∧
      ∃ target ∈ (source.record id).after, other ∈ graph.resolve target := by
  conv_lhs => rw [described.constrained, mem_after_constrain]
  exact described.mem_redirected_iff CandidateRecord.after

theorem mem_before_iff (described : Describes source ids graph) :
    other ∈ graph.before id ↔ id ∈ graph.workingSet ∧
      ∃ target ∈ (source.record id).before, other ∈ graph.resolve target := by
  conv_lhs => rw [described.constrained, mem_before_constrain]
  exact described.mem_redirected_iff CandidateRecord.before

/-- An id asks for exactly the ids that must be placed before it. -/
theorem mem_requestedAfter_iff (described : Describes source ids graph) :
    other ∈ graph.requestedAfter id ↔ MustPrecede source graph other id := by
  conv_lhs => rw [described.constrained, mem_requestedAfter_constrain, ← described.constrained]
  rw [described.mem_after_iff, described.mem_before_iff]
  constructor
  · rintro (⟨member, _, declared, standsFor⟩ | ⟨member, _, declared, standsFor⟩ |
      ⟨declarer, record, found, named, replaced⟩)
    · exact .after member declared standsFor
    · exact .before member declared standsFor
    · obtain ⟨rfl, -⟩ := described.retired declarer record found
      obtain ⟨target, declared, standsFor⟩ := mem_redirect.mp named
      have member := IdMap.mem_keys_of_get? found
      refine .retired (IdMap.contains_iff.mpr member) ?_ declared standsFor
      rwa [described.resolve_eq_listed member]
  · rintro (⟨member, declared, standsFor⟩ | ⟨member, declared, standsFor⟩ |
      ⟨deprecated, replaced, declared, standsFor⟩)
    · exact Or.inl ⟨member, _, declared, standsFor⟩
    · exact Or.inr (Or.inl ⟨member, _, declared, standsFor⟩)
    · have member := IdMap.contains_iff.mp deprecated
      rw [described.resolve_eq_listed member] at replaced
      exact Or.inr (Or.inr ⟨_, _, described.retired_eq member,
        mem_redirect.mpr ⟨_, declared, standsFor⟩, replaced⟩)

/-- The sets that a graph holds for its ids are what their edges stand for, each id where it is first
stood for. -/
private theorem toList_redirected (described : Describes source ids graph)
    (edges : CandidateRecord → IdSet) :
    (((graph.records.mapValues fun record =>
      redirect graph.replacements (edges record)).get? id).getD ∅).toList =
      if id ∈ graph.workingSet then
        ((edges (source.record id)).toList.flatMap graph.resolve).eraseDups
      else [] := by
  rw [IdMap.get?_mapValues]
  split
  next member =>
    have found : graph.records.get? id = some (source.record id) := described.record?_eq member
    rw [found, Option.map_some, Option.getD_some, redirect_eq_ofList, IdSet.toList_ofList]
    rfl
  next absent =>
    rw [IdMap.get?_eq_none_iff.mpr absent]
    rfl

theorem toList_before (described : Describes source ids graph) :
    (graph.before id).toList = if id ∈ graph.workingSet then
      ((source.record id).before.toList.flatMap graph.resolve).eraseDups else [] := by
  conv_lhs => rw [described.constrained]
  exact described.toList_redirected CandidateRecord.before

theorem toList_after (described : Describes source ids graph) :
    (graph.after id).toList = if id ∈ graph.workingSet then
      ((source.record id).after.toList.flatMap graph.resolve).eraseDups else [] := by
  conv_lhs => rw [described.constrained]
  exact described.toList_redirected CandidateRecord.after

theorem prefix_requestedAfter (described : Describes source ids graph) (id : CandidateId) :
    (graph.after id).toList <+: (graph.requestedAfter id).toList := by
  rw [described.constrained]
  exact prefix_requestedAfter_constrain

/-- Over a source whose unavailable records have no edges, the walk goes on to all that the edges of
the working set name. -/
theorem leadsTo_of_edge (described : Describes source ids graph)
    (bare : source.EdgesOnlyWhenAvailable) {target : CandidateId} (member : id ∈ graph.workingSet)
    (named : target ∈ (source.record id).edges) : source.LeadsTo id target := by
  have available : (source.record id).available = true := by
    by_contra unavailable
    obtain ⟨noBefore, noAfter⟩ := bare id (Bool.not_eq_true _ ▸ unavailable)
    rw [CandidateRecord.edges, noBefore, noAfter] at named
    cases named
  exact Or.inr ⟨described.not_deprecated member, available, named⟩

theorem mem_workingSet_of_edge (described : Describes source ids graph)
    (bare : source.EdgesOnlyWhenAvailable) {target : CandidateId} (member : id ∈ graph.workingSet)
    (named : target ∈ (source.record id).edges) (standsFor : other ∈ graph.resolve target) :
    other ∈ graph.workingSet := by
  have leads := described.leadsTo_of_edge bare member named
  exact described.mem_workingSet_of_mem_resolve
    (described.closed id target (Or.inl member) leads) standsFor

theorem mem_workingSet_of_mem_before (described : Describes source ids graph)
    (bare : source.EdgesOnlyWhenAvailable) (member : other ∈ graph.before id) :
    other ∈ graph.workingSet := by
  obtain ⟨takesPart, target, declared, standsFor⟩ := described.mem_before_iff.mp member
  exact described.mem_workingSet_of_edge bare takesPart (List.mem_append_left _ declared) standsFor

/-- Over a source whose unavailable records have no edges, whatever must be placed before another
id takes part in the ordering. -/
theorem mem_workingSet_of_mustPrecede (described : Describes source ids graph)
    (bare : source.EdgesOnlyWhenAvailable) (precedes : MustPrecede source graph other id) :
    other ∈ graph.workingSet := by
  cases precedes with
  | after takesPart declared standsFor =>
    exact described.mem_workingSet_of_edge bare takesPart (List.mem_append_right _ declared) standsFor
  | before takesPart => exact takesPart
  | retired deprecated replaced =>
    exact described.mem_workingSet_of_mem_resolve
      (Or.inr (IdMap.contains_iff.mp deprecated)) replaced

end Describes

end CandidateGraph

end Activation
