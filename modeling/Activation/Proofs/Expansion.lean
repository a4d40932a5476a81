import Activation.Proofs.Redirection

/-!
# Resolution as plain expansion

The resolution keeps what it has found out about an id and takes it from there when the id comes up
again. The plain way would be to expand every retired id into its replacements anew, each time it is
met. `Resolution.Expands` states the two equations of that recursion, and where replacements lead
only finitely far just one function satisfies them (`Resolution.Complete.expands_iff`). So the order
in which the retired ids are worked through does not matter (`Resolution.Complete.of_same`), and
`resolve_eq_expansion` says all this of the graphs that are built.
-/

namespace Activation

open Relation CandidateGraph

namespace Resolution

variable {deprecated other : IdMap CandidateRecord} {replacements : IdMap IdSet}

/-- The plain recursion: an id that is not retired stands for itself, a retired one for what its
replacements stand for, in their order, each id where it comes first. -/
structure Expands (deprecated : IdMap CandidateRecord)
    (expand : CandidateId → List CandidateId) : Prop where
  live : ∀ id, deprecated.get? id = none → expand id = [id]
  retired : ∀ id record, deprecated.get? id = some record →
    expand id = (record.replacements.toList.flatMap expand).eraseDups

/-- What a finished resolution has stored is what plain expansion gives, and nothing else is. -/
theorem Complete.expands_iff (complete : Complete deprecated replacements)
    {expand : CandidateId → List CandidateId} :
    Expands deprecated expand ↔ expand = standsFor replacements := by
  constructor
  · intro expands
    funext id
    -- The induction is on the replacements, which lead only finitely far.
    induction complete.finite.apply id with
    | intro id _ ih =>
      cases found : deprecated.get? id with
      | none =>
        have absent := IdMap.get?_eq_none_iff.mp (complete.live id found)
        rw [expands.live id found, standsFor_of_not_mem absent]
      | some record =>
        have same : record.replacements.toList.flatMap expand =
            record.replacements.toList.flatMap (standsFor replacements) :=
          List.flatMap_congr fun next replaces => ih next ⟨record, found, replaces⟩
        rw [expands.retired id record found, standsFor_of_get? (complete.retired id record found),
          IdSet.toList_ofList, same]
  · rintro rfl
    constructor
    · intro id found
      exact standsFor_of_not_mem (IdMap.get?_eq_none_iff.mp (complete.live id found))
    · intro id record found
      rw [standsFor_of_get? (complete.retired id record found), IdSet.toList_ofList]

/-- A resolution of the same records in another order succeeds as well. -/
theorem Complete.exists_eq_ok (complete : Complete deprecated replacements)
    (same : ∀ id, other.get? id = deprecated.get? id) :
    ∃ result, resolveReplacements other = .ok result := by
  cases returned : resolveReplacements other with
  | ok result => exact ⟨result, rfl⟩
  | error loop =>
    -- A loop of replacements would be one in the first order, too.
    have isLoop : IsLoop (Replaces deprecated) loop := by
      refine (isLoop_of_resolveReplacements returned).mono ?_
      rintro id next ⟨record, found, replaces⟩
      exact ⟨record, same id ▸ found, replaces⟩
    obtain ⟨id, member⟩ := isLoop.exists_mem
    exact absurd (isLoop.transGen member) (DepthFirst.not_transGen_self (complete.finite.apply id))

/-- The order of the retired ids has no influence on what they stand for. -/
theorem Complete.of_same (complete : Complete deprecated replacements)
    (same : ∀ id, other.get? id = deprecated.get? id) :
    ∃ result, resolveReplacements other = .ok result ∧
      ∀ id, result.get? id = replacements.get? id := by
  obtain ⟨result, returned⟩ := complete.exists_eq_ok same
  have complete' := complete_of_resolveReplacements returned
  -- The second result satisfies the equations of the first one, so it gives each id the same list.
  have expands : Expands deprecated (standsFor result) := by
    have expands' := complete'.expands_iff.mpr rfl
    exact ⟨fun id found => expands'.live id ((same id).trans found),
      fun id record found => expands'.retired id record ((same id).trans found)⟩
  have equal := complete.expands_iff.mp expands
  refine ⟨result, returned, fun id => ?_⟩
  cases found : deprecated.get? id with
  | none => rw [complete.live id found, complete'.live id ((same id).trans found)]
  | some record =>
    have first := complete.retired id record found
    have second := complete'.retired id record ((same id).trans found)
    rw [first, second, equal]

end Resolution

variable {source : Source} {ids : List CandidateId} {graph : CandidateGraph}
  {explorable : source.Explorable ids} {id : CandidateId}

theorem CandidateRecord.exists_mem_replacements {r : CandidateRecord}
    (retired : r.isDeprecated = true) : ∃ id, id ∈ r.replacements := by
  apply List.exists_mem_of_ne_nil
  intro empty
  have live : r.isDeprecated = false := isDeprecated_eq_false_iff.mpr (IdSet.ext empty)
  rw [retired] at live
  cases live

namespace CandidateGraph.Describes

/-- A known id stands for at least one id. -/
theorem exists_mem_resolve (described : graph.Describes source ids) (known : graph.Knows id) :
    ∃ other, other ∈ graph.resolve id := by
  have finite := described.acc_replacements known
  induction finite with
  | intro id _ ih =>
    cases state : (source.record id).isDeprecated with
    | false =>
      rw [described.resolve_of_live state]
      exact ⟨id, List.mem_singleton_self id⟩
    | true =>
      obtain ⟨next, replaces⟩ := CandidateRecord.exists_mem_replacements state
      obtain ⟨last, standsFor⟩ :=
        ih next replaces (described.closed id next known (Or.inl replaces))
      refine ⟨last, ?_⟩
      rw [described.resolve_of_retired (described.mem_deprecated known state), IdSet.mem_toList,
        IdSet.mem_ofList, List.mem_flatMap]
      exact ⟨next, replaces, standsFor⟩

/-- Just the retired ids have an entry that says what they stand for. -/
theorem mem_keys_replacements_iff (described : graph.Describes source ids) :
    id ∈ graph.replacements.keys ↔ graph.isDeprecated id = true := by
  rw [isDeprecated, IdMap.contains_iff]
  constructor
  · intro stored
    by_contra unknown
    exact IdMap.get?_eq_none_iff.mp
      (described.complete.live id (IdMap.get?_eq_none_iff.mpr unknown)) stored
  · intro retired
    obtain ⟨record, found⟩ := IdMap.mem_keys_iff.mp retired
    exact IdMap.mem_keys_of_get? (described.complete.retired id record found)

theorem keys_successors (described : graph.Describes source ids) :
    graph.successors.keys = graph.workingSet := by
  conv_lhs => rw [described.constrained]
  exact IdMap.keys_mapValues _ _

end CandidateGraph.Describes

theorem nodup_resolve (graph : CandidateGraph) (id : CandidateId) : (graph.resolve id).Nodup := by
  unfold resolve
  split
  next standsFor _ => exact standsFor.nodup
  next => exact List.nodup_singleton id

/-- A suite that is retired in favor of two tools, both retired themselves in favor of one core. -/
def suite : CandidateIndex := .ofEntries
  [(⟨"suite"⟩, { replacedBy := [⟨"viewer"⟩, ⟨"editor"⟩] }),
    (⟨"viewer"⟩, { replacedBy := [⟨"core"⟩, ⟨"ui"⟩] }),
    (⟨"editor"⟩, { replacedBy := [⟨"log"⟩, ⟨"core"⟩] }), (⟨"core"⟩, {}), (⟨"ui"⟩, {}),
    (⟨"log"⟩, {})]

/-- What the ids of a graph stand for is what plain expansion of the retired ones gives. It meets the
two equations of that recursion, and nothing else does. A retired id stands for at least one id, and
for each one once, all of them live and in the working set. The order in which the retired ids are
resolved makes no difference, and every entry is there that the constraints are put together
from. -/
theorem resolve_eq_expansion (built : (build source ids explorable).value = .ok graph) :
    (∀ id, graph.isDeprecated id = false → graph.resolve id = [id]) ∧
    (∀ id, graph.isDeprecated id = true →
      graph.resolve id =
        ((source.record id).replacements.toList.flatMap graph.resolve).eraseDups ∧
      graph.resolve id ≠ [] ∧ (graph.resolve id).Nodup ∧
      ∀ other ∈ graph.resolve id,
        other ∈ graph.workingSet ∧ graph.isDeprecated other = false) ∧
    (∀ expand : CandidateId → List CandidateId,
      (∀ id, graph.isDeprecated id = false → expand id = [id]) →
      (∀ id, graph.isDeprecated id = true →
        expand id = ((source.record id).replacements.toList.flatMap expand).eraseDups) →
      expand = graph.resolve) ∧
    (∀ retired : IdMap CandidateRecord, retired.entries.Perm graph.deprecated.entries →
      ∃ replacements, resolveReplacements retired = .ok replacements ∧
        ∀ id, replacements.get? id = graph.replacements.get? id) ∧
    (∀ id, (∃ standsFor, graph.replacements.get? id = some standsFor) ↔
      graph.isDeprecated id = true) ∧
    ∀ id ∈ graph.workingSet, ∃ targets, graph.successors.get? id = some targets := by
  have described := describes_of_build built
  refine ⟨fun id => described.resolve_of_not_deprecated, fun id retired => ?_,
    fun expand live expanded => ?_, fun retired perm => ?_, fun id => ?_,
    fun id member => ?_⟩
  · have member := IdMap.contains_iff.mp retired
    obtain ⟨last, standsFor⟩ := described.exists_mem_resolve (Or.inr member)
    refine ⟨?_, List.ne_nil_of_mem standsFor, nodup_resolve graph id, fun other standsFor => ?_⟩
    · rw [described.resolve_of_retired member, IdSet.toList_ofList]
    · have takesPart := described.mem_workingSet_of_mem_resolve (Or.inr member) standsFor
      exact ⟨takesPart, isDeprecated_eq_false built takesPart⟩
  · apply described.complete.expands_iff.mp
    refine ⟨fun id absent => live id ?_, fun id record found => ?_⟩
    · rw [isDeprecated, IdMap.contains, absent]
      rfl
    · obtain ⟨rfl, -⟩ := described.retired id record found
      exact expanded id (IdMap.contains_iff.mpr (IdMap.mem_keys_of_get? found))
  · refine described.complete.of_same fun id => Option.ext fun record => ?_
    rw [IdMap.get?_eq_some_iff, IdMap.get?_eq_some_iff]
    exact perm.mem_iff
  · exact IdMap.mem_keys_iff.symm.trans described.mem_keys_replacements_iff
  · exact IdMap.mem_keys_iff.mp (described.keys_successors ▸ member)

/-- Both tools lead to the core, which the suite stands for once. -/
theorem resolve_eq_expansion_suite :
    ∃ graph, (build suite.source [⟨"suite"⟩]
        (suite.source_finite.explorable _)).value = .ok graph ∧
      graph.resolve ⟨"suite"⟩ = [⟨"core"⟩, ⟨"ui"⟩, ⟨"log"⟩] ∧
      ∃ replacements,
        resolveReplacements ⟨graph.deprecated.entries.reverse,
          (graph.deprecated.entries.reverse_perm.map Prod.fst).nodup_iff.mpr
            graph.deprecated.nodup⟩ = .ok replacements ∧
        ∀ id, replacements.get? id = graph.replacements.get? id := by
  obtain ⟨graph, built, ⟨whole, viewer, editor⟩, core, ui, log⟩ :
      ∃ graph, (build suite.source [⟨"suite"⟩]
          (suite.source_finite.explorable _)).value = .ok graph ∧
        (graph.isDeprecated ⟨"suite"⟩ = true ∧ graph.isDeprecated ⟨"viewer"⟩ = true ∧
          graph.isDeprecated ⟨"editor"⟩ = true) ∧
        graph.isDeprecated ⟨"core"⟩ = false ∧ graph.isDeprecated ⟨"ui"⟩ = false ∧
          graph.isDeprecated ⟨"log"⟩ = false :=
    exists_eq_ok_of_check (by simp only [Bool.decide_and]; cbv)
  obtain ⟨live, retired, -, reordered, -, -⟩ := resolve_eq_expansion built
  have ofSuite : (suite.source.record ⟨"suite"⟩).replacements.toList =
      [⟨"viewer"⟩, ⟨"editor"⟩] := by decide
  have ofViewer : (suite.source.record ⟨"viewer"⟩).replacements.toList =
      [⟨"core"⟩, ⟨"ui"⟩] := by decide
  have ofEditor : (suite.source.record ⟨"editor"⟩).replacements.toList =
      [⟨"log"⟩, ⟨"core"⟩] := by decide
  have viewed : graph.resolve ⟨"viewer"⟩ = [⟨"core"⟩, ⟨"ui"⟩] := by
    rw [(retired _ viewer).1, ofViewer, List.flatMap_cons, live _ core, List.flatMap_singleton,
      live _ ui]
    rfl
  have edited : graph.resolve ⟨"editor"⟩ = [⟨"log"⟩, ⟨"core"⟩] := by
    rw [(retired _ editor).1, ofEditor, List.flatMap_cons, live _ log, List.flatMap_singleton,
      live _ core]
    rfl
  refine ⟨graph, built, ?_, reordered _ graph.deprecated.entries.reverse_perm⟩
  rw [(retired _ whole).1, ofSuite, List.flatMap_cons, viewed, List.flatMap_singleton, edited]
  rfl

end Activation
