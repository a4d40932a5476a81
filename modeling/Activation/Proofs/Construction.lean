import Activation.Proofs.Loops
import Activation.Proofs.Order

/-!
# Correctness of candidate graphs

The main results about building a graph, for every source and every list of ids:

* `build_fails_iff`: a build fails exactly where a retired id that is reached stands, through
  replacements, for itself, and the error shows such a loop,
* `graph_holds_reached`: the working set and the retired ids are the ids that are reached, each one
  in one of the two and there once,
* `requestedAfter_iff_declared`: the ids that must precede an id are those that were declared to, on
  either side, with retired ids replaced by what they stand for.

A graph can be built where the walk comes to an end, and it does so exactly where only finitely many
ids are reached (`Walk.explorable_iff`).
-/

namespace Activation

open Relation CandidateGraph

variable {source : Source} {ids : List CandidateId} {graph : CandidateGraph}
  {explorable : source.Explorable ids}

/-- The second id is one of the replacements of the first one. -/
def Source.Replaces (source : Source) (id other : CandidateId) : Prop :=
  other ∈ (source.record id).replacements

/-! ### Loops of replacements -/

theorem build_eq_error_iff {error : OrderingError} :
    (build source ids explorable).value = .error error ↔
      ∃ chain, resolveReplacements (Walk.run source ids explorable).deprecated = .error chain ∧
        error = .replacementCycle chain := by
  simp only [build, Reported.value_bind]
  cases resolveReplacements (Walk.run source ids explorable).deprecated with
  | error chain =>
    constructor
    · intro failed
      cases failed
      exact ⟨chain, rfl, rfl⟩
    · rintro ⟨_, same, rfl⟩
      cases same
      rfl
  | ok replacements =>
    constructor
    · intro failed
      cases failed
    · rintro ⟨_, failed, -⟩
      cases failed

theorem not_transGen_replaces_of_build (built : (build source ids explorable).value = .ok graph)
    {id : CandidateId} (reached : source.Reaches ids id) :
    ¬ TransGen source.Replaces id id := by
  have described := describes_of_build built
  have known : graph.Knows id := (knows_iff built).mpr reached
  exact DepthFirst.not_transGen_self (described.acc_replacements known)

/-- The ids that a failed build reports run in a loop of replacements, all of them retired. -/
theorem isLoop_of_build_eq_error {chain : List CandidateId}
    (failed : (build source ids explorable).value = .error (.replacementCycle chain)) :
    IsLoop source.Replaces chain ∧
      ∀ id ∈ chain, source.Reaches ids id ∧ (source.record id).isDeprecated = true := by
  obtain ⟨loop, resolved, same⟩ := build_eq_error_iff.mp failed
  obtain rfl : chain = loop := OrderingError.replacementCycle.inj same
  have isLoop := Resolution.isLoop_of_resolveReplacements resolved
  have filed := Walk.filed_run explorable
  refine ⟨isLoop.mono fun id other replaces => ?_, fun id member => ?_⟩
  · obtain ⟨record, found, replaced⟩ := replaces
    obtain ⟨rfl, -⟩ := filed.retired id record found
    exact replaced
  · -- A member of the loop has a replacement, so it is among the retired ids of the walk.
    obtain ⟨_, ⟨record, found, -⟩, -⟩ := TransGen.head'_iff.mp (isLoop.transGen member)
    exact (Walk.mem_deprecated_run_iff explorable).mp (IdMap.mem_keys_of_get? found)

/-- Two retired services, each one among the replacements of the other. -/
def revolving : CandidateIndex := .ofEntries
  [(⟨"app"⟩, { after := [⟨"mail"⟩] }), (⟨"mail"⟩, { replacedBy := [⟨"smtp"⟩, ⟨"post"⟩] }),
    (⟨"post"⟩, { replacedBy := [⟨"smtp"⟩, ⟨"mail"⟩] })]

/-- A build fails exactly where a retired id that is reached stands for itself through replacements.
The only error is a loop of replacements, all of them reached and retired. -/
theorem build_fails_iff (explorable : source.Explorable ids) :
    ((∃ error, (build source ids explorable).value = .error error) ↔
      ∃ id, source.Reaches ids id ∧ (source.record id).isDeprecated = true ∧
        TransGen source.Replaces id id) ∧
    ∀ error, (build source ids explorable).value = .error error →
      ∃ chain, error = .replacementCycle chain ∧ IsLoop source.Replaces chain ∧
        ∀ id ∈ chain, source.Reaches ids id ∧ (source.record id).isDeprecated = true := by
  have reported : ∀ error, (build source ids explorable).value = .error error →
      ∃ chain, error = .replacementCycle chain ∧ IsLoop source.Replaces chain ∧
        ∀ id ∈ chain, source.Reaches ids id ∧ (source.record id).isDeprecated = true := by
    intro error failed
    obtain ⟨chain, -, rfl⟩ := build_eq_error_iff.mp failed
    exact ⟨chain, rfl, isLoop_of_build_eq_error failed⟩
  refine ⟨⟨?_, ?_⟩, reported⟩
  · rintro ⟨error, failed⟩
    obtain ⟨chain, -, isLoop, members⟩ := reported error failed
    obtain ⟨id, member⟩ : ∃ id, id ∈ chain :=
      List.exists_mem_of_length_pos (Nat.lt_of_lt_of_le Nat.two_pos isLoop.long)
    obtain ⟨reached, retired⟩ := members id member
    exact ⟨id, reached, retired, isLoop.transGen member⟩
  · rintro ⟨id, reached, -, circle⟩
    cases result : (build source ids explorable).value with
    | error error => exact ⟨error, rfl⟩
    | ok graph => exact absurd circle (not_transGen_replaces_of_build result reached)

theorem build_fails_revolving :
    ∃ chain, (build revolving.source [⟨"app"⟩]
        (revolving.source_finite.explorable _)).value = .error (.replacementCycle chain) ∧
      IsLoop revolving.source.Replaces chain ∧
      ∀ id ∈ chain, revolving.source.Reaches [⟨"app"⟩] id ∧
        (revolving.source.record id).isDeprecated = true := by
  obtain ⟨fails, reported⟩ := build_fails_iff (revolving.source_finite.explorable [⟨"app"⟩])
  have replaced : revolving.source.Replaces ⟨"mail"⟩ ⟨"post"⟩ := by
    unfold Source.Replaces
    decide
  have back : revolving.source.Replaces ⟨"post"⟩ ⟨"mail"⟩ := by
    unfold Source.Replaces
    decide
  have given : (⟨"app"⟩ : CandidateId) ∈ [⟨"app"⟩] := by decide
  have reached : revolving.source.Reaches [⟨"app"⟩] ⟨"mail"⟩ := by
    refine .led (.requested given) (Or.inr ?_)
    decide
  obtain ⟨error, failed⟩ :=
    fails.mpr ⟨⟨"mail"⟩, reached, by decide, .tail (.single replaced) back⟩
  obtain ⟨chain, rfl, isLoop, members⟩ := reported error failed
  exact ⟨chain, failed, isLoop, members⟩

/-! ### Reached ids -/

/-- A graph holds the ids that are reached, retired ones apart from the others, and for each of the
others its record. -/
theorem graph_holds_reached (built : (build source ids explorable).value = .ok graph) :
    (∀ id, id ∈ graph.workingSet ↔
      source.Reaches ids id ∧ (source.record id).isDeprecated = false) ∧
    (∀ id, graph.isDeprecated id = true ↔
      source.Reaches ids id ∧ (source.record id).isDeprecated = true) ∧
    graph.workingSet.Nodup ∧ graph.deprecated.keys.Nodup ∧
    (∀ id ∈ graph.workingSet, graph.record? id = some (source.record id)) ∧
    (∀ id ∈ graph.primary, id ∈ graph.workingSet) ∧
    graph.inherited.Nodup ∧
    ∀ id, id ∈ graph.inherited ↔ id ∈ graph.workingSet ∧ id ∉ graph.primary := by
  have described := describes_of_build built
  refine ⟨fun id => mem_workingSet_iff built, fun id => isDeprecated_iff built,
    graph.records.nodup_keys, graph.deprecated.nodup_keys, fun id => described.record?_eq,
    fun id member => ?_, graph.records.nodup_keys.filter _, fun id => ?_⟩
  · -- A primary id is what some requested id stands for.
    rw [primary_eq_requested built] at member
    obtain ⟨name, given, standsFor⟩ := mem_requested.mp member
    exact described.mem_workingSet_of_mem_resolve (described.requested name given) standsFor
  · rw [inherited, List.mem_filter, decide_eq_true_eq]

theorem graph_holds_reached_webStack :
    ∃ graph, (build webStack.source [⟨"web"⟩, ⟨"db"⟩]
        (webStack.source_finite.explorable _)).value = .ok graph ∧
      ⟨"pg"⟩ ∈ graph.workingSet ∧ graph.isDeprecated ⟨"db"⟩ = true ∧
      ⟨"cache"⟩ ∈ graph.inherited ∧ ⟨"pg"⟩ ∉ graph.inherited ∧
      ¬ webStack.source.Reaches [⟨"web"⟩, ⟨"db"⟩] ⟨"log"⟩ := by
  obtain ⟨graph, built, primary, absent⟩ :
      ∃ graph, (build webStack.source [⟨"web"⟩, ⟨"db"⟩]
          (webStack.source_finite.explorable _)).value = .ok graph ∧
        graph.primary.toList = [⟨"web"⟩, ⟨"pg"⟩] ∧ ⟨"log"⟩ ∉ graph.workingSet :=
    exists_eq_ok_of_check (by simp only [Bool.decide_and]; cbv)
  obtain ⟨held, retired, -, -, -, -, -, inherited⟩ := graph_holds_reached built
  have web : webStack.source.Reaches [⟨"web"⟩, ⟨"db"⟩] ⟨"web"⟩ := .requested (by decide)
  have cache : webStack.source.Reaches [⟨"web"⟩, ⟨"db"⟩] ⟨"cache"⟩ := .led web (Or.inr (by decide))
  -- `db` is reached through `cache` before its turn comes, and its replacement through it.
  have db : webStack.source.Reaches [⟨"web"⟩, ⟨"db"⟩] ⟨"db"⟩ := .led cache (Or.inr (by decide))
  have pg : webStack.source.Reaches [⟨"web"⟩, ⟨"db"⟩] ⟨"pg"⟩ := .led db (Or.inl (by decide))
  have takesPart : ⟨"pg"⟩ ∈ graph.workingSet := (held ⟨"pg"⟩).mpr ⟨pg, by decide⟩
  have steers : ⟨"cache"⟩ ∈ graph.workingSet := (held ⟨"cache"⟩).mpr ⟨cache, by decide⟩
  refine ⟨graph, built, takesPart, (retired ⟨"db"⟩).mpr ⟨db, by decide⟩, ?_, ?_, ?_⟩
  · rw [inherited, ← IdSet.mem_toList, primary]
    exact ⟨steers, by decide⟩
  · rw [inherited, ← IdSet.mem_toList, primary]
    exact fun listed => listed.2 (by decide)
  · intro reached
    exact absent ((held ⟨"log"⟩).mpr ⟨reached, by decide⟩)

/-! ### Constraints -/

namespace CandidateGraph.Describes

variable {x y : CandidateId}

/-- Both sides can declare that an id must precede another one, and retired ids hand on what they
declared. -/
theorem mem_requestedAfter_iff_mem_edges (described : graph.Describes source ids) :
    y ∈ graph.requestedAfter x ↔
      y ∈ graph.after x ∨ (y ∈ graph.workingSet ∧ x ∈ graph.before y) ∨
      ∃ retired, graph.isDeprecated retired = true ∧ y ∈ graph.resolve retired ∧
        ∃ target ∈ (source.record retired).before, x ∈ graph.resolve target := by
  rw [described.mem_requestedAfter_iff, described.mem_after_iff, described.mem_before_iff]
  constructor
  · intro precedes
    cases precedes with
    | after member declared standsFor => exact Or.inl ⟨member, _, declared, standsFor⟩
    | before member declared standsFor =>
      exact Or.inr (Or.inl ⟨member, member, _, declared, standsFor⟩)
    | retired deprecated replaced declared standsFor =>
      exact Or.inr (Or.inr ⟨_, deprecated, replaced, _, declared, standsFor⟩)
  · rintro (⟨member, _, declared, standsFor⟩ | ⟨-, member, _, declared, standsFor⟩ |
      ⟨_, deprecated, replaced, _, declared, standsFor⟩)
    · exact .after member declared standsFor
    · exact .before member declared standsFor
    · exact .retired deprecated replaced declared standsFor

/-- Over a source whose unavailable records have no edges no constraint leaves the working set. -/
theorem mem_workingSet_of_constrained (described : graph.Describes source ids)
    (bare : source.EdgesOnlyWhenAvailable)
    (constrained : y ∈ graph.before x ∨ y ∈ graph.after x ∨ y ∈ graph.requestedAfter x) :
    y ∈ graph.workingSet := by
  rcases constrained with before | after | requested
  · exact described.mem_workingSet_of_mem_before bare before
  · obtain ⟨member, target, declared, standsFor⟩ := described.mem_after_iff.mp after
    exact described.mem_workingSet_of_mustPrecede bare (.after member declared standsFor)
  · exact described.mem_workingSet_of_mustPrecede bare
      (described.mem_requestedAfter_iff.mp requested)

end CandidateGraph.Describes

/-- An id asks for those it was declared to follow, those that were declared to precede it, and what
the retired ids stand for that were declared to precede it. The declarations are the source's, each
target replaced by what it stands for, and where only available records have edges no constraint
leaves the working set. -/
theorem requestedAfter_iff_declared (built : (build source ids explorable).value = .ok graph) :
    (∀ x y, y ∈ graph.requestedAfter x ↔
      y ∈ graph.after x ∨ (y ∈ graph.workingSet ∧ x ∈ graph.before y) ∨
      ∃ retired, graph.isDeprecated retired = true ∧ y ∈ graph.resolve retired ∧
        ∃ target ∈ (source.record retired).before, x ∈ graph.resolve target) ∧
    (∀ z ∈ graph.workingSet,
      (graph.before z).toList =
        ((source.record z).before.toList.flatMap graph.resolve).eraseDups ∧
      (graph.after z).toList =
        ((source.record z).after.toList.flatMap graph.resolve).eraseDups) ∧
    (∀ z, z ∉ graph.workingSet → graph.before z = ∅ ∧ graph.after z = ∅) ∧
    (source.EdgesOnlyWhenAvailable →
      ∀ x y, (y ∈ graph.before x ∨ y ∈ graph.after x ∨ y ∈ graph.requestedAfter x) →
        y ∈ graph.workingSet ∧ graph.isDeprecated y = false ∧
          (source.record y).isDeprecated = false) := by
  have described := describes_of_build built
  refine ⟨fun x y => described.mem_requestedAfter_iff_mem_edges, fun z member => ?_,
    fun z absent => ?_, fun bare x y constrained => ?_⟩
  · rw [described.toList_before, described.toList_after, if_pos member, if_pos member]
    exact ⟨rfl, rfl⟩
  · constructor
    · exact IdSet.ext (by rw [described.toList_before, if_neg absent]; rfl)
    · exact IdSet.ext (by rw [described.toList_after, if_neg absent]; rfl)
  · have takesPart := described.mem_workingSet_of_constrained bare constrained
    exact ⟨takesPart, isDeprecated_eq_false built takesPart, described.not_deprecated takesPart⟩

theorem requestedAfter_iff_declared_webStack :
    ∃ graph, (build webStack.source [⟨"web"⟩]
        (webStack.source_finite.explorable _)).value = .ok graph ∧
      ⟨"log"⟩ ∉ graph.workingSet ∧ ⟨"pg"⟩ ∈ graph.requestedAfter ⟨"log"⟩ ∧
      ⟨"pg"⟩ ∈ graph.workingSet ∧ (graph.after ⟨"cache"⟩).toList = [⟨"pg"⟩] := by
  obtain ⟨graph, built, retired, stands, outside, member, absent⟩ :
      ∃ graph, (build webStack.source [⟨"web"⟩]
          (webStack.source_finite.explorable _)).value = .ok graph ∧
        graph.isDeprecated ⟨"db"⟩ = true ∧ graph.resolve ⟨"db"⟩ = [⟨"pg"⟩] ∧
        graph.resolve ⟨"log"⟩ = [⟨"log"⟩] ∧ ⟨"cache"⟩ ∈ graph.workingSet ∧
        ⟨"log"⟩ ∉ graph.workingSet :=
    exists_eq_ok_of_check (by simp only [Bool.decide_and]; cbv)
  obtain ⟨requests, edges, -, inside⟩ := requestedAfter_iff_declared built
  -- `db` is retired, so `pg` has to stand before `log`, which takes no part itself.
  have declared : ⟨"log"⟩ ∈ (webStack.source.record ⟨"db"⟩).before := by decide
  have requested : ⟨"pg"⟩ ∈ graph.requestedAfter ⟨"log"⟩ := by
    refine (requests ⟨"log"⟩ ⟨"pg"⟩).mpr (Or.inr (Or.inr ⟨⟨"db"⟩, retired, ?_, _, declared, ?_⟩))
    · simp [stands]
    · simp [outside]
  have takesPart := inside webStack.source_edgesOnlyWhenAvailable ⟨"log"⟩ ⟨"pg"⟩
    (Or.inr (Or.inr requested))
  have raw : (webStack.source.record ⟨"cache"⟩).after.toList = [⟨"db"⟩] := by decide
  refine ⟨graph, built, absent, requested, takesPart.1, ?_⟩
  rw [(edges ⟨"cache"⟩ member).2, raw, List.flatMap_singleton, stands]
  rfl

end Activation
