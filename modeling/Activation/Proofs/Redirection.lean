import Activation.Proofs.Construction

/-!
# What retired ids hand on

A graph resolves the retired ids that it knows. `Describes.mem_resolve_iff` says what that comes to
in terms of the source alone: such an id stands for the live ids at the ends of its replacements.

A `before` of a retired id is handed on to what the id stands for, and to what its target stands
for as far as the graph knows the target (`requestedAfter_of_retired_before`). The walk does not
follow the edges of retired ids, so a retired target that nothing else leads to is not known, and
then the constraint misses the live ids behind it (`requestedAfter_misses_unreached_target`).
-/

namespace Activation

open Relation CandidateGraph

variable {source : Source} {ids : List CandidateId} {graph : CandidateGraph}
  {explorable : source.Explorable ids} {id other : CandidateId}

theorem Source.eq_of_replaces_of_live (live : (source.record id).isDeprecated = false)
    (follows : ReflTransGen source.Replaces id other) : other = id := by
  rcases ReflTransGen.cases_head follows with same | ⟨next, replaces, -⟩
  · exact same.symm
  · rw [CandidateRecord.isDeprecated_of_mem replaces] at live
    cases live

namespace CandidateGraph.Describes

/-- A known id stands for the live ids that its replacements lead to. -/
theorem mem_resolve_iff (described : graph.Describes source ids) (known : graph.Knows id) :
    other ∈ graph.resolve id ↔
      ReflTransGen source.Replaces id other ∧ (source.record other).isDeprecated = false := by
  -- The induction is on the replacements, which lead only finitely far from a known id.
  have finite := described.acc_replacements known
  induction finite with
  | intro id _ ih =>
    cases state : (source.record id).isDeprecated with
    | false =>
      rw [described.resolve_of_live state, List.mem_singleton]
      constructor
      · rintro rfl
        exact ⟨.refl, state⟩
      · exact fun follows => Source.eq_of_replaces_of_live state follows.1
    | true =>
      rw [described.resolve_of_retired (described.mem_deprecated known state), IdSet.mem_toList,
        IdSet.mem_ofList, List.mem_flatMap]
      constructor
      · rintro ⟨next, replaces, member⟩
        have next_known := described.closed id next known (Or.inl replaces)
        obtain ⟨follows, live⟩ := (ih next replaces next_known).mp member
        exact ⟨.head replaces follows, live⟩
      · rintro ⟨follows, live⟩
        rcases ReflTransGen.cases_head follows with rfl | ⟨next, replaces, follows⟩
        · rw [state] at live
          cases live
        · have next_known := described.closed id next known (Or.inl replaces)
          exact ⟨next, replaces, (ih next replaces next_known).mpr ⟨follows, live⟩⟩

/-- An id that a graph does not hold as retired stands for itself, whatever its source says. -/
theorem resolve_of_not_deprecated (described : graph.Describes source ids)
    (unknown : graph.isDeprecated id = false) : graph.resolve id = [id] := by
  have absent : graph.deprecated.get? id = none := by
    rw [IdMap.get?_eq_none_iff]
    intro held
    rw [isDeprecated, IdMap.contains_iff.mpr held] at unknown
    cases unknown
  simp only [resolve, described.complete.live id absent]

end CandidateGraph.Describes

/-! ### Constraints of retired ids -/

/-- A retired store is to start before the interface, which is retired as well. -/
def shelved : CandidateIndex := .ofEntries
  [(⟨"store"⟩, { before := [⟨"api"⟩], replacedBy := [⟨"vault"⟩] }),
    (⟨"api"⟩, { replacedBy := [⟨"gateway"⟩] }), (⟨"gateway"⟩, {}), (⟨"vault"⟩, {}),
    (⟨"monitor"⟩, { after := [⟨"api"⟩] })]

/-- What a retired id stands for must precede the live ids behind each target that the id declares,
if the target is reached or live itself. Otherwise the constraint stays with the target, which takes
no part. -/
theorem requestedAfter_of_retired_before
    (built : (build source ids explorable).value = .ok graph) {declarer target : CandidateId}
    (retired : graph.isDeprecated declarer = true)
    (declared : target ∈ (source.record declarer).before) :
    ((source.Reaches ids target ∨ (source.record target).isDeprecated = false) →
      ∀ last ∈ graph.workingSet, ReflTransGen source.Replaces target last →
        ∀ first ∈ graph.resolve declarer, first ∈ graph.requestedAfter last) ∧
    (¬ (source.Reaches ids target ∨ (source.record target).isDeprecated = false) →
      target ∉ graph.workingSet ∧
        ∀ first ∈ graph.resolve declarer, first ∈ graph.requestedAfter target) := by
  have described := describes_of_build built
  -- Whatever the target stands for in the graph gets the constraint.
  have handed : ∀ last ∈ graph.resolve target, ∀ first ∈ graph.resolve declarer,
      first ∈ graph.requestedAfter last := fun last standsFor first replaced =>
    described.mem_requestedAfter_iff.mpr (.retired retired replaced declared standsFor)
  constructor
  · intro found last member follows
    refine handed last ?_
    rcases found with reached | live
    · have known := (knows_iff built).mpr reached
      exact (described.mem_resolve_iff known).mpr ⟨follows, described.not_deprecated member⟩
    · rw [described.resolve_of_live live, List.mem_singleton]
      exact Source.eq_of_replaces_of_live live follows
  · intro missing
    rw [not_or, Bool.not_eq_false] at missing
    obtain ⟨unreached, deprecated⟩ := missing
    have unknown : graph.isDeprecated target = false := by
      rw [← Bool.not_eq_true, isDeprecated_iff built]
      exact fun held => unreached held.1
    refine ⟨fun member => ?_, handed target ?_⟩
    · rw [described.not_deprecated member] at deprecated
      cases deprecated
    · rw [described.resolve_of_not_deprecated unknown]
      exact List.mem_singleton_self target

/-- Once something leads to the retired interface, what replaces it waits for the store. -/
theorem requestedAfter_of_retired_before_shelved :
    ∃ graph, (build shelved.source [⟨"store"⟩, ⟨"monitor"⟩]
        (shelved.source_finite.explorable _)).value = .ok graph ∧
      ⟨"vault"⟩ ∈ graph.requestedAfter ⟨"gateway"⟩ := by
  obtain ⟨graph, built, retired, standsFor, member⟩ :
      ∃ graph, (build shelved.source [⟨"store"⟩, ⟨"monitor"⟩]
          (shelved.source_finite.explorable _)).value = .ok graph ∧
        graph.isDeprecated ⟨"store"⟩ = true ∧ ⟨"vault"⟩ ∈ graph.resolve ⟨"store"⟩ ∧
        ⟨"gateway"⟩ ∈ graph.workingSet :=
    exists_eq_ok_of_check (by simp only [Bool.decide_and]; cbv)
  have monitor : shelved.source.Reaches [⟨"store"⟩, ⟨"monitor"⟩] ⟨"monitor"⟩ :=
    .requested (by decide)
  have api : shelved.source.Reaches [⟨"store"⟩, ⟨"monitor"⟩] ⟨"api"⟩ :=
    .led monitor (Or.inr (by decide))
  have replaced : shelved.source.Replaces ⟨"api"⟩ ⟨"gateway"⟩ := by
    unfold Source.Replaces
    decide
  have declared : ⟨"api"⟩ ∈ (shelved.source.record ⟨"store"⟩).before := by decide
  obtain ⟨reaches, -⟩ := requestedAfter_of_retired_before built retired declared
  exact ⟨graph, built, reaches (Or.inl api) _ member (.single replaced) _ standsFor⟩

/-- Without that, the live id behind the declared target does not wait for it: the retired interface
stands for the gateway, but nothing led the walk to the interface. -/
theorem requestedAfter_misses_unreached_target :
    ∃ graph, (build shelved.source [⟨"store"⟩, ⟨"gateway"⟩]
        (shelved.source_finite.explorable _)).value = .ok graph ∧
      graph.isDeprecated ⟨"store"⟩ = true ∧
      ⟨"api"⟩ ∈ (shelved.source.record ⟨"store"⟩).before ∧
      ReflTransGen shelved.source.Replaces ⟨"api"⟩ ⟨"gateway"⟩ ∧
      ⟨"gateway"⟩ ∈ graph.workingSet ∧ ⟨"vault"⟩ ∈ graph.resolve ⟨"store"⟩ ∧
      ⟨"vault"⟩ ∉ graph.requestedAfter ⟨"gateway"⟩ := by
  obtain ⟨graph, built, retired, member, standsFor, missed⟩ :
      ∃ graph, (build shelved.source [⟨"store"⟩, ⟨"gateway"⟩]
          (shelved.source_finite.explorable _)).value = .ok graph ∧
        graph.isDeprecated ⟨"store"⟩ = true ∧ ⟨"gateway"⟩ ∈ graph.workingSet ∧
        ⟨"vault"⟩ ∈ graph.resolve ⟨"store"⟩ ∧ ⟨"vault"⟩ ∉ graph.requestedAfter ⟨"gateway"⟩ :=
    exists_eq_ok_of_check (by simp only [Bool.decide_and]; cbv)
  have replaced : shelved.source.Replaces ⟨"api"⟩ ⟨"gateway"⟩ := by
    unfold Source.Replaces
    decide
  exact ⟨graph, built, retired, by decide, .single replaced, member, standsFor, missed⟩

end Activation
