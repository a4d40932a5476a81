import Activation.Proofs.Expansion
import Activation.Proofs.Interchange
import Activation.Proofs.Validation

/-!
# Candidates that refer to themselves

Validation refuses an index whose entries refer to themselves. Here this is shown to be no mere
matter of form: wherever such an entry is reached, nothing can be put in order.

An id that is among its own replacements is a loop of replacements
(`orderCandidates_of_own_replacement`). An id with an edge to itself must precede itself if it is
live; if it is retired, whatever it stands for must (`CandidateGraph.Describes.exists_requests_self`).
Only what a retired id declares to follow is never looked at, itself included.
-/

namespace Activation

open CandidateGraph

variable {source : Source} {ids : List CandidateId} {graph : CandidateGraph}
  {explorable : source.Explorable ids} {id : CandidateId}

/-! ### What an id asks of itself -/

/-- An id that is declared to precede or to follow itself makes some id of the working set ask for
itself, unless it is retired and only declared to follow itself. -/
theorem CandidateGraph.Describes.exists_requests_self (described : graph.Describes source ids)
    (known : graph.Knows id)
    (own : id ∈ (source.record id).before ∨
      (id ∈ (source.record id).after ∧ (source.record id).isDeprecated = false)) :
    ∃ other ∈ graph.workingSet, graph.Requests other other := by
  cases state : (source.record id).isDeprecated with
  | false =>
    have member := described.mem_workingSet known state
    have itself : id ∈ graph.resolve id := by
      rw [described.resolve_of_live state]
      exact List.mem_singleton_self id
    refine ⟨id, member, described.mem_requestedAfter_iff.mpr ?_⟩
    rcases own with before | ⟨after, -⟩
    · exact .before member before itself
    · exact .after member after itself
  | true =>
    -- The constraint is handed on: what the id stands for must precede itself.
    have before : id ∈ (source.record id).before := by
      rcases own with before | ⟨-, live⟩
      · exact before
      · rw [state] at live
        cases live
    have retired := IdMap.contains_iff.mpr (described.mem_deprecated known state)
    obtain ⟨other, standsFor⟩ := described.exists_mem_resolve known
    have member := described.mem_workingSet_of_mem_resolve known standsFor
    exact ⟨other, member,
      described.mem_requestedAfter_iff.mpr (.retired retired standsFor before standsFor)⟩

/-- An id of the working set that asks for itself is found by every sort. -/
theorem CandidateGraph.Describes.exists_sort_eq_cycle (described : graph.Describes source ids)
    (bare : source.EdgesOnlyWhenAvailable) (member : id ∈ graph.workingSet)
    (requests : graph.Requests id id) (names : List CandidateId) :
    ∃ a b, (sort names graph).value = .error (.cycle a b) := by
  have unfinished := described.cycle_placement_ne_none bare names member (.single requests)
  obtain ⟨⟨a, b⟩, closed⟩ := Option.ne_none_iff_exists'.mp unfinished
  exact ⟨a, b, sort_eq_error_iff.mpr ⟨a, b, closed, rfl⟩⟩

/-! ### What becomes of the order -/

/-- No build gets past an id that is one of its own replacements. -/
theorem orderCandidates_of_own_replacement (explorable : source.Explorable ids)
    (reached : source.Reaches ids id) (own : source.Replaces id id) :
    ∃ chain, (orderCandidates source ids explorable).value = .error (.replacementCycle chain) := by
  rw [value_orderCandidates]
  cases result : (build source ids explorable).value with
  | ok graph => exact absurd (.single own) (not_transGen_replaces_of_build result reached)
  | error error =>
    obtain ⟨chain, -, rfl⟩ := build_eq_error_iff.mp result
    exact ⟨chain, rfl⟩

/-- No order gets past an id with an edge to itself. -/
theorem orderCandidates_of_own_edge (explorable : source.Explorable ids)
    (bare : source.EdgesOnlyWhenAvailable) (reached : source.Reaches ids id)
    (own : id ∈ (source.record id).before ∨
      (id ∈ (source.record id).after ∧ (source.record id).isDeprecated = false)) :
    (∃ chain, (build source ids explorable).value = .error (.replacementCycle chain) ∧
      (orderCandidates source ids explorable).value = .error (.replacementCycle chain)) ∨
    ∃ graph a b, (build source ids explorable).value = .ok graph ∧
      (orderCandidates source ids explorable).value = .error (.cycle a b) := by
  rw [value_orderCandidates]
  cases result : (build source ids explorable).value with
  | error error =>
    obtain ⟨chain, -, rfl⟩ := build_eq_error_iff.mp result
    exact Or.inl ⟨chain, rfl, rfl⟩
  | ok graph =>
    have described := describes_of_build result
    obtain ⟨other, member, requests⟩ :=
      described.exists_requests_self ((knows_iff result).mpr reached) own
    obtain ⟨a, b, failed⟩ := described.exists_sort_eq_cycle bare member requests ids
    exact Or.inr ⟨graph, a, b, rfl, failed⟩

/-! ### Entries of an index -/

theorem CandidateIndex.record_of_get? {index : CandidateIndex} {entry : IndexEntry}
    (written : index.get? id = some entry) :
    index.source.record id = (entry.declaration id).record := by
  rw [record_source, written, Option.map_some, Option.getD_some]

/-- The record of a candidate that is present has the members of the lists that it declares. -/
theorem Declaration.mem_record (d : Declaration) (other : CandidateId) :
    (other ∈ d.record.before ↔ other ∈ d.before) ∧ (other ∈ d.record.after ↔ other ∈ d.after) ∧
      (other ∈ d.record.replacements ↔ other ∈ d.replacedBy) := by
  simp [record, CandidateRecord.withBefore, CandidateRecord.withAfter,
    CandidateRecord.withReplacements]

theorem Declaration.isDeprecated_record {d : Declaration} (live : d.replacedBy = []) :
    d.record.isDeprecated = false := by
  rw [CandidateRecord.isDeprecated_eq_false_iff]
  simp [record, CandidateRecord.withBefore, CandidateRecord.withAfter,
    CandidateRecord.withReplacements, live]

/-- What validation calls a reference of an entry to itself is there. -/
theorem exists_listed_of_selfError_mem {index : CandidateIndex} {relation : Relation}
    (reported : selfError id relation ∈ validateIndex index) :
    ∃ entry, index.get? id = some entry ∧ id ∈ relation.targets entry := by
  obtain ⟨other, entry, written, problem⟩ := mem_validateIndex.mp reported
  cases relation <;> cases problem <;> exact ⟨entry, written, ‹_›⟩

/-- Wherever an entry that refers to itself is reached, there is no order. An id that is among its own
replacements is a loop of replacements. An id that is declared to precede itself, retired or not, or
that is live and declared to follow itself, leads to a cycle, if no loop of replacements is met
first. So whatever validation calls a reference to itself breaks the order, but for a retired entry
that is declared to follow itself. -/
theorem self_reference_breaks_order {index : CandidateIndex} {entry : IndexEntry}
    (written : index.get? id = some entry) (reached : index.source.Reaches ids id) :
    (id ∈ entry.replacedBy →
      ∃ chain, (index.orderCandidates ids).value = .error (.replacementCycle chain)) ∧
    (id ∈ entry.before ∨ (id ∈ entry.after ∧ entry.replacedBy = []) →
      (∃ chain,
        (build index.source ids (index.source_finite.explorable ids)).value =
            .error (.replacementCycle chain) ∧
          (index.orderCandidates ids).value = .error (.replacementCycle chain)) ∨
      ∃ graph a b,
        (build index.source ids (index.source_finite.explorable ids)).value = .ok graph ∧
          (index.orderCandidates ids).value = .error (.cycle a b)) ∧
    ∀ relation, selfError id relation ∈ validateIndex index →
      (relation = .after → entry.replacedBy = []) →
        ∃ error, (index.orderCandidates ids).value = .error error := by
  have record := CandidateIndex.record_of_get? written
  have members := (entry.declaration id).mem_record id
  have explorable := index.source_finite.explorable ids
  have replaced (own : id ∈ entry.replacedBy) :
      ∃ chain, (index.orderCandidates ids).value = .error (.replacementCycle chain) := by
    apply orderCandidates_of_own_replacement explorable reached
    rw [Source.Replaces, record]
    exact members.2.2.mpr own
  have edge (own : id ∈ entry.before ∨ (id ∈ entry.after ∧ entry.replacedBy = [])) :=
    orderCandidates_of_own_edge explorable index.source_edgesOnlyWhenAvailable reached <| by
      rw [record]
      exact own.imp members.1.mpr fun own =>
        ⟨members.2.1.mpr own.1, Declaration.isDeprecated_record own.2⟩
  refine ⟨replaced, edge, fun relation reported live => ?_⟩
  obtain ⟨other, again, listed⟩ := exists_listed_of_selfError_mem reported
  obtain rfl : entry = other := Option.some.inj (written.symm.trans again)
  have fails (own : id ∈ entry.before ∨ (id ∈ entry.after ∧ entry.replacedBy = [])) :
      ∃ error, (index.orderCandidates ids).value = .error error := by
    rcases edge own with ⟨chain, -, failed⟩ | ⟨_, _, _, -, failed⟩
    · exact ⟨_, failed⟩
    · exact ⟨_, failed⟩
  cases relation with
  | before => exact fails (Or.inl listed)
  | after => exact fails (Or.inr ⟨listed, live rfl⟩)
  | replacedBy =>
    obtain ⟨chain, failed⟩ := replaced listed
    exact ⟨_, failed⟩

/-- Two retired services: one is declared to precede itself, the other one to follow itself. -/
def selfCentred : CandidateIndex := .ofEntries
  [(⟨"app"⟩, { after := [⟨"legacy"⟩] }),
    (⟨"legacy"⟩, { before := [⟨"legacy"⟩], replacedBy := [⟨"web"⟩] }),
    (⟨"archive"⟩, { after := [⟨"archive"⟩], replacedBy := [⟨"web"⟩] }), (⟨"web"⟩, {})]

/-- The first one breaks the order of a service that only follows it. Validation refuses the second
one as well, but it can be put in order. -/
theorem self_reference_breaks_order_inherited :
    selfCentred.source.Reaches [⟨"app"⟩] ⟨"legacy"⟩ ∧
    .selfReference ⟨"legacy"⟩ .before ∈ validateIndex selfCentred ∧
    (∃ a b, (selfCentred.orderCandidates [⟨"app"⟩]).value = .error (.cycle a b)) ∧
    .selfReference ⟨"archive"⟩ .after ∈ validateIndex selfCentred ∧
    (selfCentred.orderCandidates [⟨"archive"⟩]).value = .ok [⟨"web"⟩] := by
  have app : selfCentred.source.Reaches [⟨"app"⟩] ⟨"app"⟩ := .requested (by decide)
  have legacy : selfCentred.source.Reaches [⟨"app"⟩] ⟨"legacy"⟩ := .led app (Or.inr (by decide))
  have written : selfCentred.get? ⟨"legacy"⟩ =
      some { before := [⟨"legacy"⟩], replacedBy := [⟨"web"⟩] } := by decide
  obtain ⟨graph, built, -⟩ :
      ∃ graph, (build selfCentred.source [⟨"app"⟩]
        (selfCentred.source_finite.explorable _)).value = .ok graph ∧ True :=
    exists_eq_ok_of_check (by cbv)
  obtain ⟨other, built', sorted⟩ :
      ∃ graph, (build selfCentred.source [⟨"archive"⟩]
          (selfCentred.source_finite.explorable _)).value = .ok graph ∧
        (sort [⟨"archive"⟩] graph).value = .ok [⟨"web"⟩] :=
    exists_eq_ok_of_check (by cbv)
  obtain ⟨-, edge, -⟩ := self_reference_breaks_order written legacy
  refine ⟨legacy, by decide, ?_, by decide, orderCandidates_eq_ok_iff.mpr ⟨other, built', sorted⟩⟩
  rcases edge (Or.inl (by decide)) with ⟨chain, failed, -⟩ | ⟨_, a, b, -, failed⟩
  · rw [built] at failed
    cases failed
  · exact ⟨a, b, failed⟩

end Activation
