import Activation.Proofs.Construction
import Activation.Proofs.FirstVisits

/-!
# The log of a build

What a build reports is told by the first visits of its walk. The main results:

* `build_reports_once`: a build reports its start, then of each reached id at most one thing, in the
  order of the first visits, and then how it ended,
* `unavailable_reported_as_visited`: an unavailable id is reported as primary or inherited by its
  first visit. What is reported as primary is primary in the graph. The converse fails
  (`primary_reported_as_inherited`): an id that the edges of another one lead to may be asked for
  only later, and it is not reported again then.
-/

namespace Activation

open Relation CandidateGraph

namespace CandidateGraph

variable {source : Source} {ids : List CandidateId} {graph : CandidateGraph}
  {explorable : source.Explorable ids} {chain : List CandidateId} {id : CandidateId}

/-! ### Counts -/

theorem mem_workingSet_of_mem_primary (built : (build source ids explorable).value = .ok graph)
    (member : id ∈ graph.primary) : id ∈ graph.workingSet := by
  have described := describes_of_build built
  rw [primary_eq_requested built] at member
  obtain ⟨name, given, standsFor⟩ := mem_requested.mp member
  exact described.mem_workingSet_of_mem_resolve (described.requested name given) standsFor

/-- Every id of the working set is counted once, as primary or as inherited. -/
theorem size_primary_add_length_inherited
    (built : (build source ids explorable).value = .ok graph) :
    graph.primary.size + graph.inherited.length = graph.workingSet.length := by
  have primary : (graph.workingSet.filter fun id => decide (id ∈ graph.primary)).Perm
      graph.primary.toList := by
    have distinct : graph.workingSet.Nodup := graph.records.nodup_keys
    rw [List.perm_ext_iff_of_nodup (distinct.filter _) graph.primary.nodup]
    intro id
    rw [List.mem_filter, decide_eq_true_eq, IdSet.mem_toList]
    exact and_iff_right_of_imp (mem_workingSet_of_mem_primary built)
  rw [graph.workingSet.length_eq_length_filter_add fun id => decide (id ∈ graph.primary),
    primary.length_eq, IdSet.size, inherited]
  simp only [decide_not]

/-! ### Events -/

theorem events_build_of_ok (built : (build source ids explorable).value = .ok graph) :
    (build source ids explorable).events =
      .graphBuildStarted ids.length :: (Walk.run source ids explorable).events ++
        [.graphBuildCompleted graph.primary.size graph.inherited.length graph.deprecated.size] := by
  obtain ⟨replacements, resolved, rfl⟩ := build_eq_ok_iff.mp built
  simp [build, resolved]

theorem events_build_of_error (explorable : source.Explorable ids) {error : OrderingError}
    (failed : (build source ids explorable).value = .error error) :
    ∃ chain, error = .replacementCycle chain ∧
      (build source ids explorable).events =
        .graphBuildStarted ids.length :: (Walk.run source ids explorable).events ++
          [.replacementCycleDetected chain] := by
  obtain ⟨chain, looped, rfl⟩ := build_eq_error_iff.mp failed
  refine ⟨chain, rfl, ?_⟩
  simp [build, looped]

end CandidateGraph

variable {source : Source} {ids : List CandidateId} {graph : CandidateGraph}
  {explorable : source.Explorable ids}

/-- A build reports its start with the number of given ids. Then it reports of each reached id at
most one thing, in the order of the first visits, which is that of the walk: that it is retired and
what replaces it, or else that it is unavailable. Then it reports the loop that it failed with, or
the sizes of the graph, in which each id of the working set counts once. -/
theorem build_reports_once (explorable : source.Explorable ids) :
    (∃ visits, source.FirstVisits ∅ (ids.map fun id => (id, true)) visits) ∧
    ∀ visits, source.FirstVisits ∅ (ids.map fun id => (id, true)) visits →
      visits.map Prod.fst = (Walk.run source ids explorable).visited.toList ∧
      (visits.map Prod.fst).Nodup ∧
      (∀ id, id ∈ visits.map Prod.fst ↔ source.Reaches ids id) ∧
      (∀ error, (build source ids explorable).value = .error error →
        ∃ chain, error = .replacementCycle chain ∧
          (build source ids explorable).events =
            .graphBuildStarted ids.length :: visits.filterMap source.notice ++
              [.replacementCycleDetected chain]) ∧
      ∀ graph, (build source ids explorable).value = .ok graph →
        (build source ids explorable).events =
          .graphBuildStarted ids.length :: visits.filterMap source.notice ++
            [.graphBuildCompleted graph.primary.size graph.inherited.length
              graph.deprecated.size] ∧
        graph.primary.size + graph.inherited.length = graph.workingSet.length := by
  obtain ⟨visits, search, visited, events⟩ := Walk.firstVisits_run explorable
  refine ⟨⟨visits, search⟩, fun others other => ?_⟩
  obtain rfl := search.unique other
  refine ⟨visited.symm, visited ▸ IdSet.nodup _, fun id => ?_, fun error failed => ?_,
    fun graph built => ?_⟩
  · rw [← visited, IdSet.mem_toList, Walk.mem_visited_run_iff explorable]
  · rw [← events]
    exact events_build_of_error explorable failed
  · rw [← events]
    exact ⟨events_build_of_ok built, size_primary_add_length_inherited built⟩

/-- The replacements loop, so the build fails. Up to then `mail` and `post` are reported as retired
and `smtp`, which the index knows nothing of, as inherited. -/
theorem build_reports_once_revolving :
    ∃ chain, (build revolving.source [⟨"app"⟩]
        (revolving.source_finite.explorable _)).value = .error (.replacementCycle chain) ∧
      (build revolving.source [⟨"app"⟩] (revolving.source_finite.explorable _)).events =
        [.graphBuildStarted 1, .deprecatedCandidateRedirected ⟨"mail"⟩ [⟨"smtp"⟩, ⟨"post"⟩],
          .candidateUnavailable ⟨"smtp"⟩ false,
          .deprecatedCandidateRedirected ⟨"post"⟩ [⟨"smtp"⟩, ⟨"mail"⟩],
          .replacementCycleDetected chain] := by
  obtain ⟨-, logged⟩ := build_reports_once (revolving.source_finite.explorable [⟨"app"⟩])
  have search : revolving.source.FirstVisits ∅ [(⟨"app"⟩, true)]
      [(⟨"app"⟩, true), (⟨"mail"⟩, false), (⟨"smtp"⟩, false), (⟨"post"⟩, false)] :=
    .first (by decide) (.first (by decide) (.first (by decide) (.first (by decide)
      (.again (by decide) (.again (by decide) .done)))))
  have noticed : [(⟨"app"⟩, true), (⟨"mail"⟩, false), (⟨"smtp"⟩, false),
      (⟨"post"⟩, false)].filterMap revolving.source.notice =
      [.deprecatedCandidateRedirected ⟨"mail"⟩ [⟨"smtp"⟩, ⟨"post"⟩],
        .candidateUnavailable ⟨"smtp"⟩ false,
        .deprecatedCandidateRedirected ⟨"post"⟩ [⟨"smtp"⟩, ⟨"mail"⟩]] := by
    decide
  have fails : (build revolving.source [⟨"app"⟩]
      (revolving.source_finite.explorable _)).value.toOption.isNone = true := by
    cbv
  cases result : (build revolving.source [⟨"app"⟩]
      (revolving.source_finite.explorable _)).value with
  | ok graph =>
    rw [result] at fails
    cases fails
  | error error =>
    obtain ⟨-, -, -, failed, -⟩ := logged _ search
    obtain ⟨chain, rfl, events⟩ := failed error result
    rw [noticed] at events
    exact ⟨chain, rfl, events⟩

/-! ### Primary and inherited -/

theorem Source.notice_eq_unavailable_iff {visit : CandidateId × Bool} {id : CandidateId}
    {primary : Bool} :
    source.notice visit = some (.candidateUnavailable id primary) ↔
      visit = (id, primary) ∧ (source.record id).isDeprecated = false ∧
        (source.record id).available = false := by
  obtain ⟨other, asPrimary⟩ := visit
  rw [Prod.mk.injEq]
  constructor
  · intro noticed
    simp only [notice] at noticed
    split at noticed
    · cases noticed
    next live =>
      split at noticed
      · cases noticed
      next unavailable =>
        cases noticed
        rw [Bool.not_eq_true] at live unavailable
        exact ⟨⟨rfl, rfl⟩, live, unavailable⟩
  · rintro ⟨⟨rfl, rfl⟩, live, unavailable⟩
    simp [notice, live, unavailable]

/-- Only what edges name is visited as inherited from an id that is visited as primary. -/
theorem Source.live_of_mem_onward {id other : CandidateId}
    (member : (other, false) ∈ source.onward id true) :
    (source.record id).isDeprecated = false := by
  cases retired : (source.record id).isDeprecated with
  | false => rfl
  | true => simp [onward, retired] at member

namespace Walk

variable {w w' taken : Walk} {id : CandidateId} {primary : Bool}

theorem Visits.primary_eq (visits : Visits source w id primary w') :
    w'.primary = w.primary ∨ w'.primary = w.primary.insert id := by
  have asked : w.primaryWith id primary = w.primary ∨
      w.primaryWith id primary = w.primary.insert id := by
    cases primary with
    | false => exact Or.inl rfl
    | true => exact Or.inr rfl
  cases visits with
  | again => exact Or.inl rfl
  | promote => exact Or.inr rfl
  | pass => exact Or.inl rfl
  | redirect => exact Or.inl rfl
  | expand => exact asked
  | default => exact asked

theorem Visits.prefix_primary (visits : Visits source w id primary w') :
    w.primary.toList <+: w'.primary.toList := by
  rcases visits.primary_eq with same | added
  · rw [same]
  · rw [added]
    exact w.primary.prefix_insert id

theorem Visits.mem_primary (visits : Visits source w id true w') (filed : Filed source w)
    (fresh : id ∉ w.visited) (live : (source.record id).isDeprecated = false) :
    id ∈ w'.primary := by
  have here : id ∈ w.primary.insert id := IdSet.mem_insert.mpr (Or.inr rfl)
  cases visits with
  | again visited => exact absurd visited fresh
  | promote => exact here
  | pass _ _ found =>
    exact absurd ((filed.visited id).mpr (Or.inr (IdMap.mem_keys_of_get? found))) fresh
  | redirect _ retired =>
    rw [live] at retired
    cases retired
  | expand => exact here
  | default => exact here

theorem Visits.subset_agenda (visits : Visits source w id primary w') (filed : Filed source w)
    {other : CandidateId} (member : (other, false) ∈ w'.agenda) :
    (other, false) ∈ w.agenda ∨ id ∉ w.visited ∧ (other, false) ∈ source.onward id primary := by
  rcases visits.again_or_first filed with ⟨-, -, -, passed, agenda, -⟩ | ⟨fresh, -, -, agenda⟩
  · rw [agenda, List.mem_append] at member
    exact Or.inl (member.resolve_left (by simp))
  · rw [agenda, List.mem_append] at member
    exact member.symm.imp_right fun onward => ⟨fresh, onward⟩

theorem Visits.subset_events (visits : Visits source w id primary w') (filed : Filed source w)
    {other : CandidateId} {asPrimary : Bool}
    (member : .candidateUnavailable other asPrimary ∈ w'.events) :
    .candidateUnavailable other asPrimary ∈ w.events ∨
      id ∉ w.visited ∧ (id, primary) = (other, asPrimary) ∧
        (source.record other).isDeprecated = false := by
  rcases visits.again_or_first filed with ⟨-, -, events, -⟩ | ⟨fresh, -, events, -⟩
  · exact Or.inl (events ▸ member)
  · rw [events, List.mem_append, Option.mem_toList] at member
    refine member.imp_right fun noticed => ?_
    obtain ⟨same, live, -⟩ := Source.notice_eq_unavailable_iff.mp noticed
    exact ⟨fresh, same, live⟩

/-- What is to be visited as inherited, or was reported as inherited, ids lead to that are primary
already. An id that becomes primary after it was reported stands behind them. -/
structure Attributed (source : Source) (w : Walk) : Prop where
  primary : ∀ id ∈ w.primary, id ∈ w.visited
  agenda : ∀ id, (id, false) ∈ w.agenda → ∃ other ∈ w.primary, TransGen source.LeadsTo other id
  asPrimary : ∀ id, .candidateUnavailable id true ∈ w.events → id ∈ w.primary
  asInherited : ∀ id, .candidateUnavailable id false ∈ w.events →
    ∃ front, front <+: w.primary.toList ∧ id ∉ front ∧
      ∃ other ∈ front, TransGen source.LeadsTo other id

theorem attributed_start : Attributed source (start ids) where
  primary _ member := nomatch member
  agenda id member := by simp [Walk.agenda, start] at member
  asPrimary _ member := nomatch member
  asInherited _ member := nomatch member

theorem Attributed.take (attributed : Attributed source w) (takes : Takes w id primary taken) :
    Attributed source taken := by
  refine ⟨?_, fun other member => ?_, ?_, ?_⟩
  · rw [takes.primary_eq, takes.visited_eq]
    exact attributed.primary
  · rw [takes.primary_eq]
    exact attributed.agenda other (takes.agenda_eq ▸ List.mem_cons_of_mem _ member)
  · rw [takes.primary_eq, takes.events_eq]
    exact attributed.asPrimary
  · rw [takes.primary_eq, takes.events_eq]
    exact attributed.asInherited

/-- `led` says that an id is visited as inherited only where a primary one leads to it. -/
theorem Attributed.visits (attributed : Attributed source w) (filed : Filed source w)
    (led : primary = false → ∃ other ∈ w.primary, TransGen source.LeadsTo other id)
    (visits : Visits source w id primary w') : Attributed source w' := by
  have grown := visits.prefix_primary
  have kept {other : CandidateId} (member : other ∈ w.primary) : other ∈ w'.primary :=
    grown.subset member
  refine ⟨fun other member => ?_, fun other member => ?_, fun other member => ?_,
    fun other member => ?_⟩
  · -- An id becomes primary only in its own visit, which leaves it visited.
    rw [visits.mem_visited_iff filed]
    rcases visits.primary_eq with same | added
    · exact Or.inl (attributed.primary other (same ▸ member))
    · rw [added, IdSet.mem_insert] at member
      exact member.imp_left (attributed.primary other)
  · rcases visits.subset_agenda filed member with before | ⟨fresh, onward⟩
    · obtain ⟨earlier, asked, leads⟩ := attributed.agenda other before
      exact ⟨earlier, kept asked, leads⟩
    · have leads := Source.leadsTo_of_mem_onward onward
      -- What an inherited id leads to, the primary one behind it leads to as well.
      cases primary with
      | false =>
        obtain ⟨earlier, asked, chain⟩ := led rfl
        exact ⟨earlier, kept asked, chain.tail leads⟩
      | true =>
        exact ⟨id, visits.mem_primary filed fresh (Source.live_of_mem_onward onward), .single leads⟩
  · rcases visits.subset_events filed member with before | ⟨fresh, same, live⟩
    · exact kept (attributed.asPrimary other before)
    · cases same
      exact visits.mem_primary filed fresh live
  · rcases visits.subset_events filed member with before | ⟨fresh, same, -⟩
    · obtain ⟨front, passed, absent, leads⟩ := attributed.asInherited other before
      exact ⟨front, passed.trans grown, absent, leads⟩
    · -- The id was not visited before, so it is not among those that are primary by now.
      cases same
      exact ⟨w.primary.toList, grown, fun old => fresh (attributed.primary id old), led rfl⟩

theorem Attributed.move (attributed : Attributed source w) (filed : Filed source w)
    (move : Move source w w') : Attributed source w' := by
  rcases move.finish_or_takes with
    ⟨frame, path, inProgress, done, rfl⟩ | ⟨id, primary, taken, takes, made⟩
  · refine ⟨attributed.primary, ?_, attributed.asPrimary, attributed.asInherited⟩
    rw [agenda_of_finish inProgress done]
    exact attributed.agenda
  · refine (attributed.take takes).visits (takes.filed filed) ?_ made
    rintro rfl
    rw [takes.primary_eq]
    exact attributed.agenda id (takes.agenda_eq ▸ List.mem_cons_self)

theorem attributed_run (explorable : source.Explorable ids) :
    Attributed source (run source ids explorable) :=
  (invariant_of_steps _ (fun _ _ filed attributed move => attributed.move filed move)
    attributed_start (Process.steps_run explorable).1).2

end Walk

theorem CandidateGraph.mem_events_build_iff
    (built : (build source ids explorable).value = .ok graph) {id : CandidateId} {primary : Bool} :
    .candidateUnavailable id primary ∈ (build source ids explorable).events ↔
      .candidateUnavailable id primary ∈ (Walk.run source ids explorable).events := by
  simp [events_build_of_ok built]

/-- An unavailable id is reported as primary or as inherited by its first visit. Those reported as
primary are so in the graph. To one that is reported as inherited an id of the graph leads that is
primary, and that was so before the reported one, should that be primary as well. -/
theorem unavailable_reported_as_visited (built : (build source ids explorable).value = .ok graph) :
    (∀ visits, source.FirstVisits ∅ (ids.map fun id => (id, true)) visits → ∀ id primary,
      .candidateUnavailable id primary ∈ (build source ids explorable).events ↔
        (id, primary) ∈ visits ∧ (source.record id).isDeprecated = false ∧
          (source.record id).available = false) ∧
    (∀ id, .candidateUnavailable id true ∈ (build source ids explorable).events →
      graph.isPrimary id = true) ∧
    ∀ id, .candidateUnavailable id false ∈ (build source ids explorable).events →
      ∃ other ∈ graph.primary, TransGen source.LeadsTo other id ∧
        graph.primary.toList.idxOf other < graph.primary.toList.idxOf id := by
  have attributed := Walk.attributed_run explorable
  obtain ⟨replacements, -, same⟩ := build_eq_ok_iff.mp built
  have asked : graph.primary = (Walk.run source ids explorable).primary := by
    rw [same]
    rfl
  refine ⟨fun visits search id primary => ?_, fun id reported => ?_, fun id reported => ?_⟩
  · obtain ⟨others, other, -, events⟩ := Walk.firstVisits_run explorable
    obtain rfl := search.unique other
    rw [mem_events_build_iff built, events, List.mem_filterMap]
    simp only [Source.notice_eq_unavailable_iff]
    exact ⟨fun ⟨_, member, here, state⟩ => here ▸ ⟨member, state⟩,
      fun ⟨member, state⟩ => ⟨_, member, rfl, state⟩⟩
  · rw [isPrimary, decide_eq_true_eq, asked]
    exact attributed.asPrimary id ((mem_events_build_iff built).mp reported)
  · obtain ⟨front, ⟨later, whole⟩, absent, other, member, leads⟩ :=
      attributed.asInherited id ((mem_events_build_iff built).mp reported)
    rw [asked]
    refine ⟨other, ?_, leads, ?_⟩
    · rw [← IdSet.mem_toList, ← whole]
      exact List.mem_append_left _ member
    · rw [← whole, List.idxOf_append_of_mem member, List.idxOf_append_of_notMem absent]
      exact Nat.lt_of_lt_of_le (List.idxOf_lt_length_of_mem member) (Nat.le_add_right _ _)

/-- A service that is placed after a cache that the index knows nothing of. -/
def uncached : CandidateIndex := .ofEntries [(⟨"web"⟩, { after := [⟨"cache"⟩] })]

theorem unavailable_reported_as_visited_uncached :
    ∃ graph, (build uncached.source [⟨"cache"⟩, ⟨"web"⟩]
        (uncached.source_finite.explorable _)).value = .ok graph ∧
      .candidateUnavailable ⟨"cache"⟩ true ∈ (build uncached.source [⟨"cache"⟩, ⟨"web"⟩]
        (uncached.source_finite.explorable _)).events ∧
      graph.isPrimary ⟨"cache"⟩ = true := by
  obtain ⟨graph, built, -⟩ : ∃ graph, (build uncached.source [⟨"cache"⟩, ⟨"web"⟩]
      (uncached.source_finite.explorable _)).value = .ok graph ∧ graph.primary.size = 2 :=
    exists_eq_ok_of_check (by cbv)
  obtain ⟨reported, asPrimary, -⟩ := unavailable_reported_as_visited built
  have search : uncached.source.FirstVisits ∅ [(⟨"cache"⟩, true), (⟨"web"⟩, true)]
      [(⟨"cache"⟩, true), (⟨"web"⟩, true)] :=
    .first (by decide) (.first (by decide) (.again (by decide) .done))
  have event := (reported _ search ⟨"cache"⟩ true).mpr (by decide)
  exact ⟨graph, built, event, asPrimary ⟨"cache"⟩ event⟩

/-- The other way round the service comes first, so the cache is first visited by its edge and
reported as inherited. Then its own turn comes, and it is primary in the graph. -/
theorem primary_reported_as_inherited :
    ∃ graph, (build uncached.source [⟨"web"⟩, ⟨"cache"⟩]
        (uncached.source_finite.explorable _)).value = .ok graph ∧
      .candidateUnavailable ⟨"cache"⟩ false ∈ (build uncached.source [⟨"web"⟩, ⟨"cache"⟩]
        (uncached.source_finite.explorable _)).events ∧
      graph.isPrimary ⟨"cache"⟩ = true := by
  obtain ⟨graph, built, primary⟩ : ∃ graph, (build uncached.source [⟨"web"⟩, ⟨"cache"⟩]
      (uncached.source_finite.explorable _)).value = .ok graph ∧
        graph.isPrimary ⟨"cache"⟩ = true :=
    exists_eq_ok_of_check (by cbv)
  exact ⟨graph, built, of_decide_eq_true (by cbv), primary⟩

end Activation
