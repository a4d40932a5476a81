import Activation.Proofs.Reach

/-!
# First visits

A walk comes by an id again and again, but only the first visit of an id asks for its record and
reports something. `Source.FirstVisits` says which visits these are without a walk: those of a
depth-first search that never turns back to an id it has seen, and that knows nothing of promotions.

A promotion visits ids again in the middle of a walk, so it must not find new ones there. That is
what `Walk.Nested` is for: an id is visited as primary only where no inherited visit is in progress,
so by then all that a visited id leads to is visited as well (`Walk.Nested.closed`). The main result
is `Walk.firstVisits_run`: the visited ids and the events of a walk are those of the first visits.
-/

namespace Activation

namespace Source

/-- The visits that the first visit of an id leads to, and whether they are as primary: a retired id
passes on how it is visited itself, and what edges name is inherited. -/
def onward (source : Source) (id : CandidateId) (primary : Bool) : List (CandidateId × Bool) :=
  let record := source.record id
  if record.isDeprecated then record.replacements.toList.map fun other => (other, primary)
  else if record.available then record.edges.map fun other => (other, false)
  else []

/-- What is reported of the first visit of an id. -/
def notice (source : Source) (visit : CandidateId × Bool) : Option Event :=
  let record := source.record visit.1
  if record.isDeprecated then
    some (.deprecatedCandidateRedirected visit.1 record.replacements.toList)
  else if record.available then none
  else some (.candidateUnavailable visit.1 visit.2)

/-- The first visits of a depth-first search, in their order, where some ids are seen already and
the listed visits are to be made. -/
inductive FirstVisits (source : Source) :
    IdSet → List (CandidateId × Bool) → List (CandidateId × Bool) → Prop
  | done {seen : IdSet} : FirstVisits source seen [] []
  | again {seen : IdSet} {id : CandidateId} {primary : Bool} {agenda visits}
      (old : id ∈ seen) (rest : FirstVisits source seen agenda visits) :
      FirstVisits source seen ((id, primary) :: agenda) visits
  | first {seen : IdSet} {id : CandidateId} {primary : Bool} {agenda visits} (fresh : id ∉ seen)
      (rest : FirstVisits source (seen.insert id) (source.onward id primary ++ agenda) visits) :
      FirstVisits source seen ((id, primary) :: agenda) ((id, primary) :: visits)

variable {source : Source} {seen : IdSet} {agenda visits others : List (CandidateId × Bool)}

/-- There is only one such search. -/
theorem FirstVisits.unique (search : source.FirstVisits seen agenda visits)
    (other : source.FirstVisits seen agenda others) : visits = others := by
  induction search generalizing others with
  | done => cases other; rfl
  | again old _ ih =>
    cases other with
    | again _ rest => exact ih rest
    | first fresh _ => exact absurd old fresh
  | first fresh _ ih =>
    cases other with
    | again old _ => exact absurd old fresh
    | first _ rest => rw [ih rest]

theorem FirstVisits.of_append {known : List (CandidateId × Bool)}
    (search : source.FirstVisits seen (known ++ agenda) visits)
    (old : ∀ visit ∈ known, visit.1 ∈ seen) : source.FirstVisits seen agenda visits := by
  induction known with
  | nil => exact search
  | cons visit known ih =>
    obtain ⟨here, later⟩ := List.forall_mem_cons.mp old
    cases search with
    | again _ rest => exact ih rest later
    | first fresh _ => exact absurd here fresh

theorem leadsTo_of_mem_onward {id other : CandidateId} {primary asPrimary : Bool}
    (member : (other, asPrimary) ∈ source.onward id primary) : source.LeadsTo id other := by
  simp only [onward] at member
  split at member
  · obtain ⟨replacement, replaces, same⟩ := List.mem_map.mp member
    cases same
    exact Or.inl replaces
  next live =>
    split at member
    next available =>
      obtain ⟨target, named, same⟩ := List.mem_map.mp member
      cases same
      exact Or.inr ⟨Bool.not_eq_true _ ▸ live, available, named⟩
    · cases member

end Source

namespace Walk

variable {source : Source} {ids : List CandidateId} {w w' taken : Walk} {id : CandidateId}
  {primary : Bool}

/-! ### What is still to be visited -/

/-- The visits that a walk has still to make, the next one in front. -/
def agenda (w : Walk) : List (CandidateId × Bool) :=
  (w.path.flatMap fun frame => frame.pending.map fun id => (id, frame.passesPrimary)) ++
    w.requested.map fun id => (id, true)

/-- The next visit is taken from those that are still to be made. -/
inductive Takes (w : Walk) : CandidateId → Bool → Walk → Prop
  | request {id : CandidateId} {requested : List CandidateId} (atTop : w.path = [])
      (left : w.requested = id :: requested) : Takes w id true { w with requested }
  | follow {frame : Frame} {path : List Frame} {id : CandidateId} {pending : List CandidateId}
      (inProgress : w.path = frame :: path) (left : frame.pending = id :: pending) :
      Takes w id frame.passesPrimary { w with path := { frame with pending } :: path }

/-- A step ends the innermost visit, or it makes the next one. -/
theorem Move.finish_or_takes (move : Move source w w') :
    (∃ frame path, w.path = frame :: path ∧ frame.pending = [] ∧ w' = { w with path }) ∨
      ∃ id primary taken, Takes w id primary taken ∧ Visits source taken id primary w' := by
  cases move with
  | finish inProgress done => exact Or.inl ⟨_, _, inProgress, done, rfl⟩
  | request atTop left visits => exact Or.inr ⟨_, _, _, .request atTop left, visits⟩
  | follow inProgress left visits => exact Or.inr ⟨_, _, _, .follow inProgress left, visits⟩

theorem agenda_of_finish {frame : Frame} {path : List Frame} (inProgress : w.path = frame :: path)
    (done : frame.pending = []) : ({ w with path } : Walk).agenda = w.agenda := by
  simp [agenda, inProgress, done]

namespace Takes

theorem agenda_eq (takes : Takes w id primary taken) :
    w.agenda = (id, primary) :: taken.agenda := by
  cases takes with
  | request atTop left => simp [agenda, atTop, left]
  | follow inProgress left => simp [agenda, inProgress, left]

theorem filed (takes : Takes w id primary taken) (filed : Filed source w) : Filed source taken := by
  cases takes with
  | request => exact filed.reschedule _ w.path
  | follow => exact filed.reschedule w.requested _

theorem visited_eq (takes : Takes w id primary taken) : taken.visited = w.visited := by
  cases takes <;> rfl

theorem primary_eq (takes : Takes w id primary taken) : taken.primary = w.primary := by
  cases takes <;> rfl

theorem events_eq (takes : Takes w id primary taken) : taken.events = w.events := by
  cases takes <;> rfl

end Takes

/-- Seen from outside, the visit of an id that was visited before can only put ids on the agenda
that it passes primacy on to, and a first visit reports the id and goes onward from it. -/
theorem Visits.again_or_first (visits : Visits source w id primary w') (filed : Filed source w) :
    (id ∈ w.visited ∧ w'.visited = w.visited ∧ w'.events = w.events ∧
      ∃ passed : List CandidateId, w'.agenda = passed.map (fun other => (other, true)) ++ w.agenda ∧
        ∀ other ∈ passed, primary = true ∧ id ∉ w.promoted ∧ source.LeadsTo id other) ∨
      (id ∉ w.visited ∧ w'.visited = w.visited.insert id ∧
        w'.events = w.events ++ (source.notice (id, primary)).toList ∧
        w'.agenda = source.onward id primary ++ w.agenda) := by
  cases visits with
  | again visited => exact Or.inl ⟨visited, rfl, rfl, [], rfl, nofun⟩
  | promote asked fresh found =>
    have visited := (filed.visited id).mpr (Or.inl (IdMap.mem_keys_of_get? found))
    exact Or.inl ⟨visited, rfl, rfl, [], rfl, nofun⟩
  | pass asked fresh found =>
    have visited := (filed.visited id).mpr (Or.inr (IdMap.mem_keys_of_get? found))
    obtain ⟨rfl, -⟩ := filed.retired id _ found
    refine Or.inl ⟨visited, rfl, rfl, (source.record id).replacements.toList, ?_, ?_⟩
    · simp [agenda]
    · exact fun other replaces => ⟨asked, fresh, Or.inl replaces⟩
  | redirect fresh retired =>
    refine Or.inr ⟨fresh, rfl, ?_, ?_⟩
    · simp [Source.notice, retired]
    · simp [agenda, Source.onward, retired]
  | expand fresh live available =>
    refine Or.inr ⟨fresh, rfl, ?_, ?_⟩
    · simp [Source.notice, live, available]
    · simp [agenda, Source.onward, live, available]
  | default fresh live unavailable =>
    refine Or.inr ⟨fresh, rfl, ?_, ?_⟩
    · simp [Source.notice, live, unavailable]
    · simp [agenda, Source.onward, live, unavailable]

theorem Visits.mem_visited_iff (visits : Visits source w id primary w') (filed : Filed source w)
    {other : CandidateId} : other ∈ w'.visited ↔ other ∈ w.visited ∨ other = id := by
  rcases visits.again_or_first filed with ⟨old, visited, -⟩ | ⟨-, visited, -⟩
  · rw [visited]
    exact ⟨Or.inl, fun met => met.elim (fun before => before) fun same => same ▸ old⟩
  · rw [visited, IdSet.mem_insert]

/-! ### Visits inside of visits -/

/-- The visits in progress are inside of each other, those that pass on primacy outside, and
whatever a visited id leads to is visited, is the id `inner` that is to be visited now, or waits in
the visit of that id. -/
structure Nested (source : Source) (inner : Option CandidateId) (w : Walk) : Prop where
  outside : w.path.Pairwise fun inner outer =>
    inner.passesPrimary = true → outer.passesPrimary = true
  promoted : ∀ frame ∈ w.path, frame.passesPrimary = true → frame.id ∈ w.promoted
  explored : ∀ id ∈ w.visited, ∀ other, source.LeadsTo id other →
    other ∈ w.visited ∨ other ∈ inner ∨ ∃ frame ∈ w.path, frame.id = id ∧ other ∈ frame.pending

theorem nested_start : Nested source none (start ids) where
  outside := .nil
  promoted _ member := nomatch member
  explored _ member := nomatch member

/-- A visit as primary is inside of nothing but visits that pass on primacy. -/
theorem Nested.passesPrimary (nested : Nested source none w) (takes : Takes w id primary taken)
    (asPrimary : primary = true) : ∀ frame ∈ taken.path, frame.passesPrimary = true := by
  cases takes with
  | request atTop => simp [atTop]
  | @follow frame path _ _ inProgress =>
    have outside := nested.outside
    rw [inProgress, List.pairwise_cons] at outside
    rw [List.forall_mem_cons]
    exact ⟨asPrimary, fun outer deeper => outside.1 outer deeper asPrimary⟩

theorem Nested.take (nested : Nested source none w) (takes : Takes w id primary taken) :
    Nested source (some id) taken := by
  cases takes with
  | request atTop left =>
    refine ⟨nested.outside, nested.promoted, fun x visited other leads => ?_⟩
    exact (nested.explored x visited other leads).imp_right fun rest =>
      Or.inr (rest.resolve_left nofun)
  | @follow frame path _ pending inProgress left =>
    obtain ⟨outside, promoted, explored⟩ := nested
    rw [inProgress] at outside promoted explored
    refine ⟨?_, ?_, fun x visited other leads => ?_⟩
    · rw [List.pairwise_cons] at outside ⊢
      exact outside
    · rw [List.forall_mem_cons] at promoted ⊢
      exact promoted
    · rcases explored x visited other leads with old | inner | ⟨visit, member, same, waits⟩
      · exact Or.inl old
      · cases inner
      · refine Or.inr ?_
        rcases List.mem_cons.mp member with rfl | deeper
        · rw [left, List.mem_cons] at waits
          rcases waits with rfl | later
          · exact Or.inl rfl
          · exact Or.inr ⟨_, List.mem_cons_self, same, later⟩
        · exact Or.inr ⟨visit, List.mem_cons_of_mem _ deeper, same, waits⟩

/-- All that a visited id leads to is visited when the id is to be promoted: were its visit still in
progress, it would be that of an id that is visited as primary already. -/
theorem Nested.closed (nested : Nested source (some id) w)
    (alone : ∀ frame ∈ w.path, frame.passesPrimary = true) (visited : id ∈ w.visited)
    (fresh : id ∉ w.promoted) {other : CandidateId} (leads : source.LeadsTo id other) :
    other ∈ w.visited := by
  rcases nested.explored id visited other leads with old | inner | ⟨frame, member, rfl, -⟩
  · exact old
  · cases inner
    exact visited
  · exact absurd (nested.promoted frame member (alone frame member)) fresh

/-- A visit opens at most one more frame, inside of all the others. What its id leads to waits
there, unless the id was visited before. -/
theorem Nested.extend (nested : Nested source (some id) taken) (opened : Option Frame)
    (path : w'.path = opened.toList ++ taken.path)
    (passes : ∀ frame, opened = some frame → frame.passesPrimary = true →
      frame.id ∈ w'.promoted ∧ ∀ outer ∈ taken.path, outer.passesPrimary = true)
    (visited : ∀ x, x ∈ w'.visited ↔ x ∈ taken.visited ∨ x = id)
    (promoted : ∀ x ∈ taken.promoted, x ∈ w'.promoted)
    (waits : id ∉ taken.visited → ∀ other, source.LeadsTo id other →
      ∃ frame, opened = some frame ∧ frame.id = id ∧ other ∈ frame.pending) :
    Nested source none w' := by
  have inPath (frame : Frame) : frame ∈ w'.path ↔ opened = some frame ∨ frame ∈ taken.path := by
    rw [path, List.mem_append, Option.mem_toList]
  refine ⟨?_, ?_, ?_⟩
  · rw [path, List.pairwise_append]
    refine ⟨?_, nested.outside, fun frame here outer deeper asPrimary => ?_⟩
    · cases opened <;> simp
    · exact (passes frame (Option.mem_toList.mp here) asPrimary).2 outer deeper
  · intro frame member asPrimary
    rcases (inPath frame).mp member with here | deeper
    · exact (passes frame here asPrimary).1
    · exact promoted _ (nested.promoted frame deeper asPrimary)
  · intro x met other leads
    by_cases old : x ∈ taken.visited
    · -- Where the id of this visit was still missing, it is visited now.
      rcases nested.explored x old other leads with before | inner | ⟨frame, deeper, same⟩
      · exact Or.inl ((visited other).mpr (Or.inl before))
      · obtain rfl : id = other := Option.some.inj inner
        exact Or.inl ((visited id).mpr (Or.inr rfl))
      · exact Or.inr (Or.inr ⟨frame, (inPath frame).mpr (Or.inr deeper), same⟩)
    · obtain rfl : x = id := ((visited x).mp met).resolve_left old
      obtain ⟨frame, here, same⟩ := waits old other leads
      exact Or.inr (Or.inr ⟨frame, (inPath frame).mpr (Or.inl here), same⟩)

theorem subset_promotedWith {other : CandidateId} (member : other ∈ w.promoted) :
    other ∈ w.promotedWith id primary := by
  cases primary with
  | false => exact member
  | true => exact IdSet.mem_insert.mpr (Or.inl member)

theorem Nested.visits (nested : Nested source (some id) taken) (filed : Filed source taken)
    (alone : primary = true → ∀ frame ∈ taken.path, frame.passesPrimary = true)
    (visits : Visits source taken id primary w') : Nested source none w' := by
  have met : ∀ x, x ∈ w'.visited ↔ x ∈ taken.visited ∨ x = id :=
    fun _ => visits.mem_visited_iff filed
  -- The first three visits are of an id that was visited before, so nothing new waits in them.
  cases visits with
  | again visited =>
    exact nested.extend none rfl nofun met (fun _ old => old) fun fresh => absurd visited fresh
  | promote asked fresh found =>
    have visited := (filed.visited id).mpr (Or.inl (IdMap.mem_keys_of_get? found))
    exact nested.extend none rfl nofun met (fun _ old => IdSet.mem_insert.mpr (Or.inl old))
      fun fresh => absurd visited fresh
  | @pass record asked fresh found =>
    have visited := (filed.visited id).mpr (Or.inr (IdMap.mem_keys_of_get? found))
    refine nested.extend (some ⟨id, true, record.replacements.toList, true⟩) rfl ?_ met
      (fun _ old => IdSet.mem_insert.mpr (Or.inl old)) fun fresh => absurd visited fresh
    rintro _ ⟨⟩ -
    exact ⟨IdSet.mem_insert.mpr (Or.inr rfl), alone asked⟩
  | redirect fresh retired =>
    refine nested.extend
      (some ⟨id, primary, (source.record id).replacements.toList, primary⟩) rfl ?_ met
      (fun _ => subset_promotedWith) fun _ other leads => ?_
    · rintro _ ⟨⟩ asPrimary
      obtain rfl : primary = true := asPrimary
      exact ⟨IdSet.mem_insert.mpr (Or.inr rfl), alone rfl⟩
    · refine ⟨_, rfl, rfl, ?_⟩
      rcases leads with replaces | ⟨live, -⟩
      · exact replaces
      · rw [live] at retired
        cases retired
  | expand fresh live available =>
    refine nested.extend (some ⟨id, primary, (source.record id).edges, false⟩) rfl ?_ met
      (fun _ => subset_promotedWith) fun _ other leads => ?_
    · rintro _ ⟨⟩ asPrimary
      cases asPrimary
    · refine ⟨_, rfl, rfl, ?_⟩
      rcases leads with replaces | ⟨-, -, named⟩
      · rw [CandidateRecord.isDeprecated_of_mem replaces] at live
        cases live
      · exact named
  | default fresh live unavailable =>
    refine nested.extend none rfl nofun met (fun _ => subset_promotedWith) fun _ other leads => ?_
    rcases leads with replaces | ⟨-, available, -⟩
    · rw [CandidateRecord.isDeprecated_of_mem replaces] at live
      cases live
    · rw [available] at unavailable
      cases unavailable

theorem Nested.finish {frame : Frame} {path : List Frame} (nested : Nested source none w)
    (inProgress : w.path = frame :: path) (done : frame.pending = []) :
    Nested source none { w with path } := by
  obtain ⟨outside, promoted, explored⟩ := nested
  rw [inProgress] at outside promoted explored
  refine ⟨(List.pairwise_cons.mp outside).2, (List.forall_mem_cons.mp promoted).2, ?_⟩
  intro x visited other leads
  rcases explored x visited other leads with old | inner | ⟨visit, member, same, waits⟩
  · exact Or.inl old
  · cases inner
  · rcases List.mem_cons.mp member with rfl | deeper
    · rw [done] at waits
      cases waits
    · exact Or.inr (Or.inr ⟨visit, deeper, same, waits⟩)

theorem Nested.move (nested : Nested source none w) (filed : Filed source w)
    (move : Move source w w') : Nested source none w' := by
  rcases move.finish_or_takes with
    ⟨frame, path, inProgress, done, rfl⟩ | ⟨id, primary, taken, takes, made⟩
  · exact nested.finish inProgress done
  · exact (nested.take takes).visits (takes.filed filed) (nested.passesPrimary takes) made

/-! ### The search of a walk -/

/-- The visits that were first ones up to now make up the first visits of the walk with those that
the rest of it will be. -/
structure Searched (source : Source) (ids : List CandidateId) (w : Walk)
    (visits : List (CandidateId × Bool)) : Prop where
  visited : w.visited.toList = visits.map Prod.fst
  events : w.events = visits.filterMap source.notice
  ahead : ∀ rest, source.FirstVisits w.visited w.agenda rest →
    source.FirstVisits ∅ (ids.map fun id => (id, true)) (visits ++ rest)

theorem searched_start : Searched source ids (start ids) [] where
  visited := rfl
  events := rfl
  ahead _ search := search

theorem Searched.visits {visits : List (CandidateId × Bool)}
    (searched : Searched source ids w visits) (filed : Filed source w)
    (nested : Nested source none w) (takes : Takes w id primary taken)
    (made : Visits source taken id primary w') :
    ∃ visits', Searched source ids w' visits' := by
  have ahead (rest : List (CandidateId × Bool))
      (search : source.FirstVisits taken.visited ((id, primary) :: taken.agenda) rest) :
      source.FirstVisits ∅ (ids.map fun id => (id, true)) (visits ++ rest) := by
    apply searched.ahead
    rwa [takes.agenda_eq, ← takes.visited_eq]
  rcases made.again_or_first (takes.filed filed) with
    ⟨old, visited, events, passed, agenda, leads⟩ | ⟨fresh, visited, events, agenda⟩
  · refine ⟨visits, ?_, ?_, fun rest search => ahead rest (.again old ?_)⟩
    · rw [visited, takes.visited_eq, searched.visited]
    · rw [events, takes.events_eq, searched.events]
    · -- What primacy is passed on to is visited again, and nothing of it is new.
      have known : ∀ visit ∈ passed.map fun other => (other, true), visit.1 ∈ taken.visited := by
        intro visit member
        obtain ⟨other, listed, rfl⟩ := List.mem_map.mp member
        obtain ⟨asked, unpromoted, leadsTo⟩ := leads other listed
        exact (nested.take takes).closed (nested.passesPrimary takes asked) old unpromoted leadsTo
      rw [visited, agenda] at search
      exact search.of_append known
  · refine ⟨visits ++ [(id, primary)], ?_, ?_, fun rest search => ?_⟩
    · rw [visited, IdSet.toList_insert_of_not_mem fresh, takes.visited_eq, searched.visited]
      simp
    · rw [events, takes.events_eq, searched.events, List.filterMap_append]
      cases noticed : source.notice (id, primary) <;> simp [noticed]
    · rw [visited, agenda] at search
      rw [List.append_assoc]
      exact ahead _ (.first fresh search)

/-- The visited ids and the events of a walk are those of the first visits. -/
theorem firstVisits_run (explorable : source.Explorable ids) :
    ∃ visits, source.FirstVisits ∅ (ids.map fun id => (id, true)) visits ∧
      (run source ids explorable).visited.toList = visits.map Prod.fst ∧
      (run source ids explorable).events = visits.filterMap source.notice := by
  obtain ⟨steps, final⟩ := Process.steps_run explorable
  have kept (w w' : Walk) (filed : Filed source w)
      (inv : Nested source none w ∧ ∃ visits, Searched source ids w visits)
      (move : Move source w w') :
      Nested source none w' ∧ ∃ visits, Searched source ids w' visits := by
    obtain ⟨nested, visits, searched⟩ := inv
    refine ⟨nested.move filed move, ?_⟩
    rcases move.finish_or_takes with
      ⟨frame, path, inProgress, done, rfl⟩ | ⟨id, primary, taken, takes, made⟩
    · refine ⟨visits, searched.visited, searched.events, ?_⟩
      rw [agenda_of_finish inProgress done]
      exact searched.ahead
    · exact searched.visits filed nested takes made
  obtain ⟨-, -, visits, searched⟩ :=
    invariant_of_steps _ kept ⟨nested_start, [], searched_start⟩ steps
  -- Nothing is left to visit at the end.
  obtain ⟨atTop, left⟩ := ended_of_step_eq_none final
  have whole := searched.ahead [] (by rw [agenda, atTop, left]; exact .done)
  rw [List.append_nil] at whole
  exact ⟨visits, whole, searched.visited, searched.events⟩

end Walk

end Activation
