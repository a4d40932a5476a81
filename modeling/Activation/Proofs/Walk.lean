import Activation.Graph.Walk

/-!
# What the walk finds

Two invariants hold at each moment of a walk. `Walk.Filed` says that the records it holds are those
of the source, retired ones apart from the others, one for each visited id. `Walk.Explored` says that
every id the walk was asked for or was led to by a visited one is visited or still scheduled.

So at its end the walk has visited what it was asked for and all that this leads to
(`Walk.mem_visited_run`, `Walk.visited_closed_run`).
-/

namespace Activation

theorem CandidateRecord.isDeprecated_of_mem {r : CandidateRecord} {id : CandidateId}
    (member : id ∈ r.replacements) : r.isDeprecated = true := by
  cases state : r.isDeprecated with
  | true => rfl
  | false =>
    rw [isDeprecated_eq_false_iff.mp state] at member
    exact absurd member (IdSet.not_mem_empty id)

/-- Visiting the first id makes a walk visit the second one: a retired id leads to its replacements,
any other id that is available to the ids its edges name. -/
def Source.LeadsTo (source : Source) (id other : CandidateId) : Prop :=
  other ∈ (source.record id).replacements ∨
    (source.record id).isDeprecated = false ∧ (source.record id).available = true ∧
      other ∈ (source.record id).edges

namespace Walk

variable {source : Source} {ids : List CandidateId} {w w' : Walk} {id : CandidateId}
  {primary : Bool}

/-! ### Steps -/

/-- The ids that count as visited as primary once an id is visited. -/
def promotedWith (w : Walk) (id : CandidateId) (primary : Bool) : IdSet :=
  if primary then w.promoted.insert id else w.promoted

/-- Everything that the visit of an id can do. -/
inductive Visits (source : Source) (w : Walk) (id : CandidateId) (primary : Bool) : Walk → Prop
  -- There is nothing new about the id.
  | again (visited : id ∈ w.visited) (promoted : primary = true → id ∈ w.promoted) :
      Visits source w id primary w
  -- An id of the working set becomes primary.
  | promote {record : CandidateRecord} (asked : primary = true) (fresh : id ∉ w.promoted)
      (found : w.records.get? id = some record) :
      Visits source w id primary
        { w with promoted := w.promoted.insert id, primary := w.primary.insert id }
  -- What a retired id stands for is to become primary.
  | pass {record : CandidateRecord} (asked : primary = true) (fresh : id ∉ w.promoted)
      (found : w.deprecated.get? id = some record) :
      Visits source w id primary
        { w with
          promoted := w.promoted.insert id
          path := ⟨id, true, record.replacements.toList, true⟩ :: w.path }
  -- A retired id is met for the first time.
  | redirect (fresh : id ∉ w.visited) (retired : (source.record id).isDeprecated = true) :
      Visits source w id primary
        { w with
          visited := w.visited.insert id
          promoted := w.promotedWith id primary
          deprecated := w.deprecated.insert id (source.record id)
          events := w.events ++
            [.deprecatedCandidateRedirected id (source.record id).replacements.toList]
          path := ⟨id, primary, (source.record id).replacements.toList, primary⟩ :: w.path }
  -- An available id is met for the first time.
  | expand (fresh : id ∉ w.visited) (live : (source.record id).isDeprecated = false)
      (available : (source.record id).available = true) :
      Visits source w id primary
        { w with
          visited := w.visited.insert id
          promoted := w.promotedWith id primary
          primary := w.primaryWith id primary
          records := w.records.insert id (source.record id)
          path := ⟨id, primary, (source.record id).edges, false⟩ :: w.path }
  -- An id that the source could not resolve is met for the first time.
  | default (fresh : id ∉ w.visited) (live : (source.record id).isDeprecated = false)
      (unavailable : (source.record id).available = false) :
      Visits source w id primary
        { w with
          visited := w.visited.insert id
          promoted := w.promotedWith id primary
          primary := w.primaryWith id primary
          records := w.records.insert id (source.record id)
          events := w.events ++ [.candidateUnavailable id primary] }

/-- Everything that one step of a walk can do. -/
inductive Move (source : Source) (w : Walk) : Walk → Prop
  -- The innermost visit has nothing left to visit.
  | finish {frame : Frame} {path : List Frame} (inProgress : w.path = frame :: path)
      (done : frame.pending = []) : Move source w { w with path }
  -- The next requested id is visited.
  | request {next : Walk} {id : CandidateId} {requested : List CandidateId} (atTop : w.path = [])
      (left : w.requested = id :: requested)
      (visits : Visits source { w with requested } id true next) : Move source w next
  -- The next id of the innermost visit is visited.
  | follow {next : Walk} {frame : Frame} {path : List Frame} {id : CandidateId}
      {pending : List CandidateId}
      (inProgress : w.path = frame :: path) (left : frame.pending = id :: pending)
      (visits : Visits source { w with path := { frame with pending } :: path } id
        frame.passesPrimary next) :
      Move source w next

/-- The records that a walk holds are the source's, one for each visited id. -/
structure Filed (source : Source) (w : Walk) : Prop where
  live : ∀ id record, w.records.get? id = some record →
    record = source.record id ∧ record.isDeprecated = false
  retired : ∀ id record, w.deprecated.get? id = some record →
    record = source.record id ∧ record.isDeprecated = true
  visited : ∀ id, id ∈ w.visited ↔ id ∈ w.records.keys ∨ id ∈ w.deprecated.keys
  promoted : ∀ id ∈ w.promoted, id ∈ w.visited

/-- What is still to be visited has no part in what is filed. -/
theorem Filed.reschedule (filed : Filed source w) (requested : List CandidateId)
    (path : List Frame) : Filed source { w with requested, path } :=
  ⟨filed.live, filed.retired, filed.visited, filed.promoted⟩

/-- An id that was visited before is in one of the two maps, so a promotion always finds it. -/
theorem visits_of_filed (filed : Filed source w) (id : CandidateId) (primary : Bool) :
    Visits source w id primary (visit source w id primary) := by
  -- A first visit is the same whether the id is asked for as primary or as inherited.
  have first : id ∉ w.visited → Visits source w id primary
      (({ w with visited := w.visited.insert id, promoted := w.promotedWith id primary }).file id
        (source.record id) primary) := by
    intro fresh
    unfold file
    split
    next retired => exact .redirect fresh retired
    next live =>
      rw [Bool.not_eq_true] at live
      split
      next available => exact .expand fresh live available
      next unavailable => exact .default fresh live (Bool.not_eq_true _ ▸ unavailable)
  unfold visit
  cases primary with
  | false =>
    simp only [Bool.false_eq_true, false_and, if_false]
    split
    next visited => exact .again visited nofun
    next fresh => exact first fresh
  | true =>
    simp only [true_and, if_true]
    split
    next promoted => exact .again (filed.promoted id promoted) fun _ => promoted
    next unpromoted =>
      split
      next visited =>
        unfold Walk.promote
        split
        next live =>
          obtain ⟨record, found⟩ := IdMap.mem_keys_iff.mp (IdMap.contains_iff.mp live)
          exact .promote rfl unpromoted found
        next notLive =>
          -- A visited id has a record, and this one has none in the working set.
          have retired := ((filed.visited id).mp visited).resolve_left fun live =>
            notLive (IdMap.contains_iff.mpr live)
          obtain ⟨record, found⟩ := IdMap.mem_keys_iff.mp retired
          simp only [found]
          exact .pass rfl unpromoted found
      next fresh => exact first fresh

theorem move_of_step (filed : Filed source w) (taken : step source w = some w') :
    Move source w w' := by
  unfold step at taken
  split at taken
  next atTop =>
    split at taken
    · cases taken
    next id requested left =>
      cases taken
      exact .request atTop left (visits_of_filed (filed.reschedule requested w.path) id true)
  next frame path inProgress =>
    split at taken
    next done => cases taken; exact .finish inProgress done
    next id pending left =>
      cases taken
      have rest := filed.reschedule w.requested ({ frame with pending } :: path)
      exact .follow inProgress left (visits_of_filed rest id frame.passesPrimary)

theorem ended_of_step_eq_none (final : step source w = none) : w.path = [] ∧ w.requested = [] := by
  unfold step at final
  split at final
  next atTop =>
    split at final
    next left => exact ⟨atTop, left⟩
    · cases final
  · split at final <;> cases final

/-! ### Records -/

theorem filed_start : Filed source (start ids) where
  live _ _ found := nomatch found
  retired _ _ found := nomatch found
  visited _ := ⟨nofun, fun filed => filed.elim nofun nofun⟩
  promoted _ member := nomatch member

theorem mem_promotedWith {other : CandidateId} (member : other ∈ w.promotedWith id primary) :
    other ∈ w.promoted ∨ other = id := by
  unfold promotedWith at member
  split at member
  · exact IdSet.mem_insert.mp member
  · exact Or.inl member

/-- The record of an id that is met for the first time goes into the map it belongs to. -/
theorem Filed.store (filed : Filed source w)
    (visited : w'.visited = w.visited.insert id) (promoted : w'.promoted = w.promotedWith id primary)
    (stored :
      (source.record id).isDeprecated = false ∧
          w'.records = w.records.insert id (source.record id) ∧ w'.deprecated = w.deprecated ∨
        (source.record id).isDeprecated = true ∧
          w'.records = w.records ∧ w'.deprecated = w.deprecated.insert id (source.record id)) :
    Filed source w' := by
  refine ⟨fun other record found => ?_, fun other record found => ?_, fun other => ?_,
    fun other member => ?_⟩
  · rcases stored with ⟨live, records, -⟩ | ⟨-, records, -⟩
    · rw [records, IdMap.get?_insert] at found
      split at found
      next same => cases found; exact ⟨same ▸ rfl, live⟩
      next => exact filed.live other record found
    · exact filed.live other record (records ▸ found)
  · rcases stored with ⟨-, -, deprecated⟩ | ⟨retired, -, deprecated⟩
    · exact filed.retired other record (deprecated ▸ found)
    · rw [deprecated, IdMap.get?_insert] at found
      split at found
      next same => cases found; exact ⟨same ▸ rfl, retired⟩
      next => exact filed.retired other record found
  · rw [visited, IdSet.mem_insert, filed.visited]
    rcases stored with ⟨-, records, deprecated⟩ | ⟨-, records, deprecated⟩
    · rw [records, deprecated, IdMap.mem_keys_insert, or_right_comm]
    · rw [records, deprecated, IdMap.mem_keys_insert, or_assoc]
  · rw [visited, IdSet.mem_insert]
    exact (mem_promotedWith (promoted ▸ member)).imp_left (filed.promoted other)

theorem Filed.visits (filed : Filed source w) (visits : Visits source w id primary w') :
    Filed source w' := by
  cases visits with
  | again => exact filed
  | promote asked fresh found =>
    refine ⟨filed.live, filed.retired, filed.visited, fun other member => ?_⟩
    rcases IdSet.mem_insert.mp member with old | rfl
    · exact filed.promoted other old
    · exact (filed.visited other).mpr (Or.inl (IdMap.mem_keys_of_get? found))
  | pass asked fresh found =>
    refine ⟨filed.live, filed.retired, filed.visited, fun other member => ?_⟩
    rcases IdSet.mem_insert.mp member with old | rfl
    · exact filed.promoted other old
    · exact (filed.visited other).mpr (Or.inr (IdMap.mem_keys_of_get? found))
  | redirect fresh retired => exact filed.store rfl rfl (Or.inr ⟨retired, rfl, rfl⟩)
  | expand fresh live available => exact filed.store rfl rfl (Or.inl ⟨live, rfl, rfl⟩)
  | default fresh live unavailable => exact filed.store rfl rfl (Or.inl ⟨live, rfl, rfl⟩)

theorem Filed.move (filed : Filed source w) (move : Move source w w') : Filed source w' := by
  cases move with
  | @finish frame path => exact filed.reschedule w.requested path
  | @request _ id requested atTop left visits =>
    exact (filed.reschedule requested w.path).visits visits
  | @follow _ frame path id pending inProgress left visits =>
    exact (filed.reschedule w.requested ({ frame with pending } :: path)).visits visits

/-- What a step keeps holds at each moment of a walk, where the step may be taken from a moment at
which the records are the source's. -/
theorem invariant_of_steps (inv : Walk → Prop)
    (kept : ∀ w w', Filed source w → inv w → Move source w w' → inv w') (initial : inv (start ids))
    (steps : Process.Steps (step source) (start ids) w) : Filed source w ∧ inv w := by
  refine steps.invariant (fun w => Filed source w ∧ inv w) ?_ ⟨filed_start, initial⟩
  rintro w w' ⟨filed, holds⟩ taken
  have move := move_of_step filed taken
  exact ⟨filed.move move, kept w w' filed holds move⟩

/-! ### Visited ids -/

/-- The id was visited, or its visit is still to come. -/
def Scheduled (w : Walk) (id : CandidateId) : Prop :=
  id ∈ w.visited ∨ id ∈ w.requested ∨ ∃ frame ∈ w.path, id ∈ frame.pending

/-- A walk from these ids has nothing forgotten. -/
structure Explored (source : Source) (ids : List CandidateId) (w : Walk) : Prop where
  requested : ∀ id ∈ ids, Scheduled w id
  closed : ∀ id ∈ w.visited, ∀ other, source.LeadsTo id other → Scheduled w other

theorem Visits.mem_visited (visits : Visits source w id primary w') (filed : Filed source w) :
    id ∈ w'.visited := by
  cases visits with
  | again visited => exact visited
  | promote asked fresh found => exact (filed.visited id).mpr (Or.inl (IdMap.mem_keys_of_get? found))
  | pass asked fresh found => exact (filed.visited id).mpr (Or.inr (IdMap.mem_keys_of_get? found))
  | redirect => exact IdSet.mem_insert.mpr (Or.inr rfl)
  | expand => exact IdSet.mem_insert.mpr (Or.inr rfl)
  | default => exact IdSet.mem_insert.mpr (Or.inr rfl)

theorem Visits.scheduled (visits : Visits source w id primary w') {other : CandidateId}
    (scheduled : Scheduled w other) : Scheduled w' other := by
  rcases scheduled with visited | requested | ⟨frame, member, pending⟩
  · refine Or.inl ?_
    cases visits <;> first | exact visited | exact IdSet.mem_insert.mpr (Or.inl visited)
  · refine Or.inr (Or.inl ?_)
    cases visits <;> exact requested
  · refine Or.inr (Or.inr ⟨frame, ?_, pending⟩)
    cases visits <;> first | exact member | exact List.mem_cons_of_mem _ member

/-- Every id that a visit is led to is scheduled by it. -/
theorem Visits.explores (visits : Visits source w id primary w') {other : CandidateId}
    (visited : other ∈ w'.visited) :
    other ∈ w.visited ∨ ∀ next, source.LeadsTo other next → Scheduled w' next := by
  cases visits with
  | again => exact Or.inl visited
  | promote => exact Or.inl visited
  | pass => exact Or.inl visited
  | redirect fresh retired =>
    refine (IdSet.mem_insert.mp visited).imp_right ?_
    -- A retired id leads to its replacements only.
    rintro rfl next (replacement | ⟨live, -, -⟩)
    · exact Or.inr (Or.inr ⟨_, List.mem_cons_self, replacement⟩)
    · rw [live] at retired
      cases retired
  | expand fresh live available =>
    refine (IdSet.mem_insert.mp visited).imp_right ?_
    rintro rfl next (replacement | ⟨-, -, named⟩)
    · rw [CandidateRecord.isDeprecated_of_mem replacement] at live
      cases live
    · exact Or.inr (Or.inr ⟨_, List.mem_cons_self, named⟩)
  | default fresh live unavailable =>
    refine (IdSet.mem_insert.mp visited).imp_right ?_
    rintro rfl next (replacement | ⟨-, available, -⟩)
    · rw [CandidateRecord.isDeprecated_of_mem replacement] at live
      cases live
    · rw [available] at unavailable
      cases unavailable

/-- Taking the next id leaves everything scheduled but that id, whose visit schedules it again. -/
theorem Explored.visits {taken : Walk} (explored : Explored source ids w)
    (filed : Filed source taken) (same : taken.visited = w.visited)
    (rest : ∀ other, Scheduled w other → other = id ∨ Scheduled taken other)
    (visits : Visits source taken id primary w') : Explored source ids w' := by
  have scheduled : ∀ other, Scheduled w other → Scheduled w' other := by
    intro other before
    rcases rest other before with rfl | kept
    · exact Or.inl (visits.mem_visited filed)
    · exact visits.scheduled kept
  refine ⟨fun other member => scheduled other (explored.requested other member), ?_⟩
  intro other visited next leads
  rcases visits.explores visited with before | led
  · exact scheduled next (explored.closed other (same ▸ before) next leads)
  · exact led next leads

theorem Explored.move (explored : Explored source ids w) (filed : Filed source w)
    (move : Move source w w') : Explored source ids w' := by
  cases move with
  | @finish frame path inProgress done =>
    -- The visit that ends had nothing pending, so it scheduled nothing.
    have kept : ∀ other, Scheduled w other → Scheduled { w with path } other := by
      refine fun other scheduled => scheduled.imp_right (Or.imp_right ?_)
      rintro ⟨visit, member, pending⟩
      rw [inProgress, List.mem_cons] at member
      rcases member with rfl | member
      · rw [done] at pending
        cases pending
      · exact ⟨visit, member, pending⟩
    exact ⟨fun other member => kept other (explored.requested other member),
      fun other visited next leads => kept next (explored.closed other visited next leads)⟩
  | @request _ id requested atTop left visits =>
    refine explored.visits (filed.reschedule requested w.path) rfl ?_ visits
    rintro other (visited | waits | pending)
    · exact Or.inr (Or.inl visited)
    · rw [left, List.mem_cons] at waits
      exact waits.imp_right fun later => Or.inr (Or.inl later)
    · exact Or.inr (Or.inr (Or.inr pending))
  | @follow _ frame path id pending inProgress left visits =>
    have rest := filed.reschedule w.requested ({ frame with pending } :: path)
    refine explored.visits rest rfl ?_ visits
    rintro other (visited | waits | ⟨visit, member, waits⟩)
    · exact Or.inr (Or.inl visited)
    · exact Or.inr (Or.inr (Or.inl waits))
    · rw [inProgress, List.mem_cons] at member
      rcases member with rfl | member
      · rw [left, List.mem_cons] at waits
        exact waits.imp_right fun later => Or.inr (Or.inr ⟨_, List.mem_cons_self, later⟩)
      · exact Or.inr (Or.inr (Or.inr ⟨visit, List.mem_cons_of_mem _ member, waits⟩))

theorem explored_start : Explored source ids (start ids) where
  requested _ member := Or.inr (Or.inl member)
  closed _ member := nomatch member

/-! ### The end of a walk -/

variable (explorable : source.Explorable ids)

theorem filed_run : Filed source (run source ids explorable) :=
  (invariant_of_steps (fun _ => True) (fun _ _ _ _ _ => trivial) trivial
    (Process.steps_run explorable).1).1

private theorem explored_run :
    Explored source ids (run source ids explorable) ∧
      ∀ id, Scheduled (run source ids explorable) id → id ∈ (run source ids explorable).visited := by
  obtain ⟨steps, final⟩ := Process.steps_run explorable
  obtain ⟨atTop, left⟩ := ended_of_step_eq_none final
  refine ⟨(invariant_of_steps (Explored source ids)
    (fun _ _ filed explored => explored.move filed) explored_start steps).2, ?_⟩
  rintro id (visited | waits | ⟨frame, member, -⟩)
  · exact visited
  · rw [run, left] at waits
    cases waits
  · rw [run, atTop] at member
    cases member

theorem mem_visited_run (member : id ∈ ids) : id ∈ (run source ids explorable).visited :=
  (explored_run explorable).2 id ((explored_run explorable).1.requested id member)

theorem visited_closed_run {other : CandidateId}
    (visited : id ∈ (run source ids explorable).visited) (leads : source.LeadsTo id other) :
    other ∈ (run source ids explorable).visited :=
  (explored_run explorable).2 other ((explored_run explorable).1.closed id visited other leads)

end Walk

end Activation
