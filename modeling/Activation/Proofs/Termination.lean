import Activation.Proofs.Construction

/-!
# How much work an ordering takes

An ordering over a source that knows finitely many ids comes to an end, whatever circles its
constraints and replacements run in, and it does no work twice:

* the walk asks for the record of each reached id once (`Walk.queries_perm`),
* the resolution never has more calls open than there are retired ids, and one more
  (`Resolution.length_calls_le`),
* the placement enters each id at most once (`Placement.nodup_entered`).

What a step asks for, calls or enters is read off the moment before it. That the walk asks for
nothing else is `Walk.step_congr`: a step depends on no other record of the source.
-/

namespace Activation

open Relation CandidateGraph

/-! ### The queries of a walk -/

namespace Walk

variable {source other : Source} {ids : List CandidateId} {w w' : Walk} {id : CandidateId}
  {primary : Bool}

/-- The id that is visited next, and whether as primary. -/
def next? (w : Walk) : Option (CandidateId × Bool) :=
  match w.path with
  | [] => w.requested.head?.map fun id => (id, true)
  | frame :: _ => frame.pending.head?.map fun id => (id, frame.passesPrimary)

/-- The walk once the id that is visited next is taken. -/
def afterNext (w : Walk) : Walk :=
  match w.path with
  | [] => { w with requested := w.requested.tail }
  | frame :: path => { w with path := { frame with pending := frame.pending.tail } :: path }

/-- The visit of this id needs its record: it is the first one. -/
def Unknown (w : Walk) (id : CandidateId) (primary : Bool) : Prop :=
  ¬ (primary = true ∧ id ∈ w.promoted) ∧ id ∉ w.visited

instance (w : Walk) (id : CandidateId) (primary : Bool) : Decidable (w.Unknown id primary) :=
  inferInstanceAs (Decidable (_ ∧ _))

/-- The id whose record the next step asks for. -/
def asks (w : Walk) : Option CandidateId :=
  match w.next? with
  | some (id, primary) => if w.Unknown id primary then some id else none
  | none => none

/-- The ids whose records a walk asks for, one for each time it does. -/
def queries (source : Source) (ids : List CandidateId) (explorable : source.Explorable ids) :
    List CandidateId :=
  (Process.moments (step source) (start ids) explorable).filterMap asks

/-- A step is the visit of the next id, or the end of a visit. -/
theorem step_eq (source : Source) (w : Walk) :
    step source w = match w.next? with
      | some (id, primary) => some (visit source w.afterNext id primary)
      | none => w.path.head?.map fun _ => { w with path := w.path.tail } := by
  unfold step next? afterNext
  cases path : w.path with
  | nil => cases w.requested <;> rfl
  | cons frame path => cases pending : frame.pending <;> simp [pending]

theorem visited_afterNext (w : Walk) : w.afterNext.visited = w.visited := by
  unfold afterNext
  split <;> rfl

theorem unknown_afterNext : w.afterNext.Unknown id primary ↔ w.Unknown id primary := by
  have promoted : w.afterNext.promoted = w.promoted := by
    unfold afterNext
    split <;> rfl
  rw [Unknown, Unknown, visited_afterNext, promoted]

theorem visit_of_unknown (unknown : w.Unknown id primary) :
    visit source w id primary =
      ({ w with visited := w.visited.insert id, promoted := w.promotedWith id primary }).file id
        (source.record id) primary := by
  obtain ⟨unpromoted, unvisited⟩ := unknown
  unfold visit
  rw [if_neg unpromoted]
  cases primary <;> exact if_neg unvisited

theorem visit_of_known (known : ¬ w.Unknown id primary) :
    visit source w id primary =
      if primary = true ∧ id ∉ w.promoted then
        ({ w with promoted := w.promoted.insert id }).promote id
      else w := by
  unfold visit
  by_cases promoted : primary = true ∧ id ∈ w.promoted
  · rw [if_pos promoted, if_neg fun again => again.2 promoted.2]
  · have visited : id ∈ w.visited := by
      by_contra unvisited
      exact known ⟨promoted, unvisited⟩
    rw [if_neg promoted]
    cases primary with
    | false => simp [visited]
    | true =>
      have fresh : id ∉ w.promoted := fun again => promoted ⟨rfl, again⟩
      simp [visited, fresh]

/-- A visit looks at no record but that of its own id, and at that one only the first time. -/
theorem visit_congr (same : w.Unknown id primary → other.record id = source.record id) :
    visit other w id primary = visit source w id primary := by
  by_cases unknown : w.Unknown id primary
  · rw [visit_of_unknown unknown, visit_of_unknown unknown, same unknown]
  · rw [visit_of_known unknown, visit_of_known unknown]

/-- A step depends on the source only through the record that it asks for. -/
theorem step_congr (same : ∀ id, w.asks = some id → other.record id = source.record id) :
    step other w = step source w := by
  rw [step_eq, step_eq]
  split
  next id primary next =>
    apply congrArg some
    apply visit_congr
    intro unknown
    apply same id
    simp only [asks, next, unknown_afterNext.mp unknown, if_true]
  next => rfl

theorem visited_file (w : Walk) (id : CandidateId) (record : CandidateRecord) (primary : Bool) :
    (w.file id record primary).visited = w.visited := by
  unfold file
  split
  · rfl
  · split <;> rfl

theorem visited_promote (w : Walk) (id : CandidateId) : (w.promote id).visited = w.visited := by
  unfold promote
  split
  · rfl
  · split <;> rfl

/-- The visited ids are those whose record was asked for. -/
theorem visited_visit (source : Source) (w : Walk) (id : CandidateId) (primary : Bool) :
    (visit source w id primary).visited.toList =
      w.visited.toList ++ (if w.Unknown id primary then some id else none).toList := by
  by_cases unknown : w.Unknown id primary
  · rw [visit_of_unknown unknown, visited_file, if_pos unknown]
    exact IdSet.toList_insert_of_not_mem unknown.2
  · rw [visit_of_known unknown, if_neg unknown, Option.toList_none, List.append_nil]
    split
    · rw [visited_promote]
    · rfl

theorem visited_step (taken : step source w = some w') :
    w'.visited.toList = w.visited.toList ++ w.asks.toList := by
  rw [step_eq] at taken
  split at taken
  next id primary next =>
    cases taken
    simp only [visited_visit, visited_afterNext, unknown_afterNext, asks, next]
  next next =>
    obtain ⟨frame, -, rfl⟩ := Option.map_eq_some_iff.mp taken
    simp [asks, next]

/-- The record of an id that is visited for the first time goes into one of the two maps. -/
theorem get?_file (w : Walk) (id : CandidateId) (record : CandidateRecord) (primary : Bool) :
    (w.file id record primary).records.get? id = some record ∨
      (w.file id record primary).deprecated.get? id = some record := by
  unfold file
  split
  · exact Or.inr (IdMap.get?_insert_self ..)
  · split
    · exact Or.inl (IdMap.get?_insert_self ..)
    · exact Or.inl (IdMap.get?_insert_self ..)

/-- What a step asks for it files. -/
theorem get?_step (asked : w.asks = some id) (taken : step source w = some w') :
    w'.records.get? id = some (source.record id) ∨
      w'.deprecated.get? id = some (source.record id) := by
  rw [step_eq] at taken
  unfold asks at asked
  split at asked
  next next =>
    rw [next] at taken
    split at asked
    next unknown =>
      cases asked
      cases taken
      rw [visit_of_unknown (unknown_afterNext.mpr unknown)]
      exact get?_file ..
    next => cases asked
  next => cases asked

/-- The records that a walk asks for are those of the ids that it visited in the end. -/
theorem queries_perm (explorable : source.Explorable ids) :
    (run source ids explorable).visited.toList.Perm (queries source ids explorable) := by
  -- The visited ids are the log: a step adds the id that it asks for, and nothing else.
  apply Process.perm_filterMap_moments asks (fun w => w.visited.toList) explorable
  intro w w' _ taken
  rw [visited_step taken]

theorem mem_queries (explorable : source.Explorable ids)
    (steps : Process.Steps (step source) (start ids) w) (asked : w.asks = some id) :
    id ∈ queries source ids explorable := by
  obtain ⟨w', taken⟩ : ∃ w', step source w = some w' := by
    unfold asks at asked
    split at asked
    next next => exact ⟨_, by rw [step_eq, next]⟩
    next => cases asked
  exact List.mem_filterMap.mpr ⟨w, Process.mem_moments explorable steps taken, asked⟩

/-- What a walk collects depends on the source only through the records that it asks for. -/
theorem run_congr (explorable : source.Explorable ids)
    (same : ∀ id ∈ queries source ids explorable, other.record id = source.record id) :
    ∃ explorable' : other.Explorable ids,
      run other ids explorable' = run source ids explorable := by
  apply Process.Halts.congr explorable
  intro w steps
  apply step_congr
  intro id asked
  exact same id (mem_queries explorable steps asked)

end Walk

/-- A build asks the source for nothing but the records that the walk asks for. -/
theorem CandidateGraph.build_congr {source other : Source} {ids : List CandidateId}
    (explorable : source.Explorable ids)
    (same : ∀ id ∈ Walk.queries source ids explorable, other.record id = source.record id) :
    ∃ explorable' : other.Explorable ids,
      build other ids explorable' = build source ids explorable := by
  obtain ⟨explorable', equal⟩ := Walk.run_congr explorable same
  refine ⟨explorable', ?_⟩
  rw [build, build, equal]

/-! ### The calls of a resolution -/

namespace Resolution

variable {deprecated : IdMap CandidateRecord} {r : Resolution}

/-- The id that the next step looks up, if it looks one up. -/
def looks (r : Resolution) : Option CandidateId :=
  match r.loop, r.path with
  | some _, _ => none
  | none, [] => r.queue.head?.map Prod.fst
  | none, frame :: _ => frame.pending.head?

/-- The ids that are being resolved when the next step is taken, the innermost first: the one that
the step looks up is called for those of the chain. -/
def calls (r : Resolution) : List CandidateId := r.looks.toList ++ r.chain

theorem Gathered.retired {resolved : IdMap IdSet} {inner : Option CandidateId}
    {path : List Redirect} (gathered : Gathered deprecated resolved inner path) :
    ∀ id ∈ path.map Redirect.id, id ∈ deprecated.keys := by
  induction gathered with
  | nil => exact fun _ member => nomatch member
  | cons looked found split settled given outer ih =>
    intro id member
    rcases List.mem_cons.mp member with rfl | deeper
    · exact IdMap.mem_keys_of_get? found
    · exact ih id deeper

/-- The calls that are open are for different retired ids, except perhaps the innermost one. -/
theorem length_calls_le (steps : Process.Steps (step deprecated) (start deprecated) r) :
    r.calls.length ≤ deprecated.size + 1 := by
  have consistent := consistent_of_steps steps
  -- The chain holds retired ids only, and none of them twice.
  have chain : r.chain.length ≤ deprecated.size := by
    rw [← IdMap.length_keys]
    exact (List.subperm_of_subset consistent.distinct consistent.gathered.retired).length_le
  have looked : r.looks.toList.length ≤ 1 := by
    cases r.looks <;> simp
  rw [calls, List.length_append]
  omega

end Resolution

/-! ### The ids that a placement enters -/

namespace Placement

variable {graph : CandidateGraph} {ids : List CandidateId} {p q : Placement}

/-- The id that the next step enters. -/
def enters (p : Placement) : Option CandidateId :=
  match p.cycle, p.path with
  | some _, _ => none
  | none, [] => p.queue.head?.filter fun id => decide (id ∉ p.sorted)
  | none, frame :: _ => frame.requests.head?.filter fun id =>
    decide (id ∉ p.processing ∧ id ∉ p.sorted ∧ id ∈ p.pending)

/-- The ids that a placement enters, one for each time it does. -/
def entered (graph : CandidateGraph) (ids : List CandidateId) : List CandidateId :=
  (Process.moments (step graph) (start graph ids) (halts graph ids)).filterMap enters

/-- What a step does with the ids that wait: it enters one, or it places the innermost one, or it
leaves them as they are. -/
inductive Change (p q : Placement) : Prop
  | entered {id : CandidateId} (enters : p.enters = some id)
      (waits : q.processing = id :: p.processing) (sorted : q.sorted = p.sorted)
  | placed {id : CandidateId} (enters : p.enters = none)
      (waits : p.processing = id :: q.processing) (sorted : q.sorted = p.sorted.insert id)
  | kept (enters : p.enters = none) (waits : q.processing = p.processing)
      (sorted : q.sorted = p.sorted)

theorem change_of_move (running : p.cycle = none) (move : Move graph p q) : Change p q := by
  -- A step that only looks at a request leaves the ids that wait as they are.
  have looked : ∀ {frame : Waiting} {path : List Waiting} (requests : List CandidateId),
      p.path = frame :: path →
      { p with path := { frame with requests } :: path }.processing = p.processing := by
    intro frame path requests inProgress
    simp only [processing, inProgress, List.map_cons]
  cases move with
  | skip atTop left placed =>
    exact .kept (by simp [enters, running, atTop, left, placed]) rfl rfl
  | begin atTop left unplaced =>
    exact .entered (by simp [enters, running, atTop, left, unplaced]) rfl rfl
  | place inProgress done =>
    refine .placed ?_ ?_ rfl
    · simp [enters, running, inProgress, done]
    · simp only [processing, inProgress, List.map_cons]
  | @close frame path id requests inProgress left met =>
    exact .kept (by simp [enters, running, inProgress, left, met]) (looked requests inProgress) rfl
  | @follow frame path id requests inProgress left fresh unplaced waits =>
    refine .entered ?_ (congrArg (id :: ·) (looked requests inProgress)) rfl
    simp [enters, running, inProgress, left, fresh, unplaced, waits]
  | @pass frame path id requests inProgress left fresh placed =>
    refine .kept ?_ (looked requests inProgress) rfl
    simp only [enters, running, inProgress, left, List.head?_cons, Option.filter_some,
      decide_eq_true_eq, ite_eq_right_iff, reduceCtorEq, imp_false]
    exact fun waits => waits.2.1 (placed waits.2.2)

/-- A step enters an id where the ids that wait become one more. -/
theorem enters_eq_some_iff {id : CandidateId} (taken : step graph p = some q) :
    p.enters = some id ↔ q.processing = id :: p.processing := by
  obtain ⟨running, move⟩ := move_of_step taken
  cases change_of_move running move with
  | entered enters waits _ => simp [enters, waits]
  | placed enters waits _ =>
    rw [enters, waits]
    constructor
    · nofun
    · intro grown
      have longer := congrArg List.length grown
      simp only [List.length_cons] at longer
      omega
  | kept enters waits _ => simp [enters, waits]

/-- The ids that wait or are placed are those that were entered. -/
theorem entered_perm (graph : CandidateGraph) (ids : List CandidateId) :
    ((run graph ids).processing ++ (run graph ids).sorted.toList).Perm (entered graph ids) := by
  -- An id that was entered waits until it is placed, so the two together are the log.
  apply Process.perm_filterMap_moments enters (fun p => p.processing ++ p.sorted.toList)
    (halts graph ids)
  intro p q steps taken
  obtain ⟨running, move⟩ := move_of_step taken
  cases change_of_move running move with
  | entered enters waits sorted =>
    rw [enters, waits, sorted]
    exact (List.perm_append_singleton _ _).symm
  | @placed id enters waits sorted =>
    -- The id that is placed was waiting, so it was not placed before.
    have fresh : id ∉ p.sorted := (tracked_of_steps steps).apart id (waits ▸ List.mem_cons_self)
    rw [enters, waits, sorted, IdSet.toList_insert_of_not_mem fresh, Option.toList_none,
      List.append_nil, ← List.append_assoc]
    exact List.perm_append_singleton _ _
  | kept enters waits sorted =>
    rw [enters, waits, sorted, Option.toList_none, List.append_nil]

/-- No id is entered twice. -/
theorem nodup_entered (graph : CandidateGraph) (ids : List CandidateId) :
    (entered graph ids).Nodup := by
  rw [← (entered_perm graph ids).nodup_iff]
  have tracked := tracked_of_steps (Process.steps_run (halts graph ids)).1
  refine List.nodup_append.mpr ⟨tracked.distinct, (run graph ids).sorted.nodup, ?_⟩
  rintro id waits _ placed rfl
  exact tracked.apart id waits placed

end Placement

/-! ### Orderings -/

/-- Two services that each ask for the other, one of them for itself as well, and two retired ones
that replace each other. -/
def tangled : CandidateIndex := .ofEntries
  [(⟨"app"⟩, { before := [⟨"mail"⟩], after := [⟨"app"⟩, ⟨"db"⟩] }),
    (⟨"db"⟩, { after := [⟨"app"⟩] }), (⟨"mail"⟩, { replacedBy := [⟨"post"⟩] }),
    (⟨"post"⟩, { replacedBy := [⟨"mail"⟩, ⟨"post"⟩] })]

/-- Over a source that knows only finitely many ids every ordering comes to an end. The build asks
for the record of each reached id once, which it files, and for nothing else: a step of the walk is
the same over any source that agrees with this one on the record it asks for. The resolution never
has more calls open than there are retired ids, and one more; and the placement enters no id twice,
an id being entered when the ids that wait become one more. -/
theorem ordering_terminates {source : Source} (finite : source.Finite) (ids : List CandidateId) :
    (∃ explorable : source.Explorable ids,
      (∀ id, source.Reaches ids id → (Walk.queries source ids explorable).count id = 1) ∧
      (∀ id ∈ Walk.queries source ids explorable, source.Reaches ids id) ∧
      (∀ w w' id, w.asks = some id → Walk.step source w = some w' →
        w'.records.get? id = some (source.record id) ∨
          w'.deprecated.get? id = some (source.record id)) ∧
      (∀ (other : Source) (w : Walk),
        (∀ id, w.asks = some id → other.record id = source.record id) →
        Walk.step other w = Walk.step source w) ∧
      ∀ other : Source,
        (∀ id ∈ Walk.queries source ids explorable, other.record id = source.record id) →
        ∃ explorable' : other.Explorable ids,
          build other ids explorable' = build source ids explorable) ∧
    (∀ deprecated : IdMap CandidateRecord,
      Process.Halts (Resolution.step deprecated) (Resolution.start deprecated) ∧
      ∀ r, Process.Steps (Resolution.step deprecated) (Resolution.start deprecated) r →
        r.calls.length ≤ deprecated.size + 1) ∧
    ∀ (graph : CandidateGraph) (names : List CandidateId),
      Process.Halts (Placement.step graph)
        (Placement.start graph (graph.baseline (graph.requested names).toList)) ∧
      (∀ p q id, Placement.step graph p = some q →
        (p.enters = some id ↔ q.processing = id :: p.processing)) ∧
      (Placement.entered graph (graph.baseline (graph.requested names).toList)).Nodup := by
  refine ⟨⟨finite.explorable ids, fun id reached => ?_, fun id asked => ?_,
    fun w w' id => Walk.get?_step, fun other w => Walk.step_congr,
    fun other same => build_congr _ same⟩, fun deprecated => ?_, fun graph names => ?_⟩
  · have perm := Walk.queries_perm (finite.explorable ids)
    rw [← perm.count_eq]
    apply List.count_eq_one_of_mem (Walk.run source ids _).visited.nodup
    exact (Walk.mem_visited_run_iff _).mpr reached
  · have perm := Walk.queries_perm (finite.explorable ids)
    exact (Walk.mem_visited_run_iff _).mp (perm.mem_iff.mpr asked)
  · exact ⟨Resolution.halts deprecated, fun r => Resolution.length_calls_le⟩
  · exact ⟨Placement.halts graph _, fun p q id => Placement.enters_eq_some_iff,
      Placement.nodup_entered graph _⟩

/-- The walk meets the database as what the service asks for, and later as what was requested. -/
theorem ordering_terminates_tangled :
    ∃ explorable : tangled.source.Explorable [⟨"app"⟩, ⟨"db"⟩],
      (Walk.queries tangled.source [⟨"app"⟩, ⟨"db"⟩] explorable).count ⟨"db"⟩ = 1 ∧
      (Walk.queries tangled.source [⟨"app"⟩, ⟨"db"⟩] explorable).count ⟨"mail"⟩ = 1 ∧
      (Walk.queries tangled.source [⟨"app"⟩, ⟨"db"⟩] explorable).count ⟨"post"⟩ = 1 := by
  obtain ⟨⟨explorable, once, -, -, -, -⟩, -, -⟩ :=
    ordering_terminates tangled.source_finite [⟨"app"⟩, ⟨"db"⟩]
  have app : tangled.source.Reaches [⟨"app"⟩, ⟨"db"⟩] ⟨"app"⟩ := .requested (by decide)
  have db : tangled.source.Reaches [⟨"app"⟩, ⟨"db"⟩] ⟨"db"⟩ := .requested (by decide)
  have mail : tangled.source.Reaches [⟨"app"⟩, ⟨"db"⟩] ⟨"mail"⟩ := .led app (Or.inr (by decide))
  have post : tangled.source.Reaches [⟨"app"⟩, ⟨"db"⟩] ⟨"post"⟩ := .led mail (Or.inl (by decide))
  exact ⟨explorable, once _ db, once _ mail, once _ post⟩

end Activation
