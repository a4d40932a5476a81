import Activation.Proofs.FirstOccurrences
import Activation.Proofs.Placement

/-!
# Placements in lockstep

Two placements that are given the same ids take the same steps while each id that they meet asks for
the same ids in the same order in both graphs (`Beside`). The rest of a queue may differ: it is
placed behind the given ids and never moves them. So both runs place the given ids in one order
(`filter_sorted_run_eq`).
-/

namespace Activation.Placement

variable {graph graph' : CandidateGraph} {needed : CandidateId → Prop}
  {ids all rest rest' front : List CandidateId} {p q p' : Placement} {id : CandidateId}

/-! ### Taking the same steps -/

/-- The needed ids ask for the same ids, in the same order, in both graphs, and what they ask for is
needed as well if it takes part. -/
structure Alike (graph graph' : CandidateGraph) (all : List CandidateId)
    (needed : CandidateId → Prop) : Prop where
  requests : ∀ id, needed id → graph.requestedAfter id = graph'.requestedAfter id
  closed : ∀ id other, needed id → graph.RequestsAmong all id other → needed other

/-- Two placements at the same point of the queue. What they can still meet before the rest of it is
needed. -/
structure Beside (all : List CandidateId) (needed : CandidateId → Prop)
    (rest rest' : List CandidateId) (p q : Placement) : Prop where
  queue : ∃ front, (∀ id ∈ front, needed id) ∧ p.queue = front ++ rest ∧ q.queue = front ++ rest'
  pending : ∀ id, id ∈ p.pending ↔ id ∈ q.pending
  path : p.path = q.path
  sorted : p.sorted = q.sorted
  cycle : p.cycle = q.cycle
  requests : ∀ frame ∈ p.path, ∀ id ∈ frame.requests, id ∈ all → needed id

theorem Beside.processing (beside : Beside all needed rest rest' p q) :
    p.processing = q.processing := congrArg (List.map Waiting.id) beside.path

theorem Beside.take (beside : Beside all needed rest rest' p q) (id : CandidateId)
    (ahead : ∀ id ∈ front, needed id) :
    Beside all needed rest rest' (p.take id (front ++ rest)) (q.take id (front ++ rest')) := by
  refine ⟨⟨front, ahead, rfl, rfl⟩, fun other => ?_, beside.path, beside.sorted, beside.cycle,
    beside.requests⟩
  simp only [Placement.take, List.mem_filter, beside.pending]

theorem Beside.enter (beside : Beside all needed rest rest' p q)
    (alike : Alike graph graph' all needed) (member : needed id) :
    Beside all needed rest rest' (p.enter graph id) (q.enter graph' id) := by
  refine ⟨beside.queue, beside.pending, ?_, beside.sorted, beside.cycle, ?_⟩
  · simp only [Placement.enter, alike.requests id member, beside.path]
  · intro frame waits other requested takesPart
    rcases List.mem_cons.mp waits with rfl | waits
    · exact alike.closed id other member ⟨takesPart, requested⟩
    · exact beside.requests frame waits other requested takesPart

theorem Beside.look {frame : Waiting} {path : List Waiting} {requests : List CandidateId}
    (beside : Beside all needed rest rest' p q) (inProgress : p.path = frame :: path)
    (left : frame.requests = id :: requests) {cycle cycle' : Option (CandidateId × CandidateId)}
    (same : cycle = cycle') :
    Beside all needed rest rest' { p with path := { frame with requests } :: path, cycle }
      { q with path := { frame with requests } :: path, cycle := cycle' } := by
  refine ⟨beside.queue, beside.pending, rfl, beside.sorted, same, ?_⟩
  intro other waits next requested
  rcases List.mem_cons.mp waits with rfl | waits
  · exact beside.requests frame (inProgress ▸ List.mem_cons_self) next
      (left ▸ List.mem_cons_of_mem id requested)
  · exact beside.requests other (inProgress ▸ List.mem_cons_of_mem frame waits) next requested

theorem Beside.place {frame : Waiting} {path : List Waiting}
    (beside : Beside all needed rest rest' p q) (inProgress : p.path = frame :: path) :
    Beside all needed rest rest' { p with path, sorted := p.sorted.insert frame.id }
      { q with path, sorted := q.sorted.insert frame.id } := by
  refine ⟨beside.queue, beside.pending, rfl, congrArg (·.insert frame.id) beside.sorted,
    beside.cycle, fun other waits => ?_⟩
  exact beside.requests other (inProgress ▸ List.mem_cons_of_mem frame waits)

/-- Before the rest of the queue is reached, the next id comes from the part that both queues share. -/
theorem Beside.next (beside : Beside all needed rest rest' p q) {queue : List CandidateId}
    (left : p.queue = id :: queue) (begun : p.queue ≠ rest) :
    ∃ later, needed id ∧ (∀ id ∈ later, needed id) ∧ queue = later ++ rest ∧
      q.queue = id :: (later ++ rest') := by
  obtain ⟨front, ahead, here, there⟩ := beside.queue
  cases front with
  | nil => exact absurd here begun
  | cons other later =>
    obtain ⟨rfl, same⟩ := List.cons.inj (left.symm.trans here)
    obtain ⟨asked, ahead⟩ := List.forall_mem_cons.mp ahead
    exact ⟨later, asked, ahead, same, there⟩

theorem Beside.move (beside : Beside all needed rest rest' p q)
    (alike : Alike graph graph' all needed) (inside : Inside all p)
    (begun : p.path = [] → p.queue ≠ rest) (move : Move graph p p') :
    ∃ q', Move graph' q q' ∧ Beside all needed rest rest' p' q' := by
  have path := beside.path
  -- The second placement makes the move of the first one: what decides about it is the same in both.
  cases move with
  | skip atTop left placed =>
    obtain ⟨later, -, ahead, rfl, there⟩ := beside.next left (begun atTop)
    exact ⟨_, .skip (path ▸ atTop) there (beside.sorted ▸ placed), beside.take _ ahead⟩
  | begin atTop left unplaced =>
    obtain ⟨later, asked, ahead, rfl, there⟩ := beside.next left (begun atTop)
    exact ⟨_, .begin (path ▸ atTop) there (beside.sorted ▸ unplaced),
      (beside.take _ ahead).enter alike asked⟩
  | place inProgress done =>
    exact ⟨_, .place (path ▸ inProgress) done, beside.place inProgress⟩
  | close inProgress left met =>
    exact ⟨_, .close (path ▸ inProgress) left (beside.processing ▸ met),
      beside.look inProgress left rfl⟩
  | @follow frame path' id requests inProgress left fresh unplaced waits =>
    refine ⟨_, .follow (path ▸ inProgress) left (beside.processing ▸ fresh)
      (beside.sorted ▸ unplaced) ((beside.pending id).mp waits), ?_⟩
    -- Only an id that takes part is entered, and such a request is needed.
    have asked : needed id := beside.requests frame (inProgress ▸ List.mem_cons_self) id
      (left ▸ List.mem_cons_self) (inside.pending id waits)
    exact (beside.look inProgress left beside.cycle).enter alike asked
  | @pass frame path' id requests inProgress left fresh placed =>
    refine ⟨_, .pass (path ▸ inProgress) left (beside.processing ▸ fresh) fun waits => ?_,
      beside.look inProgress left beside.cycle⟩
    exact beside.sorted ▸ placed ((beside.pending id).mpr waits)

/-- The placements go on together, or the first one has come to the rest of its queue. -/
theorem Beside.step (beside : Beside all needed rest rest' p q)
    (alike : Alike graph graph' all needed) (inside : Inside all p) (running : p.cycle = none) :
    (p.path = [] ∧ p.queue = rest) ∨ ∃ p' q', Placement.step graph p = some p' ∧
      Placement.step graph' q = some q' ∧ Beside all needed rest rest' p' q' := by
  by_cases parted : p.path = [] ∧ p.queue = rest
  · exact Or.inl parted
  right
  cases taken : Placement.step graph p with
  | none =>
    obtain ⟨atTop, exhausted⟩ := ended_of_step_eq_none taken running
    obtain ⟨front, -, here, -⟩ := beside.queue
    rw [exhausted, List.nil_eq_append_iff] at here
    exact absurd ⟨atTop, exhausted.trans here.2.symm⟩ parted
  | some p' =>
    obtain ⟨q', move, next⟩ := beside.move alike inside (fun atTop left => parted ⟨atTop, left⟩)
      (move_of_step taken).2
    exact ⟨p', q', rfl, step_of_move (beside.cycle ▸ running) move, next⟩

/-! ### Where the given ids are placed -/

theorem prefix_sorted_of_steps (steps : Process.Steps (step graph) p q) :
    p.sorted.toList <+: q.sorted.toList := by
  induction steps with
  | refl => exact List.prefix_rfl
  | @tail q r _ taken ih =>
    -- No move but one touches what is placed, and that one goes behind it.
    cases (move_of_step taken).2 with
    | place => exact ih.trans (q.sorted.prefix_insert _)
    | skip | begin | close | follow | pass => exact ih

theorem filter_eq_of_prefix {α : Type} {xs ys : List α} {keep : α → Bool} (first : xs <+: ys)
    (distinct : ys.Nodup) (kept : ∀ x, keep x = true → x ∈ xs) :
    ys.filter keep = xs.filter keep := by
  obtain ⟨more, rfl⟩ := first
  have apart := (List.nodup_append.mp distinct).2.2
  have dropped : more.filter keep = [] := by
    refine List.filter_eq_nil_iff.mpr fun x later held => ?_
    exact apart x (kept x held) x later rfl
  rw [List.filter_append, dropped, List.append_nil]

/-- Once the given ids are taken and none of them waits, their order is settled. -/
theorem filter_sorted_run (steps : Process.Steps (step graph) (start graph ids) p)
    (atTop : p.path = []) (left : ∀ id ∈ p.queue, id ∉ ids) {keep : CandidateId → Bool}
    (kept : ∀ id, keep id = true → id ∈ ids) :
    (run graph ids).sorted.toList.filter keep = p.sorted.toList.filter keep := by
  obtain ⟨later, same⟩ := Process.run_of_steps steps (halts graph ids)
  -- The run goes on from `p` and places more ids behind those of `p`, but no given ones.
  have first := prefix_sorted_of_steps (Process.steps_run later).1
  rw [run, same]
  refine filter_eq_of_prefix first (IdSet.nodup _) fun id held => ?_
  have tracked := tracked_of_steps steps
  rcases tracked.known id (mem_queue_start.mpr (Or.inl (kept id held))) with
    pending | sorted | waits
  · exact absurd (kept id held) (left id (tracked.queued id pending))
  · exact sorted
  · rw [Placement.processing, atTop] at waits
    cases waits

theorem cycle_of_steps (steps : Process.Steps (step graph) (start graph ids) p)
    (noCycle : (run graph ids).cycle = none) : p.cycle = none := by
  by_contra closed
  have final : step graph p = none := by
    obtain ⟨pair, closed⟩ := Option.ne_none_iff_exists'.mp closed
    simp only [step, closed]
  obtain ⟨later, same⟩ := Process.run_of_steps steps (halts graph ids)
  rw [run, same, Process.run_of_final later final] at noCycle
  exact closed noCycle

/-- What takes part besides the given ids. -/
def remainder (graph : CandidateGraph) (ids : List CandidateId) : List CandidateId :=
  graph.workingSet.filter fun id => decide (id ∉ ids)

theorem not_mem_of_mem_remainder (member : id ∈ remainder graph ids) : id ∉ ids :=
  of_decide_eq_true (List.mem_filter.mp member).2

theorem beside_start
    (same : ∀ id, id ∈ (start graph ids).queue ↔ id ∈ (start graph' ids).queue)
    (given : ∀ id ∈ ids, needed id) :
    Beside all needed (remainder graph ids) (remainder graph' ids) (start graph ids)
      (start graph' ids) :=
  ⟨⟨ids, given, rfl, rfl⟩, same, rfl, rfl, rfl,
    fun _ waits => absurd waits List.not_mem_nil⟩

/-- Where two graphs are alike for the given ids and for what these need, the given ids are placed in
the same order. -/
theorem filter_sorted_run_eq
    (same : ∀ id, id ∈ (start graph ids).queue ↔ id ∈ (start graph' ids).queue)
    (alike : Alike graph graph' (start graph ids).queue needed) (given : ∀ id ∈ ids, needed id)
    (noCycle : (run graph ids).cycle = none) {keep : CandidateId → Bool}
    (kept : ∀ id, keep id = true → id ∈ ids) :
    (run graph ids).sorted.toList.filter keep = (run graph' ids).sorted.toList.filter keep := by
  have together : ∀ p q, Process.Steps (step graph) (start graph ids) p ∧
      Beside (start graph ids).queue needed (remainder graph ids) (remainder graph' ids) p q →
      (p.path = [] ∧ p.queue = remainder graph ids) ∨
        ∃ p' q', step graph p = some p' ∧ step graph' q = some q' ∧
          Process.Steps (step graph) (start graph ids) p' ∧
          Beside (start graph ids).queue needed (remainder graph ids) (remainder graph' ids) p' q' := by
    rintro p q ⟨steps, beside⟩
    refine (beside.step alike (inside_of_steps steps) (cycle_of_steps steps noCycle)).imp_right ?_
    rintro ⟨p', q', taken, taken', next⟩
    exact ⟨p', q', taken, taken', steps.tail taken, next⟩
  -- The placements part when both have placed all given ids, and what follows moves none of them.
  obtain ⟨p, q, steps, steps', ⟨-, beside⟩, atTop, left⟩ :=
    (halts graph ids).side_by_side _ _ together ⟨.refl, beside_start same given⟩
  obtain ⟨front, -, here, there⟩ := beside.queue
  rw [left, List.self_eq_append_left] at here
  rw [here, List.nil_append] at there
  have first := filter_sorted_run steps atTop
    (fun id member => not_mem_of_mem_remainder (left ▸ member)) kept
  have second := filter_sorted_run steps' (beside.path ▸ atTop)
    (fun id member => not_mem_of_mem_remainder (there ▸ member)) kept
  rw [first, second, beside.sorted]

end Activation.Placement
