import Activation.Order.Placement
import Activation.Proofs.DepthFirst

/-!
# What placement keeps

Two invariants hold at each moment of a placement.

* `Placement.Tracked`: no id of the queue gets lost. Each one is still pending, or waits to be
  placed, or is placed, and no id is in two of these places twice.
* `Placement.Honored`: what is placed stands in order, and the ids that wait are a suspended
  search, as far as requests are for ids that take part. Others are passed over.

At the end, either every id of the queue is placed (`mem_sorted_run`) in an order that meets all
requests among them (`inOrder_sorted_run`), or a cycle of requests was met (`cycle_run`).
-/

namespace Activation

open Relation

/-- The first id asks for the second one to be placed before it. -/
def CandidateGraph.Requests (graph : CandidateGraph) (id other : CandidateId) : Prop :=
  other ∈ graph.requestedAfter id

/-- The first id asks for the second one, which is one of the given ids. -/
def CandidateGraph.RequestsAmong (graph : CandidateGraph) (all : List CandidateId)
    (id other : CandidateId) : Prop :=
  other ∈ all ∧ other ∈ graph.requestedAfter id

namespace Placement

open DepthFirst

variable {graph : CandidateGraph} {ids all : List CandidateId} {p q : Placement}

/-! ### Steps -/

/-- A placement that has met no cycle can do all of this. -/
theorem step_of_move (running : p.cycle = none) (move : Move graph p q) :
    step graph p = some q := by
  cases move with
  | skip atTop left placed => simp only [step, running, atTop, left, placed, if_true]
  | begin atTop left unplaced => simp only [step, running, atTop, left, unplaced, if_false]
  | place inProgress done => simp only [step, running, inProgress, done]
  | close inProgress left met => simp only [step, running, inProgress, left, met, if_true]
  | follow inProgress left fresh unplaced waits =>
    simp only [step, running, inProgress, left, fresh, unplaced, waits, not_false_eq_true,
      and_self, if_false, if_true]
  | @pass frame path id requests inProgress left fresh placed =>
    have settled : ¬ (id ∉ p.sorted ∧ id ∈ p.pending) := fun waits => waits.1 (placed waits.2)
    simp only [step, running, inProgress, left, fresh, settled, if_false]

/-- A placement stops at a cycle, or when nothing waits and nothing is left. -/
theorem ended_of_step_eq_none (final : step graph p = none) (noCycle : p.cycle = none) :
    p.path = [] ∧ p.queue = [] := by
  unfold step at final
  split at final
  next closed => rw [closed] at noCycle; cases noCycle
  next atTop =>
    split at final
    next left => exact ⟨atTop, left⟩
    next => split at final <;> cases final
  next =>
    split at final
    · cases final
    · split at final
      · cases final
      · split at final <;> cases final

/-! ### Nothing gets lost -/

/-- Where the ids of the queue are while a placement is under way. -/
structure Tracked (all : List CandidateId) (p : Placement) : Prop where
  known : ∀ id ∈ all, id ∈ p.pending ∨ id ∈ p.sorted ∨ id ∈ p.processing
  queued : ∀ id ∈ p.pending, id ∈ p.queue
  distinct : p.processing.Nodup
  apart : ∀ id ∈ p.processing, id ∉ p.sorted

theorem mem_queue_start {id : CandidateId} :
    id ∈ (start graph ids).queue ↔ id ∈ ids ∨ id ∈ graph.workingSet := by
  simp only [start, List.mem_append, List.mem_filter, decide_eq_true_eq]
  by_cases given : id ∈ ids <;> simp [given]

theorem tracked_start : Tracked (start graph ids).queue (start graph ids) where
  known _ member := Or.inl member
  queued _ member := member
  distinct := List.nodup_nil
  apart _ member := nomatch member

theorem Tracked.of_subset {all some : List CandidateId} (tracked : Tracked all p)
    (subset : ∀ id ∈ some, id ∈ all) : Tracked some p :=
  ⟨fun id member => tracked.known id (subset id member), tracked.queued, tracked.distinct,
    tracked.apart⟩

/-- Taking an id from the queue loses track of that id only. -/
theorem Tracked.take {id : CandidateId} {queue : List CandidateId}
    (tracked : Tracked all p) (left : p.queue = id :: queue) :
    Tracked (all.filter (· != id)) (p.take id queue) := by
  refine ⟨fun other member => ?_, fun other pending => ?_, tracked.distinct, tracked.apart⟩
  · obtain ⟨member, differs⟩ := List.mem_filter.mp member
    exact (tracked.known other member).imp_left fun pending =>
      List.mem_filter.mpr ⟨pending, differs⟩
  · obtain ⟨pending, differs⟩ := List.mem_filter.mp pending
    have queued : other ∈ id :: queue := left ▸ tracked.queued other pending
    exact (List.mem_cons.mp queued).resolve_left (by simpa using differs)

theorem Tracked.placed {id : CandidateId}
    (tracked : Tracked (all.filter (· != id)) p) (placed : id ∈ p.sorted) : Tracked all p := by
  refine ⟨fun other member => ?_, tracked.queued, tracked.distinct, tracked.apart⟩
  by_cases same : other = id
  · exact Or.inr (Or.inl (same ▸ placed))
  · exact tracked.known other (List.mem_filter.mpr ⟨member, by simpa using same⟩)

theorem Tracked.enter {id : CandidateId}
    (tracked : Tracked (all.filter (· != id)) p) (fresh : id ∉ p.processing)
    (unplaced : id ∉ p.sorted) : Tracked all (p.enter graph id) := by
  refine ⟨fun other member => ?_, tracked.queued, ?_, fun other waits => ?_⟩
  · by_cases same : other = id
    · exact Or.inr (Or.inr (same ▸ List.mem_cons_self))
    · have known := tracked.known other (List.mem_filter.mpr ⟨member, by simpa using same⟩)
      exact known.imp_right (Or.imp_right (List.mem_cons_of_mem id))
  · exact List.nodup_cons.mpr ⟨fresh, tracked.distinct⟩
  · rcases List.mem_cons.mp waits with rfl | waits
    · exact unplaced
    · exact tracked.apart other waits

/-- Which requests an id has still to look at does not matter. -/
theorem Tracked.look {frame : Waiting} {path : List Waiting}
    (tracked : Tracked all p) (inProgress : p.path = frame :: path)
    (requests : List CandidateId) (cycle : Option (CandidateId × CandidateId)) :
    Tracked all { p with path := { frame with requests } :: path, cycle } := by
  have same : p.processing =
      { p with path := { frame with requests } :: path, cycle }.processing := by
    simp only [processing, inProgress, List.map_cons]
  exact ⟨same ▸ tracked.known, tracked.queued, same ▸ tracked.distinct, same ▸ tracked.apart⟩

theorem Tracked.place {frame : Waiting} {path : List Waiting}
    (tracked : Tracked all p) (inProgress : p.path = frame :: path) :
    Tracked all { p with path, sorted := p.sorted.insert frame.id } := by
  have waiting : p.processing = frame.id :: path.map Waiting.id := by
    simp only [processing, inProgress, List.map_cons]
  have distinct := tracked.distinct
  rw [waiting, List.nodup_cons] at distinct
  refine ⟨fun other member => ?_, tracked.queued, distinct.2, fun other waits => ?_⟩
  · rcases tracked.known other member with pending | sorted | waits
    · exact Or.inl pending
    · exact Or.inr (Or.inl (IdSet.mem_insert.mpr (Or.inl sorted)))
    · rw [waiting, List.mem_cons] at waits
      exact Or.inr (waits.imp_left fun same => IdSet.mem_insert.mpr (Or.inr same))
  · -- No id waits twice, so those that still wait are not the one that was placed.
    have unplaced := tracked.apart other (waiting ▸ List.mem_cons_of_mem _ waits)
    rw [IdSet.mem_insert]
    rintro (sorted | rfl)
    · exact unplaced sorted
    · exact distinct.1 waits

theorem Tracked.move (tracked : Tracked all p) (move : Move graph p q) :
    Tracked all q := by
  cases move with
  | skip atTop left placed => exact (tracked.take left).placed placed
  | begin atTop left unplaced =>
    exact (tracked.take left).enter (by simp [processing, Placement.take, atTop]) unplaced
  | place inProgress done => exact tracked.place inProgress
  | close inProgress left met => exact tracked.look inProgress _ _
  | follow inProgress left fresh unplaced =>
    -- The id stays in the queue, where it will be skipped.
    refine ((tracked.look inProgress _ _).of_subset ?_).enter ?_ unplaced
    · exact fun other member => (List.mem_filter.mp member).1
    · simpa only [processing, inProgress, List.map_cons] using fresh
  | pass inProgress left fresh placed => exact tracked.look inProgress _ _

theorem tracked_of_steps (steps : Process.Steps (step graph) (start graph ids) p) :
    Tracked (start graph ids).queue p :=
  steps.invariant (Tracked (start graph ids).queue)
    (fun _ _ tracked taken => tracked.move (move_of_step taken).2) tracked_start

/-- Where the ids of a placement come from while it is under way. -/
structure Inside (all : List CandidateId) (p : Placement) : Prop where
  queue : ∀ id ∈ p.queue, id ∈ all
  pending : ∀ id ∈ p.pending, id ∈ all
  processing : ∀ id ∈ p.processing, id ∈ all

theorem inside_start : Inside (start graph ids).queue (start graph ids) :=
  ⟨fun _ member => member, fun _ member => member,
    fun _ waits => absurd waits List.not_mem_nil⟩

theorem Inside.take {id : CandidateId} {queue : List CandidateId} (inside : Inside all p)
    (left : p.queue = id :: queue) : Inside all (p.take id queue) :=
  ⟨fun other member => inside.queue other (left ▸ List.mem_cons_of_mem id member),
    fun other member => inside.pending other (List.mem_filter.mp member).1, inside.processing⟩

theorem Inside.enter {id : CandidateId} (inside : Inside all p) (member : id ∈ all) :
    Inside all (p.enter graph id) := by
  refine ⟨inside.queue, inside.pending, fun other waits => ?_⟩
  rcases List.mem_cons.mp waits with rfl | waits
  · exact member
  · exact inside.processing other waits

theorem Inside.look {frame : Waiting} {path : List Waiting} (inside : Inside all p)
    (inProgress : p.path = frame :: path) (requests : List CandidateId)
    (cycle : Option (CandidateId × CandidateId)) :
    Inside all { p with path := { frame with requests } :: path, cycle } := by
  refine ⟨inside.queue, inside.pending, fun other waits => inside.processing other ?_⟩
  simpa only [Placement.processing, inProgress, List.map_cons] using waits

theorem Inside.move (inside : Inside all p) (move : Move graph p q) : Inside all q := by
  cases move with
  | skip atTop left placed => exact inside.take left
  | @begin id queue atTop left unplaced =>
    exact (inside.take left).enter (inside.queue id (left ▸ List.mem_cons_self))
  | place inProgress done =>
    refine ⟨inside.queue, inside.pending, fun other waits => inside.processing other ?_⟩
    simpa only [Placement.processing, inProgress, List.map_cons] using List.mem_cons_of_mem _ waits
  | close inProgress left met => exact inside.look inProgress _ _
  | follow inProgress left fresh unplaced waits =>
    exact (inside.look inProgress _ _).enter (inside.pending _ waits)
  | pass inProgress left fresh placed => exact inside.look inProgress _ _

theorem inside_of_steps (steps : Process.Steps (step graph) (start graph ids) p) :
    Inside (start graph ids).queue p :=
  steps.invariant (Inside (start graph ids).queue)
    (fun _ _ inside taken => inside.move (move_of_step taken).2) inside_start

/-! ### Requests in progress -/

/-- What the ids that wait have still to look at is what they ask for. -/
def Asking (graph : CandidateGraph) (p : Placement) : Prop :=
  ∀ frame ∈ p.path, ∀ id ∈ frame.requests, id ∈ graph.requestedAfter frame.id

theorem Asking.look {frame : Waiting} {path : List Waiting} {id : CandidateId}
    {requests : List CandidateId}
    (asking : Asking graph p) (inProgress : p.path = frame :: path)
    (left : frame.requests = id :: requests) :
    ∀ waiting ∈ { frame with requests } :: path, ∀ id ∈ waiting.requests,
      id ∈ graph.requestedAfter waiting.id := by
  rw [Asking, inProgress, List.forall_mem_cons, left, List.forall_mem_cons] at asking
  exact List.forall_mem_cons.mpr ⟨asking.1.2, asking.2⟩

theorem Asking.move (asking : Asking graph p) (move : Move graph p q) : Asking graph q := by
  cases move with
  | skip => exact asking
  | begin => exact List.forall_mem_cons.mpr ⟨fun _ member => member, asking⟩
  | place inProgress =>
    exact fun frame member => asking frame (inProgress ▸ List.mem_cons_of_mem _ member)
  | close inProgress left => exact asking.look inProgress left
  | follow inProgress left =>
    exact List.forall_mem_cons.mpr ⟨fun _ member => member, asking.look inProgress left⟩
  | pass inProgress left => exact asking.look inProgress left

theorem asking_of_steps (steps : Process.Steps (step graph) (start graph ids) p) :
    Asking graph p :=
  steps.invariant (Asking graph) (fun _ _ asking taken => asking.move (move_of_step taken).2)
    fun _ member => absurd member List.not_mem_nil

/-! ### Requests are met -/

/-- The ids that wait, each with the requests for given ids that it has still to look at. -/
def stack (all : List CandidateId) (p : Placement) : List (CandidateId × List CandidateId) :=
  p.path.map fun frame => (frame.id, frame.requests.filter fun id => decide (id ∈ all))

theorem map_fst_stack (all : List CandidateId) (p : Placement) :
    (p.stack all).map Prod.fst = p.processing := by
  simp only [stack, processing, List.map_map]
  rfl

/-- What an id has to look at when it is entered are all its requests for the given ids. -/
theorem mem_filter_requests {id other : CandidateId} :
    other ∈ (graph.requestedAfter id).toList.filter (fun id => decide (id ∈ all)) ↔
      graph.RequestsAmong all id other := by
  rw [List.mem_filter, decide_eq_true_eq, and_comm]
  rfl

/-- How far the requests for given ids are met while a placement is under way. -/
structure Honored (graph : CandidateGraph) (all : List CandidateId) (p : Placement) : Prop where
  ordered : InOrder (graph.RequestsAmong all) p.sorted.toList
  suspended : Suspended (graph.RequestsAmong all) (· ∈ p.sorted) (p.cycle.map Prod.snd)
    (p.stack all)
  closing : ∀ a b, p.cycle = some (a, b) → p.processing.head? = some a ∧ b ∈ p.processing

theorem honored_start : Honored graph all (start graph ids) where
  ordered := InOrder.nil
  suspended := .nil
  closing _ _ closed := nomatch closed

theorem Honored.place {frame : Waiting} {path : List Waiting} (honored : Honored graph all p)
    (running : p.cycle = none) (unplaced : frame.id ∉ p.sorted)
    (inProgress : p.path = frame :: path) (done : frame.requests = []) :
    Honored graph all { p with path, sorted := p.sorted.insert frame.id } := by
  have suspended := honored.suspended
  simp only [stack, inProgress, running, done, List.map_cons, List.filter_nil, Option.map_none]
    at suspended
  obtain ⟨met, outer⟩ := suspended.leave
  refine ⟨?_, ?_, fun a b closed => ?_⟩
  · rw [IdSet.toList_insert_of_not_mem unplaced]
    exact honored.ordered.concat met
  · simp only [running, Option.map_none]
    refine (outer.mono fun id placed => ?_).settle (IdSet.mem_insert.mpr (Or.inr rfl))
    exact IdSet.mem_insert.mpr (Or.inl placed)
  · simp only [running, reduceCtorEq] at closed

/-- The innermost id went on to the next of its requests, which is for one of the given ids. -/
theorem Honored.next {frame : Waiting} {path : List Waiting} {id : CandidateId}
    {requests : List CandidateId} (honored : Honored graph all p) (running : p.cycle = none)
    (inProgress : p.path = frame :: path) (left : frame.requests = id :: requests)
    (member : id ∈ all) :
    Suspended (graph.RequestsAmong all) (· ∈ p.sorted) (some id)
      (({ p with path := { frame with requests } :: path } : Placement).stack all) := by
  have suspended := honored.suspended
  simp only [stack, inProgress, running, left, List.map_cons, List.filter_cons, member,
    decide_true, if_true, Option.map_none] at suspended
  exact suspended.next

theorem Honored.move (honored : Honored graph all p) (tracked : Tracked all p)
    (inside : Inside all p) (running : p.cycle = none) (move : Move graph p q) :
    Honored graph all q := by
  cases move with
  | skip atTop left placed => exact ⟨honored.ordered, honored.suspended, honored.closing⟩
  | @begin id queue atTop left unplaced =>
    refine ⟨honored.ordered, ?_, fun a b closed => ?_⟩
    · simp only [stack, atTop, enter, Placement.take, running, Option.map_none, List.map_cons,
        List.map_nil]
      exact Suspended.nil.enter fun other => mem_filter_requests
    · simp only [enter, Placement.take, running, reduceCtorEq] at closed
  | @place frame path inProgress done =>
    have waits : frame.id ∈ p.processing := by simp [processing, inProgress]
    exact honored.place running (tracked.apart _ waits) inProgress done
  | @close frame path id requests inProgress left met =>
    refine ⟨honored.ordered, ?_, ?_⟩
    · exact honored.next running inProgress left (inside.processing id met)
    · rintro _ _ ⟨rfl⟩
      refine ⟨rfl, ?_⟩
      simpa only [processing, inProgress, List.map_cons] using met
  | @follow frame path id requests inProgress left fresh unplaced waits =>
    refine ⟨honored.ordered, ?_, fun a b closed => ?_⟩
    · simp only [enter, stack, running, Option.map_none, List.map_cons]
      exact (honored.next running inProgress left (inside.pending id waits)).enter
        fun other => mem_filter_requests
    · simp only [enter, running, reduceCtorEq] at closed
  | @pass frame path id requests inProgress left fresh placed =>
    refine ⟨honored.ordered, ?_, fun a b closed => ?_⟩
    · by_cases member : id ∈ all
      · -- An id that takes part and is neither placed nor waiting is pending, so it is not passed
        -- over.
        have met : id ∈ p.sorted := by
          rcases tracked.known id member with pending | sorted | waits
          · exact placed pending
          · exact sorted
          · exact absurd waits fresh
        simp only [running, Option.map_none]
        exact (honored.next running inProgress left member).settle met
      · have suspended := honored.suspended
        simp only [stack, inProgress, left, List.map_cons, List.filter_cons, member,
          decide_false, Bool.false_eq_true, if_false] at suspended
        exact suspended
    · simp only [running, reduceCtorEq] at closed

/-- Requests for ids that take part are met at each moment of a placement. -/
theorem honored_of_steps (steps : Process.Steps (step graph) (start graph ids) p) :
    Honored graph (start graph ids).queue p := by
  induction steps with
  | refl => exact honored_start
  | tail before taken ih =>
    obtain ⟨running, move⟩ := move_of_step taken
    exact ih.move (tracked_of_steps before) (inside_of_steps before) running move

/-! ### The end of a placement -/

theorem mem_sorted_run (noCycle : (run graph ids).cycle = none) {id : CandidateId}
    (member : id ∈ ids ∨ id ∈ graph.workingSet) : id ∈ (run graph ids).sorted := by
  obtain ⟨steps, final⟩ := Process.steps_run (halts graph ids)
  obtain ⟨atTop, left⟩ := ended_of_step_eq_none final noCycle
  have tracked := tracked_of_steps steps
  -- Nothing is left in the queue and nothing waits, so `id` can only be placed.
  rcases tracked.known id (mem_queue_start.mpr member) with pending | sorted | waits
  · have queued := tracked.queued id pending
    rw [left] at queued
    cases queued
  · exact sorted
  · rw [processing, atTop] at waits
    cases waits

theorem inOrder_sorted_run :
    InOrder (graph.RequestsAmong (start graph ids).queue) (run graph ids).sorted.toList :=
  (honored_of_steps (Process.steps_run (halts graph ids)).1).ordered

/-- A cycle that was met is one: the first id asks for the second one, and the second one is the
first or asks for it through others. -/
theorem Honored.cycle (honored : Honored graph all p) {a b : CandidateId}
    (closed : p.cycle = some (a, b)) :
    graph.RequestsAmong all a b ∧ ReflTransGen (graph.RequestsAmong all) b a := by
  obtain ⟨innermost, waits⟩ := honored.closing a b closed
  have suspended := honored.suspended
  rw [← map_fst_stack all] at waits
  simp only [closed, Option.map_some, stack] at suspended waits
  cases inProgress : p.path with
  | nil => simp [processing, inProgress] at innermost
  | cons frame path =>
    obtain rfl : frame.id = a := by simpa [processing, inProgress] using innermost
    simp only [inProgress, List.map_cons] at suspended waits
    -- `b` is on the stack, and every id of the stack leads to the innermost one, which is `a`.
    exact ⟨suspended.needs_inner, suspended.reaches b waits⟩

theorem cycle_run {a b : CandidateId} (closed : (run graph ids).cycle = some (a, b)) :
    graph.RequestsAmong (start graph ids).queue a b ∧
      ReflTransGen (graph.RequestsAmong (start graph ids).queue) b a :=
  (honored_of_steps (Process.steps_run (halts graph ids)).1).cycle closed

end Placement

end Activation
