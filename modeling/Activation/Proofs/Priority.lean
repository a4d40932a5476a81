import Activation.Proofs.Baseline

/-!
# Priority

Placement takes the ids in the order of the baseline, lowest order value first, and departs from it
only where a constraint makes it. `sort_follows_baseline` says how far: the rank of an id, the
position of the first id of the baseline that needs it, does not fall along an order.

What a placement has placed so far comes in blocks, one for each id that was taken from the queue
(`Placement.Grouped`); what follows for ranks is `DepthFirst.Blocks.pairwise_rank`.
-/

namespace Activation

open Relation DepthFirst CandidateGraph

/-! ### Blocks of a placement -/

namespace Placement

variable {graph : CandidateGraph} {ids all : List CandidateId} {p q : Placement}

/-- What is placed while a placement is under way, and for whom. -/
inductive Grouped (graph : CandidateGraph) (all : List CandidateId) (p : Placement) : Prop
  -- No id waits: the ids that were taken are placed, each one after all that it asks for.
  | between (taken : List CandidateId) (split : all = taken ++ p.queue)
      (idle : p.processing = [])
      (blocks : Blocks (graph.RequestsAmong all) taken p.sorted.toList)
  -- The id that was taken last waits, and all that it asks for is placed first.
  | within {taken placed : List CandidateId} {root : CandidateId} (block upper : List CandidateId)
      (split : all = taken ++ root :: p.queue)
      (blocks : Blocks (graph.RequestsAmong all) taken placed)
      (sorted : p.sorted.toList = placed ++ block)
      (needed : ∀ id ∈ block ++ upper, TransGen (graph.RequestsAmong all) root id)
      (waiting : p.processing = upper ++ [root]) : Grouped graph all p

theorem grouped_start : Grouped graph (start graph ids).queue (start graph ids) :=
  .between [] rfl rfl .nil

/-- Looking at a request changes nothing about what is placed and who waits. -/
theorem Grouped.look (grouped : Grouped graph all p) (queue : q.queue = p.queue)
    (processing : q.processing = p.processing) (sorted : q.sorted = p.sorted) :
    Grouped graph all q := by
  cases grouped with
  | between taken split idle blocks =>
    exact .between taken (queue ▸ split) (processing ▸ idle) (sorted ▸ blocks)
  | within block upper split blocks placed needed waiting =>
    exact .within block upper (queue ▸ split) blocks (sorted ▸ placed) needed
      (processing ▸ waiting)

theorem Grouped.place {frame : Waiting} {path : List Waiting} (grouped : Grouped graph all p)
    (unplaced : frame.id ∉ p.sorted) (inProgress : p.path = frame :: path) :
    Grouped graph all { p with path, sorted := p.sorted.insert frame.id } := by
  have processing : p.processing = frame.id :: path.map Waiting.id := by
    simp only [Placement.processing, inProgress, List.map_cons]
  have inserted := IdSet.toList_insert_of_not_mem unplaced
  cases grouped with
  | between taken split idle blocks =>
    rw [processing] at idle
    cases idle
  | @within taken placed root block upper split blocks sorted needed waiting =>
    rw [processing] at waiting
    rw [sorted, List.append_assoc] at inserted
    cases upper with
    | nil =>
      -- The id that was taken from the queue is placed itself, which closes its block.
      obtain ⟨rfl, rest⟩ := List.cons.inj waiting
      refine .between (taken ++ [frame.id]) (by simpa using split) rest ?_
      rw [inserted]
      exact blocks.add fun id member => needed id (List.mem_append_left _ member)
    | cons id upper =>
      obtain ⟨rfl, rest⟩ := List.cons.inj waiting
      refine .within (block ++ [frame.id]) upper split blocks inserted
        (fun other member => needed other ?_) rest
      simpa only [List.append_assoc, List.singleton_append] using member

theorem Grouped.follow {frame : Waiting} {path : List Waiting} {id : CandidateId}
    {requests : List CandidateId} (grouped : Grouped graph all p)
    (inProgress : p.path = frame :: path) (requested : graph.RequestsAmong all frame.id id) :
    Grouped graph all ({ p with path := { frame with requests } :: path }.enter graph id) := by
  have processing : p.processing = frame.id :: path.map Waiting.id := by
    simp only [Placement.processing, inProgress, List.map_cons]
  cases grouped with
  | between taken split idle blocks =>
    rw [processing] at idle
    cases idle
  | @within taken placed root block upper split blocks sorted needed waiting =>
    rw [processing] at waiting
    have reached : TransGen (graph.RequestsAmong all) root id := by
      cases upper with
      | nil => exact .single ((List.cons.inj waiting).1 ▸ requested)
      | cons other upper =>
        obtain ⟨rfl, -⟩ := List.cons.inj waiting
        exact .tail (needed frame.id (by simp)) requested
    refine .within block (id :: upper) split blocks sorted (fun other member => ?_) ?_
    · rcases List.mem_append.mp member with placed | waits
      · exact needed other (List.mem_append_left _ placed)
      · rcases List.mem_cons.mp waits with rfl | waits
        · exact reached
        · exact needed other (List.mem_append_right _ waits)
    · simp only [enter, Placement.processing, List.map_cons, List.cons_append]
      exact congrArg (id :: ·) waiting

theorem Grouped.move (grouped : Grouped graph all p) (tracked : Tracked all p)
    (inside : Inside all p) (honored : Honored graph all p) (running : p.cycle = none)
    (move : Move graph p q) : Grouped graph all q := by
  cases move with
  | @skip id queue atTop left placed =>
    have idle : p.processing = [] := by simp only [processing, atTop, List.map_nil]
    cases grouped with
    | between taken split _ blocks =>
      have split : all = taken ++ [id] ++ queue := by simpa [left] using split
      exact .between (taken ++ [id]) split idle (blocks.skip placed)
    | within _ _ _ _ _ _ waiting => simp [idle] at waiting
  | @begin id queue atTop left unplaced =>
    have idle : p.processing = [] := by simp only [processing, atTop, List.map_nil]
    cases grouped with
    | between taken split _ blocks =>
      refine .within [] [] (left ▸ split) blocks (by simp; rfl)
        (fun _ member => absurd member List.not_mem_nil) ?_
      simp only [enter, Placement.take, processing, atTop, List.map_cons, List.map_nil,
        List.nil_append]
    | within _ _ _ _ _ _ waiting => simp [idle] at waiting
  | @place frame path inProgress done =>
    have waits : frame.id ∈ p.processing := by simp [processing, inProgress]
    exact grouped.place (tracked.apart _ waits) inProgress
  | close inProgress => exact grouped.look rfl (by simp [processing, inProgress]) rfl
  | pass inProgress => exact grouped.look rfl (by simp [processing, inProgress]) rfl
  | @follow frame path id requests inProgress left fresh unplaced waits =>
    have next := honored.next running inProgress left (inside.pending id waits)
    exact grouped.follow inProgress next.needs_inner

theorem grouped_of_steps (steps : Process.Steps (step graph) (start graph ids) p) :
    Grouped graph (start graph ids).queue p := by
  induction steps with
  | refl => exact grouped_start
  | tail before taken ih =>
    obtain ⟨running, move⟩ := move_of_step taken
    exact ih.move (tracked_of_steps before) (inside_of_steps before) (honored_of_steps before)
      running move

/-- What a placement has placed at its end comes in blocks, one for each id of the queue that was
new. -/
theorem blocks_run (noCycle : (run graph ids).cycle = none) :
    Blocks (graph.RequestsAmong (start graph ids).queue) (start graph ids).queue
      (run graph ids).sorted.toList := by
  obtain ⟨steps, final⟩ := Process.steps_run (halts graph ids)
  obtain ⟨atTop, left⟩ := ended_of_step_eq_none final noCycle
  have idle : (run graph ids).processing = [] := by
    rw [processing, run, atTop]
    rfl
  cases grouped_of_steps steps with
  | between taken split _ blocks =>
    rw [left, List.append_nil] at split
    exact split ▸ blocks
  | within _ _ _ _ _ _ waiting =>
    have waiting := idle.symm.trans waiting
    simp at waiting

end Placement

/-! ### Ranks along an order -/

variable {source : Source} {ids names out : List CandidateId} {graph : CandidateGraph}
  {explorable : source.Explorable ids}

theorem pairwise_rank_among_of_sort_eq_ok (sorted : (sort names graph).value = .ok out) :
    out.Pairwise fun x y =>
      rank (graph.RequestsAmong (graph.queue names))
        (graph.baseline (graph.requested names).toList) x ≤
      rank (graph.RequestsAmong (graph.queue names))
        (graph.baseline (graph.requested names).toList) y := by
  have listed : ∀ id ∈ out, id ∈ graph.baseline (graph.requested names).toList := by
    intro id member
    exact (graph.baseline_perm _).mem_iff.mpr ((mem_of_sort_eq_ok sorted).mp member)
  obtain ⟨noCycle, rfl⟩ := sort_eq_ok_iff.mp sorted
  have blocks := Placement.blocks_run noCycle
  have ranks := blocks.pairwise_rank Placement.inOrder_sorted_run (IdSet.nodup _)
  rw [← CandidateGraph.queue] at ranks
  generalize graph.RequestsAmong (graph.queue names) = needs at ranks ⊢
  rw [queue_eq] at ranks
  -- The queue goes on after the baseline, but an id of the baseline needs no root beyond it.
  refine (ranks.filter _).imp_of_mem fun first second le => ?_
  rwa [rank_append_of_needed (listed _ first) .refl, rank_append_of_needed (listed _ second) .refl]
    at le

namespace CandidateGraph.Describes

theorem pairwise_rank_of_sort_eq_ok (described : graph.Describes source ids)
    (bare : source.EdgesOnlyWhenAvailable) (sorted : (sort names graph).value = .ok out) :
    out.Pairwise fun x y =>
      rank graph.Requests (graph.baseline (graph.requested names).toList) x ≤
        rank graph.Requests (graph.baseline (graph.requested names).toList) y := by
  have ranks := pairwise_rank_among_of_sort_eq_ok sorted
  rwa [described.requestsAmong_queue bare] at ranks

theorem idxOf_lt_of_transGen (described : graph.Describes source ids)
    (bare : source.EdgesOnlyWhenAvailable) (sorted : (sort names graph).value = .ok out)
    {x y : CandidateId} (first : x ∈ out) (second : y ∈ out)
    (chain : TransGen graph.Requests x y) : out.idxOf y < out.idxOf x := by
  have requested : y ∈ graph.requested names := (mem_of_sort_eq_ok sorted).mp second
  have distinct := nodup_of_sort_eq_ok sorted
  obtain ⟨-, rfl⟩ := sort_eq_ok_iff.mp sorted
  have placed := (described.inOrder_placement bare names).transGen
  have kept := placed.filter fun id => decide (id ∈ graph.requested names)
  exact kept.idxOf_lt distinct first ⟨chain, decide_eq_true requested⟩

end CandidateGraph.Describes

/-- The front end asks to start first and the database to start last, but the front end needs the
database. -/
def startup : CandidateIndex := .ofEntries
  [(⟨"front"⟩, { order := some highestPrecedence, after := [⟨"pool"⟩] }),
    (⟨"pool"⟩, { after := [⟨"db"⟩] }), (⟨"db"⟩, { order := some lowestPrecedence }),
    (⟨"audit"⟩, {})]

/-- An order departs from the baseline only as far as constraints require. The ranks of its ids, the
positions of the first ids of the baseline that need them, do not fall along it, and an id whose rank
is its own position is the last one of its rank. So an id stays before a later one that nothing up to
it needs, and where the ids need nothing of each other the order is the baseline. -/
theorem sort_follows_baseline (bare : source.EdgesOnlyWhenAvailable)
    (built : (build source ids explorable).value = .ok graph)
    (sorted : (sort names graph).value = .ok out) :
    ∃ baseline, graph.IsBaseline names baseline ∧ out.Perm baseline ∧
      out.Pairwise (fun x y =>
        rank graph.Requests baseline x ≤ rank graph.Requests baseline y) ∧
      (∀ k x, baseline[k]? = some x → rank graph.Requests baseline x = k →
        ∀ y ∈ out, rank graph.Requests baseline y = k → out.idxOf y ≤ out.idxOf x) ∧
      (∀ x ∈ baseline, ∀ y ∈ baseline, baseline.idxOf x < baseline.idxOf y →
        (∀ z ∈ baseline, baseline.idxOf z ≤ baseline.idxOf x → ¬ TransGen graph.Requests z y) →
          out.idxOf x < out.idxOf y) ∧
      ((∀ x ∈ baseline, ∀ y ∈ baseline, ¬ TransGen graph.Requests x y) → out = baseline) := by
  have described := describes_of_build built
  have isBaseline := isBaseline_baseline graph names
  have ranks := described.pairwise_rank_of_sort_eq_ok bare sorted
  have permuted : out.Perm (graph.baseline (graph.requested names).toList) := by
    refine (List.perm_ext_iff_of_nodup (nodup_of_sort_eq_ok sorted) isBaseline.nodup).mpr ?_
    intro id
    exact (mem_of_sort_eq_ok sorted).trans (graph.baseline_perm _).mem_iff.symm
  generalize graph.baseline (graph.requested names).toList = baseline at isBaseline ranks permuted
  refine ⟨baseline, isBaseline, permuted, ranks, fun k x here own y member atRank => ?_,
    fun x first y second later free => ?_, fun free => ?_⟩
  · have first : x ∈ out := permuted.mem_iff.mpr (List.mem_of_getElem? here)
    rcases reflTransGen_iff_eq_or_transGen.mp (needed_of_rank here atRank) with rfl | chain
    · exact Nat.le_refl _
    · exact Nat.le_of_lt (described.idxOf_lt_of_transGen bare sorted first member chain)
  · exact idxOf_lt_of_pairwise_rank isBaseline.nodup permuted ranks first second later free
  · exact eq_of_pairwise_rank isBaseline.nodup permuted ranks free

theorem sort_follows_baseline_startup :
    ∃ graph, (build startup.source [⟨"front"⟩, ⟨"audit"⟩]
        (startup.source_finite.explorable _)).value = .ok graph ∧
      (sort [⟨"db"⟩, ⟨"audit"⟩, ⟨"front"⟩] graph).value =
        .ok [⟨"db"⟩, ⟨"front"⟩, ⟨"audit"⟩] ∧
      ∃ baseline, graph.IsBaseline [⟨"db"⟩, ⟨"audit"⟩, ⟨"front"⟩] baseline ∧
        baseline.length = 3 ∧
        rank graph.Requests baseline ⟨"db"⟩ ≤ rank graph.Requests baseline ⟨"front"⟩ ∧
        rank graph.Requests baseline ⟨"front"⟩ ≤ rank graph.Requests baseline ⟨"audit"⟩ := by
  obtain ⟨graph, built, sorted⟩ :
      ∃ graph, (build startup.source [⟨"front"⟩, ⟨"audit"⟩]
          (startup.source_finite.explorable _)).value = .ok graph ∧
        (sort [⟨"db"⟩, ⟨"audit"⟩, ⟨"front"⟩] graph).value =
          .ok [⟨"db"⟩, ⟨"front"⟩, ⟨"audit"⟩] :=
    exists_eq_ok_of_check (by cbv)
  obtain ⟨baseline, isBaseline, permuted, ranks, -⟩ :=
    sort_follows_baseline startup.source_edgesOnlyWhenAvailable built sorted
  obtain ⟨fromDb, ranks⟩ := List.pairwise_cons.mp ranks
  obtain ⟨fromFront, -⟩ := List.pairwise_cons.mp ranks
  exact ⟨graph, built, sorted, baseline, isBaseline, permuted.length_eq.symm,
    fromDb ⟨"front"⟩ (by decide), fromFront ⟨"audit"⟩ (by decide)⟩

end Activation
