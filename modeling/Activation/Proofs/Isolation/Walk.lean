import Activation.Proofs.Agreement
import Activation.Proofs.Erasure
import Activation.Proofs.Termination

/-!
# Walks past an isolated id

An id is isolated from the given ids (`Source.Isolated`) when it says nothing about the order and
nothing leads from the given ids to it. A walk that is asked for it as well files its record, and is
otherwise the walk from the given ids: each moment shows one of that walk when the isolated id is
left out (`Walk.step_without`), so the two come to the same end (`Walk.run_without`).

What makes this so is that the isolated id is visited for a request only, and has nothing to visit
itself (`Walk.Spared`): the visits in progress have nothing pending but what they lead to
(`Walk.Led`).
-/

namespace Activation

/-- The id is not retired and names no other one. It is not reached from the given ids, nor does a
retired id that is reached declare that it precedes it. -/
structure Source.Isolated (source : Source) (ids : List CandidateId) (z : CandidateId) : Prop where
  live : (source.record z).isDeprecated = false
  before : (source.record z).before = ∅
  after : (source.record z).after = ∅
  unreached : ¬ source.Reaches ids z
  undeclared : ∀ id, source.Reaches ids id → (source.record id).isDeprecated = true →
    z ∉ (source.record id).before

namespace Source.Isolated

variable {source : Source} {ids front back : List CandidateId} {z id other : CandidateId}

theorem not_leadsTo (isolated : source.Isolated ids z) : ¬ source.LeadsTo z other := by
  rintro (replaces | ⟨-, -, named⟩)
  · rw [CandidateRecord.isDeprecated_eq_false_iff.mp isolated.live] at replaces
    exact IdSet.not_mem_empty other replaces
  · rw [CandidateRecord.edges, isolated.before, isolated.after] at named
    cases named

theorem not_mem (isolated : source.Isolated ids z) : z ∉ ids := fun member =>
  isolated.unreached (.requested member)

/-- Nothing but the isolated id itself is reached from it. -/
theorem reaches_iff (isolated : source.Isolated (front ++ back) z) :
    source.Reaches (front ++ z :: back) id ↔ id = z ∨ source.Reaches (front ++ back) id := by
  constructor
  · intro reached
    induction reached with
    | requested member =>
      rcases List.mem_append.mp member with inFront | inBack
      · exact Or.inr (.requested (List.mem_append_left back inFront))
      · exact (List.mem_cons.mp inBack).imp_right fun later =>
          .requested (List.mem_append_right front later)
    | led _ leads ih =>
      rcases ih with rfl | reached
      · exact absurd leads isolated.not_leadsTo
      · exact Or.inr (.led reached leads)
  · rintro (rfl | reached)
    · exact .requested (List.mem_append_right front List.mem_cons_self)
    · refine reached.of_reaches fun id member => .requested ?_
      exact (List.mem_append.mp member).elim (List.mem_append_left _) fun later =>
        List.mem_append_right front (List.mem_cons_of_mem z later)

theorem explorable (isolated : source.Isolated (front ++ back) z)
    (explorable : source.Explorable (front ++ back)) :
    source.Explorable (front ++ z :: back) := by
  rw [Walk.explorable_iff] at explorable ⊢
  refine (explorable.insert z).subset fun id reached => ?_
  exact isolated.reaches_iff.mp reached

end Source.Isolated

namespace Walk

variable {source : Source} {ids front back : List CandidateId} {w w' : Walk} {z id : CandidateId}
  {primary : Bool}

/-! ### What is pending -/

/-- The visits in progress are of visited ids, and have nothing pending but what these lead to. -/
def Led (source : Source) (w : Walk) : Prop :=
  ∀ frame ∈ w.path, frame.id ∈ w.visited ∧ ∀ other ∈ frame.pending, source.LeadsTo frame.id other

theorem Led.visits (led : Led source w) (filed : Filed source w)
    (visits : Visits source w id primary w') : Led source w' := by
  have here : id ∈ w'.visited := visits.mem_visited filed
  have kept : ∀ frame ∈ w.path, frame.id ∈ w'.visited ∧
      ∀ other ∈ frame.pending, source.LeadsTo frame.id other := by
    intro frame member
    refine ⟨?_, (led frame member).2⟩
    cases visits <;>
      first | exact (led frame member).1 | exact IdSet.mem_insert.mpr (Or.inl (led frame member).1)
  -- A visit puts at most one frame on top, for the id itself.
  cases visits with
  | again => exact kept
  | promote => exact kept
  | pass asked fresh found =>
    obtain ⟨rfl, -⟩ := filed.retired id _ found
    exact List.forall_mem_cons.mpr ⟨⟨here, fun other replaces => Or.inl replaces⟩, kept⟩
  | redirect => exact List.forall_mem_cons.mpr ⟨⟨here, fun other replaces => Or.inl replaces⟩, kept⟩
  | expand fresh live available =>
    refine List.forall_mem_cons.mpr ⟨⟨here, fun other named => ?_⟩, kept⟩
    exact Or.inr ⟨live, available, named⟩
  | default => exact kept

theorem Led.move (led : Led source w) (filed : Filed source w) (move : Move source w w') :
    Led source w' := by
  cases move with
  | finish inProgress =>
    exact fun frame member => led frame (inProgress ▸ List.mem_cons_of_mem _ member)
  | @request _ id requested atTop left visits =>
    have same : Led source { w with requested } := led
    exact same.visits (filed.reschedule requested w.path) visits
  | @follow _ frame path id pending inProgress left visits =>
    rw [Led, inProgress, List.forall_mem_cons] at led
    obtain ⟨⟨visited, leads⟩, outer⟩ := led
    rw [left, List.forall_mem_cons] at leads
    have same : Led source { w with path := { frame with pending } :: path } :=
      List.forall_mem_cons.mpr ⟨⟨visited, leads.2⟩, outer⟩
    exact same.visits (filed.reschedule w.requested ({ frame with pending } :: path)) visits

/-- The visits in progress have nothing to do with the id. -/
def Spared (z : CandidateId) (w : Walk) : Prop :=
  ∀ frame ∈ w.path, z ∉ frame.pending ∧ (frame.id = z → frame.pending = [])

theorem spared_of_steps (isolated : source.Isolated (front ++ back) z)
    (steps : Process.Steps (step source) (start (front ++ z :: back)) w) : Spared z w := by
  have grounded := (invariant_of_steps (Grounded source (front ++ z :: back))
    (fun _ _ filed grounded move => grounded.move filed move) grounded_start steps).2
  have led := (invariant_of_steps (Led source) (fun _ _ filed led move => led.move filed move)
    (fun _ member => nomatch member) steps).2
  intro frame member
  obtain ⟨visited, leads⟩ := led frame member
  have fromIsolated : frame.id = z → frame.pending = [] := by
    rintro rfl
    exact List.eq_nil_iff_forall_not_mem.mpr fun other pending =>
      isolated.not_leadsTo (leads other pending)
  refine ⟨fun pending => ?_, fromIsolated⟩
  rcases isolated.reaches_iff.mp (grounded frame.id (Or.inl visited)) with same | reached
  · rw [fromIsolated same] at pending
    cases pending
  · exact isolated.unreached (.led reached (leads z pending))

/-! ### Leaving the isolated id out -/

/-- What is left of a moment of a walk without an id. The retired ids are kept as they are. -/
def without (w : Walk) (z : CandidateId) : Walk where
  requested := w.requested.filter (· != z)
  path := w.path.filter fun frame => frame.id != z
  visited := w.visited.erase z
  promoted := w.promoted.erase z
  records := w.records.erase z
  deprecated := w.deprecated
  primary := w.primary.erase z
  events := w.events.filter (· != .candidateUnavailable z true)

theorem unknown_without (differ : id ≠ z) :
    (w.without z).Unknown id primary ↔ w.Unknown id primary := by
  simp [Unknown, without, differ]

theorem primaryWith_without (differ : id ≠ z) :
    (w.without z).primaryWith id primary = (w.primaryWith id primary).erase z :=
  (IdSet.erase_ite_insert differ _).symm

theorem promotedWith_without (differ : id ≠ z) :
    (w.without z).promotedWith id primary = (w.promotedWith id primary).erase z :=
  (IdSet.erase_ite_insert differ _).symm

/-- To file another id and to leave the isolated one out can be done in either order. -/
theorem file_without (differ : id ≠ z) (record : CandidateRecord) :
    (w.without z).file id record primary = (w.file id record primary).without z := by
  unfold file
  rw [primaryWith_without differ]
  split
  · simp [without, differ]
  · split
    · simp [without, differ, IdMap.erase_insert_of_ne differ]
    · simp [without, differ, IdMap.erase_insert_of_ne differ]

theorem promote_without (differ : id ≠ z) :
    (w.without z).promote id = (w.promote id).without z := by
  have held : (w.without z).records.contains id = w.records.contains id :=
    IdMap.contains_erase_of_ne differ
  have retired : (w.without z).deprecated.get? id = w.deprecated.get? id := rfl
  unfold promote
  rw [held, retired]
  split
  · simp [without, IdSet.erase_insert_of_ne differ]
  · split
    · rfl
    · simp [without, differ]

theorem promoted_without (differ : id ≠ z) :
    { w.without z with promoted := (w.without z).promoted.insert id } =
      ({ w with promoted := w.promoted.insert id }).without z := by
  simp [without, IdSet.erase_insert_of_ne differ]

/-- The visit of another id does not see the isolated one. -/
theorem visit_without (differ : id ≠ z) :
    visit source (w.without z) id primary = (visit source w id primary).without z := by
  by_cases unknown : w.Unknown id primary
  · have unknown' := (unknown_without differ).mpr unknown
    rw [visit_of_unknown unknown, visit_of_unknown unknown', ← file_without differ]
    congr 1
    rw [promotedWith_without differ]
    simp [without, IdSet.erase_insert_of_ne differ]
  · have known' := mt (unknown_without differ).mp unknown
    have fresh : id ∉ (w.without z).promoted ↔ id ∉ w.promoted := by
      simp [without, differ]
    rw [visit_of_known unknown, visit_of_known known']
    simp only [fresh]
    split
    · rw [promoted_without differ, promote_without differ]
    · rfl

/-- What the isolated id adds is left out again. -/
theorem file_without_self (live : (source.record z).isDeprecated = false) :
    (w.file z (source.record z) true).without z = w.without z := by
  unfold file
  rw [live, if_neg Bool.false_ne_true]
  split <;> simp [without, primaryWith]

theorem promote_without_self : (w.promote z).without z = w.without z := by
  unfold promote
  split
  · simp [without]
  · split
    · rfl
    · simp [without]

theorem visit_without_self (live : (source.record z).isDeprecated = false) :
    (visit source w z true).without z = w.without z := by
  by_cases unknown : w.Unknown z true
  · rw [visit_of_unknown unknown, file_without_self live]
    simp [without, promotedWith]
  · rw [visit_of_known unknown]
    split
    · rw [promote_without_self]
      simp [without]
    · rfl

/-- A step is a step of the walk without the isolated id, or it leaves that walk as it is. -/
theorem step_without (live : (source.record z).isDeprecated = false) (spared : Spared z w)
    (taken : step source w = some w') :
    w'.without z = w.without z ∨ step source (w.without z) = some (w'.without z) := by
  unfold step at taken
  split at taken
  next atTop =>
    split at taken
    · cases taken
    next id requested left =>
      cases taken
      by_cases same : id = z
      · subst same
        refine Or.inl ((visit_without_self live).trans ?_)
        simp [without, left]
      · refine Or.inr ?_
        rw [← visit_without same]
        simp [step, without, atTop, left, same]
  next frame path inProgress =>
    rw [Spared, inProgress, List.forall_mem_cons] at spared
    obtain ⟨⟨unnamed, finished⟩, -⟩ := spared
    split at taken
    next done =>
      cases taken
      by_cases same : frame.id = z
      · exact Or.inl (by simp [without, inProgress, same])
      · exact Or.inr (by simp [step, without, inProgress, same, done])
    next id pending left =>
      cases taken
      rw [left, List.mem_cons, not_or] at unnamed
      have differ : frame.id ≠ z := fun same => by simp [finished same] at left
      refine Or.inr ?_
      rw [← visit_without (Ne.symm unnamed.1)]
      simp [step, without, inProgress, differ, left]

theorem start_without (isolated : source.Isolated (front ++ back) z) :
    (start (front ++ z :: back)).without z = start (front ++ back) := by
  have kept : (front ++ back).filter (· != z) = front ++ back := by
    rw [List.filter_eq_self]
    intro id member
    simpa using fun same : id = z => isolated.not_mem (same ▸ member)
  have requested : (front ++ z :: back).filter (· != z) = front ++ back := by
    rw [← kept]
    simp
  simp only [start, without, requested]
  rfl

/-- The walk from the given ids finds what the walk that is asked for the isolated id as well finds
beside it. -/
theorem run_without (isolated : source.Isolated (front ++ back) z)
    (explorable : source.Explorable (front ++ back))
    (explorable' : source.Explorable (front ++ z :: back)) :
    run source (front ++ back) explorable =
      (run source (front ++ z :: back) explorable').without z := by
  refine Process.run_eq_view (fun w => w.without z) (start_without isolated) explorable explorable'
    (fun w w' steps taken => ?_) fun w steps final => ?_
  · exact step_without isolated.live (spared_of_steps isolated steps) taken
  · obtain ⟨atTop, left⟩ := ended_of_step_eq_none final
    simp [step, without, atTop, left]

end Walk

end Activation
