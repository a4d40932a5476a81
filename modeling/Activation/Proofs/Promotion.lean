import Activation.Proofs.FirstVisits
import Activation.Proofs.Termination

/-!
# Promotions find a record

An id that is visited as primary after it was visited before is promoted. A promotion has no record
to ask for: it needs the one that the earlier visit filed, and would silently do nothing if there
were none. `promotion_finds_record` says that this never happens, and that a promotion never
interrupts the visit of an inherited id.

`Walk.promotes` tells from a moment whether its step is a promotion (`Walk.step_eq_promotes`).
`Walk.Backed` is the invariant about the visits in progress that pass on primacy; the one about their
nesting is `Walk.Nested`.
-/

namespace Activation

namespace Walk

variable {source : Source} {ids : List CandidateId} {w w' taken : Walk} {id : CandidateId}
  {primary : Bool}

/-! ### The moments of promotion -/

/-- The id that the next step promotes, if it promotes one. -/
def promotes (w : Walk) : Option CandidateId :=
  match w.next? with
  | some (id, true) => if id ∉ w.promoted ∧ id ∈ w.visited then some id else none
  | some (_, false) => none
  | none => none

/-- The moment at which the promotion of an id sets in. -/
def promoting (w : Walk) (id : CandidateId) : Walk :=
  { w.afterNext with promoted := w.promoted.insert id }

/-- What a step does that promotes nothing: it files the record of an id that is visited for the
first time, or leaves it at the visit, or ends the innermost visit. -/
def proceed (source : Source) (w : Walk) : Option Walk :=
  match w.next? with
  | some (id, primary) => some (
    if w.Unknown id primary then
      ({ w.afterNext with
          visited := w.visited.insert id
          promoted := w.promotedWith id primary }).file id (source.record id) primary
    else w.afterNext)
  | none => w.path.head?.map fun _ => { w with path := w.path.tail }

theorem promotes_eq_some_iff :
    w.promotes = some id ↔ w.next? = some (id, true) ∧ id ∉ w.promoted ∧ id ∈ w.visited := by
  unfold promotes
  split
  next other next => grind
  next next => simp [next]
  next next => simp [next]

theorem takes_afterNext (next : w.next? = some (id, primary)) : Takes w id primary w.afterNext := by
  unfold next? at next
  split at next
  next atTop =>
    obtain ⟨_, head, same⟩ := Option.map_eq_some_iff.mp next
    cases same
    obtain ⟨requested, left⟩ := List.head?_eq_some_iff.mp head
    have after : w.afterNext = { w with requested } := by simp [afterNext, atTop, left]
    exact after ▸ .request atTop left
  next frame path inProgress =>
    obtain ⟨_, head, same⟩ := Option.map_eq_some_iff.mp next
    cases same
    obtain ⟨pending, left⟩ := List.head?_eq_some_iff.mp head
    have after : w.afterNext = { w with path := { frame with pending } :: path } := by
      simp [afterNext, inProgress, left]
    exact after ▸ .follow inProgress left

theorem promoted_afterNext (w : Walk) : w.afterNext.promoted = w.promoted := by
  unfold afterNext
  split <;> rfl

theorem step_eq_promotes (source : Source) (w : Walk) :
    step source w = match w.promotes with
      | some id => some ((w.promoting id).promote id)
      | none => w.proceed source := by
  rw [step_eq]
  split
  next id primary next =>
    by_cases promoted : primary = true ∧ id ∉ w.promoted ∧ id ∈ w.visited
    · obtain ⟨rfl, fresh, visited⟩ := promoted
      have known : ¬ w.afterNext.Unknown id true := fun unknown =>
        unknown.2 (visited_afterNext w ▸ visited)
      simp only [promotes_eq_some_iff.mpr ⟨next, fresh, visited⟩]
      rw [visit_of_known known, promoted_afterNext, if_pos ⟨rfl, fresh⟩, promoting]
    · have spared : w.promotes = none := by
        rw [Option.eq_none_iff_forall_ne_some]
        intro other asked
        obtain ⟨same, promotion⟩ := promotes_eq_some_iff.mp asked
        cases next.symm.trans same
        exact promoted ⟨rfl, promotion⟩
      simp only [spared, proceed, next]
      split
      next unknown =>
        rw [visit_of_unknown (unknown_afterNext.mpr unknown), visited_afterNext, promotedWith,
          promotedWith, promoted_afterNext]
      next known =>
        -- What is known and not promoted was promoted before, or is only inherited now.
        rw [visit_of_known (unknown_afterNext.not.mpr known), promoted_afterNext, if_neg]
        rintro ⟨rfl, fresh⟩
        refine promoted ⟨rfl, fresh, ?_⟩
        by_contra unvisited
        exact known ⟨fun again => fresh again.2, unvisited⟩
  next next =>
    have spared : w.promotes = none := by simp [promotes, next]
    simp only [spared, proceed, next]

/-! ### Visits that pass on primacy -/

/-- A visit in progress that passes on primacy is one as primary itself, of a retired id whose
record is filed. An id is primary once it is promoted and its record is in the working set. -/
structure Backed (w : Walk) : Prop where
  passing : ∀ frame ∈ w.path, frame.passesPrimary = true →
    frame.primary = true ∧ frame.id ∈ w.deprecated.keys
  primary : ∀ id, id ∈ w.primary ↔ id ∈ w.promoted ∧ id ∈ w.records.keys

theorem backed_start : Backed (start ids) where
  passing _ member := nomatch member
  primary _ := ⟨nofun, fun filed => nomatch filed.1⟩

theorem Filed.not_mem_deprecated (filed : Filed source w) (member : id ∈ w.records.keys) :
    id ∉ w.deprecated.keys := by
  intro retired
  have live := filed.live_of_mem member
  rw [filed.retired_of_mem retired] at live
  cases live

/-- An id that is met for the first time and joins the working set becomes primary if it is visited
as primary. -/
theorem Backed.join (backed : Backed w) (filed : Filed source w) (fresh : id ∉ w.visited)
    (record : CandidateRecord) (other : CandidateId) :
    other ∈ w.primaryWith id primary ↔
      other ∈ w.promotedWith id primary ∧ other ∈ (w.records.insert id record).keys := by
  rw [IdMap.mem_keys_insert]
  cases primary with
  | true =>
    show other ∈ w.primary.insert id ↔ other ∈ w.promoted.insert id ∧ _
    rw [IdSet.mem_insert, IdSet.mem_insert, backed.primary, and_or_right]
  | false =>
    show other ∈ w.primary ↔ other ∈ w.promoted ∧ _
    rw [backed.primary]
    refine and_congr_right fun promoted => (or_iff_left ?_).symm
    rintro rfl
    exact fresh (filed.promoted other promoted)

/-- An id that is not in the working set can be promoted without becoming primary. -/
theorem Backed.outside (backed : Backed w) (absent : id ∉ w.records.keys) (primary : Bool)
    (other : CandidateId) :
    other ∈ w.primary ↔ other ∈ w.promotedWith id primary ∧ other ∈ w.records.keys := by
  rw [backed.primary]
  refine and_congr_left fun member => ⟨subset_promotedWith, fun promoted => ?_⟩
  refine (mem_promotedWith promoted).resolve_right ?_
  rintro rfl
  exact absent member

theorem Backed.visits (backed : Backed w) (filed : Filed source w)
    (visits : Visits source w id primary w') : Backed w' := by
  cases visits with
  | again => exact backed
  | promote asked fresh found =>
    refine ⟨backed.passing, fun other => ?_⟩
    have member := IdMap.mem_keys_of_get? found
    simp only [IdSet.mem_insert, backed.primary]
    constructor
    · rintro (⟨promoted, filed⟩ | rfl)
      · exact ⟨Or.inl promoted, filed⟩
      · exact ⟨Or.inr rfl, member⟩
    · rintro ⟨promoted | rfl, filed⟩
      · exact Or.inl ⟨promoted, filed⟩
      · exact Or.inr rfl
  | pass asked fresh found =>
    -- The new visit passes on primacy, and its record was filed when the id was first visited.
    have retired := IdMap.mem_keys_of_get? found
    have absent : id ∉ w.records.keys := fun member => filed.not_mem_deprecated member retired
    refine ⟨List.forall_mem_cons.mpr ⟨fun _ => ⟨rfl, retired⟩, backed.passing⟩, ?_⟩
    exact backed.outside absent true
  | redirect fresh retired =>
    -- The record of the new visit is filed in this very step.
    have absent : id ∉ w.records.keys := fun member =>
      fresh ((filed.visited id).mpr (Or.inl member))
    refine ⟨List.forall_mem_cons.mpr ⟨fun asPrimary => ⟨asPrimary, ?_⟩, ?_⟩,
      backed.outside absent primary⟩
    · exact IdMap.mem_keys_insert.mpr (Or.inr rfl)
    · intro frame member passes
      obtain ⟨asPrimary, stored⟩ := backed.passing frame member passes
      exact ⟨asPrimary, IdMap.mem_keys_insert.mpr (Or.inl stored)⟩
  | expand fresh live available =>
    -- Edges are followed as inherited, so nothing is asked of the new visit.
    exact ⟨List.forall_mem_cons.mpr ⟨fun passes => absurd passes Bool.false_ne_true, backed.passing⟩,
      backed.join filed fresh _⟩
  | default fresh live unavailable => exact ⟨backed.passing, backed.join filed fresh _⟩

theorem Backed.take (backed : Backed w) (takes : Takes w id primary taken) : Backed taken := by
  cases takes with
  | request => exact ⟨backed.passing, backed.primary⟩
  | follow inProgress left =>
    refine ⟨?_, backed.primary⟩
    have passing := backed.passing
    rw [inProgress, List.forall_mem_cons] at passing
    exact List.forall_mem_cons.mpr passing

theorem Backed.move (backed : Backed w) (filed : Filed source w) (move : Move source w w') :
    Backed w' := by
  rcases move.finish_or_takes with
    ⟨frame, path, inProgress, done, rfl⟩ | ⟨id, primary, taken, takes, made⟩
  · refine ⟨fun outer deeper => backed.passing outer ?_, backed.primary⟩
    exact inProgress ▸ List.mem_cons_of_mem frame deeper
  · exact (backed.take takes).visits (takes.filed filed) made

/-- Everything that holds at each moment of a walk about its promotions. -/
theorem backed_of_steps (steps : Process.Steps (step source) (start ids) w) :
    Filed source w ∧ Nested source none w ∧ Backed w := by
  apply invariant_of_steps _ _ ⟨nested_start, backed_start⟩ steps
  rintro w w' filed ⟨nested, backed⟩ move
  exact ⟨nested.move filed move, backed.move filed move⟩

/-! ### Promotions -/

theorem promote_of_live (live : id ∈ w.records.keys) :
    w.promote id = { w with primary := w.primary.insert id } :=
  if_pos (IdMap.contains_iff.mpr live)

theorem promote_of_retired {record : CandidateRecord} (absent : id ∉ w.records.keys)
    (found : w.deprecated.get? id = some record) :
    w.promote id = { w with path := ⟨id, true, record.replacements.toList, true⟩ :: w.path } := by
  have outside : ¬ w.records.contains id = true := fun live => absent (IdMap.contains_iff.mp live)
  rw [promote, if_neg outside, found]

end Walk

/-- A step promotes an id exactly where `Walk.promotes` says so. The id has a record by then, in the
working set or as a retired id and not both: it becomes primary, or its replacements are to be
visited as primary. Each visit around it is one as primary of a retired id whose record is filed, so
no inherited visit is in progress. At every moment the visited ids are those of the working set and
the retired ones, none of them both, and the primary ids are the promoted ids of the working set. -/
theorem promotion_finds_record (source : Source) (ids : List CandidateId) :
    (∀ w, Walk.step source w = match w.promotes with
      | some id => some ((w.promoting id).promote id)
      | none => w.proceed source) ∧
    ∀ w, Process.Steps (Walk.step source) (Walk.start ids) w →
      (∀ id called, w.promotes = some id → called = w.promoting id →
        (id ∈ called.records.keys ∧ id ∉ called.deprecated.keys ∧
            called.promote id = { called with primary := called.primary.insert id } ∨
          id ∈ called.deprecated.keys ∧ id ∉ called.records.keys ∧
            called.promote id = { called with
              path := ⟨id, true, (source.record id).replacements.toList, true⟩ :: called.path }) ∧
        ∀ frame ∈ called.path, frame.primary = true ∧ frame.passesPrimary = true ∧
          frame.id ∈ called.deprecated.keys) ∧
      (∀ id, id ∈ w.visited ↔ id ∈ w.records.keys ∨ id ∈ w.deprecated.keys) ∧
      (∀ id ∈ w.records.keys, id ∉ w.deprecated.keys) ∧
      ∀ id, id ∈ w.primary ↔ id ∈ w.promoted ∧ id ∈ w.records.keys := by
  refine ⟨Walk.step_eq_promotes source, fun w steps => ?_⟩
  obtain ⟨filed, nested, backed⟩ := Walk.backed_of_steps steps
  refine ⟨?_, filed.visited, fun id => filed.not_mem_deprecated, backed.primary⟩
  rintro id _ promotion rfl
  obtain ⟨next, -, visited⟩ := Walk.promotes_eq_some_iff.mp promotion
  have takes := Walk.takes_afterNext next
  have filed' : Walk.Filed source w.afterNext := takes.filed filed
  refine ⟨?_, fun frame inProgress => ?_⟩
  · rcases (filed'.visited id).mp (takes.visited_eq ▸ visited) with live | retired
    · exact Or.inl ⟨live, filed'.not_mem_deprecated live, Walk.promote_of_live live⟩
    · have absent : id ∉ w.afterNext.records.keys := fun live =>
        filed'.not_mem_deprecated live retired
      obtain ⟨record, found⟩ := IdMap.mem_keys_iff.mp retired
      obtain ⟨rfl, -⟩ := filed'.retired id record found
      exact Or.inr ⟨retired, absent, Walk.promote_of_retired absent found⟩
  · -- The id is visited as primary, which happens only inside of visits that pass on primacy.
    have passes := nested.passesPrimary takes rfl frame inProgress
    obtain ⟨asPrimary, stored⟩ := (backed.take takes).passing frame inProgress passes
    exact ⟨asPrimary, passes, stored⟩

/-- All of the stack was visited for the sake of `web` before `legacy` is asked for, which stands for
`db` and through it for `pg`. -/
theorem promotion_finds_record_webStack :
    ∃ w, Process.Steps (Walk.step webStack.source) (Walk.start [⟨"web"⟩, ⟨"legacy"⟩]) w ∧
      w.promotes = some ⟨"pg"⟩ ∧
      (w.promoting ⟨"pg"⟩).path.map Frame.id = [⟨"db"⟩, ⟨"legacy"⟩] ∧
      (∀ frame ∈ (w.promoting ⟨"pg"⟩).path, frame.primary = true) ∧
      ((w.promoting ⟨"pg"⟩).promote ⟨"pg"⟩).primary = w.primary.insert ⟨"pg"⟩ := by
  have steps := Process.steps_advance (Walk.step webStack.source) 10
    (Walk.start [⟨"web"⟩, ⟨"legacy"⟩])
  have promotion : (Process.advance (Walk.step webStack.source) 10
      (Walk.start [⟨"web"⟩, ⟨"legacy"⟩])).promotes = some ⟨"pg"⟩ := by cbv
  obtain ⟨-, moments⟩ := promotion_finds_record webStack.source [⟨"web"⟩, ⟨"legacy"⟩]
  obtain ⟨found, around⟩ := (moments _ steps).1 _ _ promotion rfl
  refine ⟨_, steps, promotion, by cbv, fun frame member => (around frame member).1, ?_⟩
  rcases found with ⟨-, -, promoted⟩ | ⟨retired, -⟩
  · rw [promoted]
    cbv
  · exact absurd retired (by decide)

end Activation
