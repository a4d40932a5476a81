import Activation.Graph.Resolution
import Activation.Proofs.DepthFirst
import Activation.Proofs.FirstOccurrences

/-!
# What retired ids stand for

The resolution keeps `Resolution.Consistent`: every set it has stored for a retired id is put
together from what the replacements of that id stand for, in their order. From this and from the
end of a run follows the law of a resolution that met no loop (`Resolution.Complete`): each retired
id stands for the first occurrences of what its replacements stand for, and replacements lead from
any id only finitely far.
-/

namespace Activation.Resolution

open DepthFirst

/-- What an id stands for by the sets that are known: a resolved one for its set, any other one for
itself. -/
def standsFor (resolved : IdMap IdSet) (id : CandidateId) : List CandidateId :=
  match resolved.get? id with
  | some known => known.toList
  | none => [id]

/-- The first id is retired, and the second one is among its replacements. -/
def Replaces (deprecated : IdMap CandidateRecord) (id other : CandidateId) : Prop :=
  ∃ record, deprecated.get? id = some record ∧ other ∈ record.replacements

/-- Nothing more is to be found out about an id. -/
def Settled (deprecated : IdMap CandidateRecord) (resolved : IdMap IdSet) (id : CandidateId) :
    Prop :=
  id ∈ deprecated.keys → id ∈ resolved.keys

variable {deprecated : IdMap CandidateRecord} {resolved : IdMap IdSet} {r s : Resolution}

/-! ### The end -/

/-- A resolution stops at a loop, or when nothing is in progress and nothing is left. -/
theorem ended_of_step_eq_none (final : step deprecated r = none) (noLoop : r.loop = none) :
    r.path = [] ∧ r.queue = [] := by
  unfold step at final
  split at final
  next looped => rw [looped] at noLoop; cases noLoop
  next atTop =>
    split at final
    next left => exact ⟨atTop, left⟩
    next => split at final <;> cases final
  next =>
    split at final
    · cases final
    · split at final
      · cases final
      · split at final
        · cases final
        · split at final <;> cases final

/-! ### Sets in the making -/

/-- The ids being resolved, the innermost first, each with the set that its replacements gave so
far. `inner` is the replacement that the innermost one waits for, if any. -/
inductive Gathered (deprecated : IdMap CandidateRecord) (resolved : IdMap IdSet) :
    Option CandidateId → List Redirect → Prop
  | nil {inner : Option CandidateId} : Gathered deprecated resolved inner []
  | cons {inner : Option CandidateId} {frame : Redirect} {path : List Redirect}
      {record : CandidateRecord} (looked : List CandidateId)
      (found : deprecated.get? frame.id = some record)
      (split : record.replacements.toList = looked ++ (inner.toList ++ frame.pending))
      (settled : ∀ id ∈ looked, Settled deprecated resolved id)
      (given : frame.standsFor = IdSet.ofList (looked.flatMap (standsFor resolved)))
      (outer : Gathered deprecated resolved (some frame.id) path) :
      Gathered deprecated resolved inner (frame :: path)

theorem standsFor_of_get? {id : CandidateId} {known : IdSet}
    (found : resolved.get? id = some known) : standsFor resolved id = known.toList := by
  simp only [standsFor, found]

theorem standsFor_of_not_mem {id : CandidateId} (unknown : id ∉ resolved.keys) :
    standsFor resolved id = [id] := by
  simp only [standsFor, IdMap.get?_eq_none_iff.mpr unknown]

theorem standsFor_insert_of_ne {id other : CandidateId} (set : IdSet) (differ : other ≠ id) :
    standsFor (resolved.insert id set) other = standsFor resolved other := by
  simp only [standsFor, IdMap.get?_insert_of_ne _ _ differ]

theorem Settled.ne {id other : CandidateId} (settled : Settled deprecated resolved other)
    (retired : id ∈ deprecated.keys) (unknown : id ∉ resolved.keys) : other ≠ id := by
  rintro rfl
  exact unknown (settled retired)

theorem Settled.insert {id other : CandidateId} (set : IdSet)
    (settled : Settled deprecated resolved other) :
    Settled deprecated (resolved.insert id set) other :=
  fun retired => IdMap.mem_keys_insert.mpr (Or.inl (settled retired))

/-- What settled ids stand for does not change when another id is resolved. -/
theorem flatMap_standsFor_insert {id : CandidateId} {ids : List CandidateId} (set : IdSet)
    (retired : id ∈ deprecated.keys) (unknown : id ∉ resolved.keys)
    (settled : ∀ other ∈ ids, Settled deprecated resolved other) :
    ids.flatMap (standsFor (resolved.insert id set)) = ids.flatMap (standsFor resolved) := by
  apply List.flatMap_congr
  intro other member
  exact standsFor_insert_of_ne set ((settled other member).ne retired unknown)

namespace Gathered

variable {inner : Option CandidateId} {id : CandidateId} {frame : Redirect} {path : List Redirect}

theorem insert (set : IdSet) (retired : id ∈ deprecated.keys) (unknown : id ∉ resolved.keys)
    (gathered : Gathered deprecated resolved inner path) :
    Gathered deprecated (resolved.insert id set) inner path := by
  induction gathered with
  | nil => exact nil
  | cons looked found split settled given _ ih =>
    -- The id that is resolved now was not settled before, so no set in the making depends on it.
    refine cons looked found split (fun other member => (settled other member).insert set) ?_ ih
    rw [given, flatMap_standsFor_insert set retired unknown settled]

theorem enter {record : CandidateRecord} (gathered : Gathered deprecated resolved (some id) path)
    (found : deprecated.get? id = some record) :
    Gathered deprecated resolved none (⟨id, ∅, record.replacements.toList⟩ :: path) :=
  cons [] found rfl nofun rfl gathered

theorem next {pending : List CandidateId} (left : frame.pending = id :: pending)
    (gathered : Gathered deprecated resolved none (frame :: path)) :
    Gathered deprecated resolved (some id) ({ frame with pending } :: path) := by
  cases gathered with
  | cons looked found split settled given outer =>
    exact cons looked found (by simpa [left] using split) settled given outer

/-- What a settled replacement stands for goes to the id that asked for it. -/
theorem settle (done : Settled deprecated resolved id)
    (gathered : Gathered deprecated resolved (some id) (frame :: path)) :
    Gathered deprecated resolved none
      ({ frame with standsFor := frame.standsFor.insertAll (standsFor resolved id) } :: path) := by
  cases gathered with
  | cons looked found split settled given outer =>
    refine cons (looked ++ [id]) found (by simpa using split) ?_ ?_ outer
    · intro other member
      rcases List.mem_append.mp member with earlier | same
      · exact settled other earlier
      · exact List.mem_singleton.mp same ▸ done
    · rw [given, List.flatMap_append, IdSet.ofList_append, List.flatMap_singleton]

/-- An id without replacements left stands for what all of them stand for. -/
theorem finish (done : frame.pending = [])
    (gathered : Gathered deprecated resolved none (frame :: path)) :
    ∃ record, deprecated.get? frame.id = some record ∧
      (∀ id ∈ record.replacements, Settled deprecated resolved id) ∧
      frame.standsFor = IdSet.ofList (record.replacements.toList.flatMap (standsFor resolved)) ∧
      Gathered deprecated resolved (some frame.id) path := by
  cases gathered with
  | @cons _ _ _ record looked found split settled given outer =>
    have whole : record.replacements.toList = looked := by simpa [done] using split
    subst whole
    exact ⟨record, found, settled, given, outer⟩

end Gathered

/-! ### The invariant -/

/-- One retired id needs another to be resolved before it. -/
def NeedsResolved (deprecated : IdMap CandidateRecord) (id other : CandidateId) : Prop :=
  Replaces deprecated id other ∧ other ∈ deprecated.keys

/-- What holds at each moment of a resolution. -/
structure Consistent (deprecated : IdMap CandidateRecord) (r : Resolution) : Prop where
  queued : ∀ entry ∈ r.queue, deprecated.get? entry.1 = some entry.2
  known : ∀ id ∈ deprecated.keys,
    id ∈ r.queue.map Prod.fst ∨ id ∈ r.resolved.keys ∨ id ∈ r.chain
  distinct : r.chain.Nodup
  apart : ∀ id ∈ r.chain, id ∉ r.resolved.keys
  gathered : Gathered deprecated r.resolved (r.loop.bind List.head?) r.path
  exact : ∀ id known, r.resolved.get? id = some known → ∃ record,
    deprecated.get? id = some record ∧
      (∀ other ∈ record.replacements, Settled deprecated r.resolved other) ∧
      known = IdSet.ofList (record.replacements.toList.flatMap (standsFor r.resolved))
  ordered : InOrder (NeedsResolved deprecated) r.resolved.keys

theorem consistent_start : Consistent deprecated (start deprecated) where
  queued _ member := IdMap.get?_eq_some_iff.mpr member
  known _ member := Or.inl member
  distinct := List.nodup_nil
  apart _ member := nomatch member
  gathered := .nil
  exact _ _ found := nomatch found
  ordered := InOrder.nil

theorem Consistent.look {frame frame' : Redirect} {path : List Redirect}
    {loop : Option (List CandidateId)} (consistent : Consistent deprecated r)
    (inProgress : r.path = frame :: path) (same : frame'.id = frame.id)
    (gathered : Gathered deprecated r.resolved (loop.bind List.head?) (frame' :: path)) :
    Consistent deprecated { r with path := frame' :: path, loop } := by
  have chain : r.chain = { r with path := frame' :: path, loop }.chain := by
    simp only [Resolution.chain, inProgress, List.map_cons, same]
  exact ⟨consistent.queued, chain ▸ consistent.known, chain ▸ consistent.distinct,
    chain ▸ consistent.apart, gathered, consistent.exact, consistent.ordered⟩

theorem Consistent.begin {id : CandidateId} {record : CandidateRecord}
    {queue : List (CandidateId × CandidateRecord)} (consistent : Consistent deprecated r)
    (running : r.loop = none) (atTop : r.path = []) (left : r.queue = (id, record) :: queue)
    (unknown : id ∉ r.resolved.keys) :
    Consistent deprecated ({ r with queue }.enter id record) := by
  have queued := consistent.queued
  rw [left] at queued
  have found : deprecated.get? id = some record := queued (id, record) List.mem_cons_self
  refine ⟨fun entry later => queued entry (List.mem_cons_of_mem _ later), fun other retired => ?_,
    ?_, ?_, ?_, consistent.exact, consistent.ordered⟩
  · rcases consistent.known other retired with waits | resolved | open_
    · rw [left, List.map_cons, List.mem_cons] at waits
      rcases waits with rfl | later
      · exact Or.inr (Or.inr List.mem_cons_self)
      · exact Or.inl later
    · exact Or.inr (Or.inl resolved)
    · exact Or.inr (Or.inr (List.mem_cons_of_mem id open_))
  · simp [enter, chain, atTop]
  · simpa [enter, chain, atTop] using unknown
  · simp only [enter, running, atTop, Option.bind_none]
    exact Gathered.nil.enter found

theorem Consistent.follow {frame : Redirect} {path : List Redirect} {id : CandidateId}
    {pending : List CandidateId} {record : CandidateRecord} (consistent : Consistent deprecated r)
    (running : r.loop = none) (inProgress : r.path = frame :: path)
    (left : frame.pending = id :: pending) (unknown : r.resolved.get? id = none)
    (fresh : id ∉ r.chain) (found : deprecated.get? id = some record) :
    Consistent deprecated ({ r with path := { frame with pending } :: path }.enter id record) := by
  have chain : ({ r with path := { frame with pending } :: path }.enter id record).chain =
      id :: r.chain := by
    simp only [enter, Resolution.chain, inProgress, List.map_cons]
  refine ⟨consistent.queued, fun other retired => ?_, ?_, ?_, ?_, consistent.exact,
    consistent.ordered⟩
  · rw [chain]
    exact (consistent.known other retired).imp_right (Or.imp_right (List.mem_cons_of_mem id))
  · rw [chain]
    exact List.nodup_cons.mpr ⟨fresh, consistent.distinct⟩
  · rw [chain]
    intro other waits
    rcases List.mem_cons.mp waits with rfl | waits
    · exact IdMap.get?_eq_none_iff.mp unknown
    · exact consistent.apart other waits
  · have gathered := consistent.gathered
    simp only [running, inProgress, Option.bind_none] at gathered
    simp only [enter, running, Option.bind_none]
    exact (gathered.next left).enter found

theorem Gathered.handBack {id : CandidateId} {set : IdSet} {path : List Redirect}
    (found : resolved.get? id = some set)
    (gathered : Gathered deprecated resolved (some id) path) :
    Gathered deprecated resolved none (handBack set path) := by
  cases path with
  | nil => exact .nil
  | cons frame path =>
    have settled : Settled deprecated resolved id := fun _ => IdMap.mem_keys_of_get? found
    have given := gathered.settle settled
    rwa [standsFor_of_get? found] at given

theorem Consistent.finish {frame : Redirect} {path : List Redirect}
    (consistent : Consistent deprecated r) (running : r.loop = none)
    (inProgress : r.path = frame :: path) (done : frame.pending = []) :
    Consistent deprecated
      { r with
        resolved := r.resolved.insert frame.id frame.standsFor
        path := handBack frame.standsFor path } := by
  have gathered := consistent.gathered
  simp only [running, inProgress, Option.bind_none] at gathered
  obtain ⟨record, found, settled, given, outer⟩ := gathered.finish done
  have open_ : r.chain = frame.id :: path.map Redirect.id := by
    simp only [chain, inProgress, List.map_cons]
  have retired : frame.id ∈ deprecated.keys := IdMap.mem_keys_of_get? found
  have unknown : frame.id ∉ r.resolved.keys :=
    consistent.apart _ (open_ ▸ List.mem_cons_self)
  have distinct := consistent.distinct
  rw [open_, List.nodup_cons] at distinct
  refine ⟨consistent.queued, fun other member => ?_, ?_, fun other waits => ?_, ?_,
    fun other set resolved => ?_, ?_⟩
  · simp only [chain, map_id_handBack, IdMap.mem_keys_insert]
    rcases consistent.known other member with waits | resolved | waits
    · exact Or.inl waits
    · exact Or.inr (Or.inl (Or.inl resolved))
    · rw [open_, List.mem_cons] at waits
      exact Or.inr (waits.imp_left Or.inr)
  · simpa only [chain, map_id_handBack] using distinct.2
  · simp only [chain, map_id_handBack] at waits
    rw [IdMap.mem_keys_insert]
    rintro (resolved | rfl)
    · exact consistent.apart other (open_ ▸ List.mem_cons_of_mem _ waits) resolved
    · exact distinct.1 waits
  · simp only [running, Option.bind_none]
    exact (outer.insert _ retired unknown).handBack (IdMap.get?_insert_self ..)
  · -- The stored sets are made of settled ids only, so the new entry leaves them as they are.
    by_cases same : other = frame.id
    · subst same
      obtain rfl : frame.standsFor = set := by simpa using resolved
      refine ⟨record, found, fun other member => (settled other member).insert _, ?_⟩
      rwa [flatMap_standsFor_insert _ retired unknown settled]
    · rw [IdMap.get?_insert_of_ne _ _ same] at resolved
      obtain ⟨record, found, settled, rfl⟩ := consistent.exact other set resolved
      refine ⟨record, found, fun other member => (settled other member).insert _, ?_⟩
      rw [flatMap_standsFor_insert _ retired unknown settled]
  · rw [IdMap.keys_insert, if_neg unknown]
    refine consistent.ordered.concat ?_
    rintro other ⟨⟨record', found', member⟩, retired'⟩
    obtain rfl : record = record' := Option.some.inj (found.symm.trans found')
    exact settled other member retired'

theorem Consistent.move (consistent : Consistent deprecated r) (running : r.loop = none)
    (move : Move deprecated r s) : Consistent deprecated s := by
  have gathered := consistent.gathered
  simp only [running, Option.bind_none] at gathered
  cases move with
  | @skip id record queue atTop left known =>
    refine ⟨fun entry later => consistent.queued entry (left ▸ List.mem_cons_of_mem _ later),
      fun other retired => ?_, consistent.distinct, consistent.apart, consistent.gathered,
      consistent.exact, consistent.ordered⟩
    rcases consistent.known other retired with waits | resolved
    · rw [left, List.map_cons, List.mem_cons] at waits
      rcases waits with rfl | later
      · exact Or.inr (Or.inl known)
      · exact Or.inl later
    · exact Or.inr resolved
  | begin atTop left unknown => exact consistent.begin running atTop left unknown
  | finish inProgress done => exact consistent.finish running inProgress done
  | reuse inProgress left found =>
    rw [inProgress] at gathered
    have settled := (gathered.next left).settle fun _ => IdMap.mem_keys_of_get? found
    rw [standsFor_of_get? found] at settled
    exact consistent.look inProgress rfl (by rw [running]; exact settled)
  | close inProgress left met =>
    rw [inProgress] at gathered
    exact consistent.look inProgress rfl (gathered.next left)
  | @keep _ _ id _ inProgress left unknown live =>
    rw [inProgress] at gathered
    have settled := (gathered.next left).settle fun retired =>
      absurd retired (IdMap.get?_eq_none_iff.mp live)
    rw [standsFor_of_not_mem (IdMap.get?_eq_none_iff.mp unknown)] at settled
    exact consistent.look inProgress rfl (by rw [running]; exact settled)
  | follow inProgress left unknown fresh found =>
    exact consistent.follow running inProgress left unknown fresh found

theorem consistent_of_steps (steps : Process.Steps (step deprecated) (start deprecated) r) :
    Consistent deprecated r :=
  steps.invariant (Consistent deprecated)
    (fun _ _ consistent taken => consistent.move (move_of_step taken).1 (move_of_step taken).2)
    consistent_start

/-! ### The end of a resolution -/

/-- What each retired id stands for, once all of them are resolved. -/
structure Complete (deprecated : IdMap CandidateRecord) (replacements : IdMap IdSet) : Prop where
  -- Only retired ids have a set.
  live : ∀ id, deprecated.get? id = none → replacements.get? id = none
  -- A retired id stands for what its replacements stand for.
  retired : ∀ id record, deprecated.get? id = some record → replacements.get? id =
    some (IdSet.ofList (record.replacements.toList.flatMap (standsFor replacements)))
  -- Replacements lead only finitely far.
  finite : WellFounded fun other id => Replaces deprecated id other

/-- Once all retired ids are resolved, the order in which they were shows that replacements lead
only finitely far. -/
theorem Consistent.wellFounded (consistent : Consistent deprecated r)
    (all : ∀ id ∈ deprecated.keys, id ∈ r.resolved.keys) :
    WellFounded fun other id => Replaces deprecated id other := by
  -- An id that is not retired has no replacements, so the induction is on the retired ones only.
  have live : ∀ id, id ∉ deprecated.keys → Acc (fun other id => Replaces deprecated id other) id := by
    refine fun id unknown => ⟨id, ?_⟩
    rintro other ⟨record, found, -⟩
    exact absurd (IdMap.mem_keys_of_get? found) unknown
  refine ⟨fun id => ?_⟩
  by_cases retired : id ∈ deprecated.keys
  · have finite := consistent.ordered.acc (all id retired)
    clear retired
    induction finite with
    | intro id _ ih =>
      refine ⟨id, fun other replaces => ?_⟩
      by_cases retired : other ∈ deprecated.keys
      · exact ih other ⟨replaces, retired⟩
      · exact live other retired
  · exact live id retired

theorem complete_of_resolveReplacements {replacements : IdMap IdSet}
    (returned : resolveReplacements deprecated = .ok replacements) :
    Complete deprecated replacements := by
  simp only [resolveReplacements] at returned
  split at returned
  · cases returned
  next noLoop =>
    cases returned
    obtain ⟨steps, final⟩ := Process.steps_run (halts deprecated)
    obtain ⟨atTop, left⟩ := ended_of_step_eq_none final noLoop
    have consistent := consistent_of_steps steps
    -- The queue and the chain are empty, so every retired id has got its set.
    have all : ∀ id ∈ deprecated.keys, id ∈ (run deprecated).resolved.keys := by
      intro id member
      rcases consistent.known id member with waits | resolved | open_
      · rw [left] at waits
        cases waits
      · exact resolved
      · rw [chain, atTop] at open_
        cases open_
    refine ⟨fun id absent => ?_, fun id record found => ?_, consistent.wellFounded all⟩
    · rw [IdMap.get?_eq_none_iff]
      intro resolved
      obtain ⟨set, known⟩ := IdMap.mem_keys_iff.mp resolved
      obtain ⟨record, found, -⟩ := consistent.exact id set known
      rw [absent] at found
      cases found
    · obtain ⟨set, known⟩ := IdMap.mem_keys_iff.mp (all id (IdMap.mem_keys_of_get? found))
      obtain ⟨record', found', -, rfl⟩ := consistent.exact id set known
      obtain rfl : record = record' := Option.some.inj (found.symm.trans found')
      exact known

end Activation.Resolution
