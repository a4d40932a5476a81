import Activation.Candidate.IdMap
import Activation.Event
import Activation.Process
import Activation.Source.Basic

/-!
# The walk over a source

The walk starts from the ids that a caller asks for and collects every id that matters for their
order, depth first: the ids that an available candidate's edges name, and the replacements of a
retired candidate. Ids that are asked for, directly or through a retired id, are *primary*; ids that
are only named by edges are *inherited*. An id that was reached as inherited and is asked for later
is *promoted*.

The walk is a process whose state holds the path of visits in progress, so that what holds at each
moment of it can be said. `Walk.halts_of_finite` shows that it comes to an end on every source that
knows only finitely many ids.
-/

namespace Activation

/-- A visit or promotion in progress, and the ids it has yet to visit. -/
structure Frame where
  id : CandidateId
  /-- Whether the id is visited as primary or promoted, and not only inherited. -/
  primary : Bool
  pending : List CandidateId
  /-- Whether the pending ids are visited as primary. -/
  passesPrimary : Bool

/-- A moment of the walk. -/
structure Walk where
  /-- Requested ids that are still to be visited. -/
  requested : List CandidateId
  /-- The visits in progress, the innermost first. -/
  path : List Frame := []
  /-- The ids whose record was asked for, in the order of asking. -/
  visited : IdSet := ∅
  /-- The ids that were visited as primary. -/
  promoted : IdSet := ∅
  /-- The records of ids that take part in the ordering. -/
  records : IdMap CandidateRecord := ∅
  /-- The records of retired ids. -/
  deprecated : IdMap CandidateRecord := ∅
  /-- The primary ids. -/
  primary : IdSet := ∅
  events : List Event := []

namespace Walk

def start (requested : List CandidateId) : Walk := { requested }

/-- Makes an id primary that was visited before. What a retired id stands for is visited again. -/
def promote (w : Walk) (id : CandidateId) : Walk :=
  if w.records.contains id then { w with primary := w.primary.insert id }
  else
    match w.deprecated.get? id with
    | none => w
    | some record =>
      { w with
        path := ⟨id, true, record.replacements.toList, true⟩ :: w.path }

/-- The primary ids once an id of the working set was visited. -/
def primaryWith (w : Walk) (id : CandidateId) (primary : Bool) : IdSet :=
  if primary then w.primary.insert id else w.primary

/-- Files the record of an id that is visited for the first time, and starts on what it names. -/
def file (w : Walk) (id : CandidateId) (record : CandidateRecord) (primary : Bool) : Walk :=
  if record.isDeprecated then
    { w with
      deprecated := w.deprecated.insert id record
      events := w.events ++ [.deprecatedCandidateRedirected id record.replacements.toList]
      path := ⟨id, primary, record.replacements.toList, primary⟩ :: w.path }
  else if record.available then
    { w with
      primary := w.primaryWith id primary
      records := w.records.insert id record
      path := ⟨id, primary, record.edges, false⟩ :: w.path }
  else
    { w with
      primary := w.primaryWith id primary
      records := w.records.insert id record
      events := w.events ++ [.candidateUnavailable id primary] }

/-- Visits an id, as primary or as inherited. Only the first visit asks for its record. -/
def visit (source : Source) (w : Walk) (id : CandidateId) (primary : Bool) : Walk :=
  if primary ∧ id ∈ w.promoted then w
  else
    let w := if primary then { w with promoted := w.promoted.insert id } else w
    if id ∈ w.visited then
      if primary then w.promote id else w
    else { w with visited := w.visited.insert id }.file id (source.record id) primary

/-- Turns to the next id: of the innermost visit, or of the request when none is in progress. -/
def step (source : Source) (w : Walk) : Option Walk :=
  match w.path with
  | [] =>
    match w.requested with
    | [] => none
    | id :: requested => some (visit source { w with requested } id true)
  | frame :: path =>
    match frame.pending with
    | [] => some { w with path }
    | id :: pending =>
      some (visit source { w with path := { frame with pending } :: path } id frame.passesPrimary)

end Walk

/-- The walk from these ids over this source comes to an end. -/
def Source.Explorable (source : Source) (ids : List CandidateId) : Prop :=
  Process.Halts (Walk.step source) (Walk.start ids)

namespace Walk

def run (source : Source) (ids : List CandidateId) (explorable : source.Explorable ids) : Walk :=
  Process.run (step source) (start ids) explorable

/-! ### Halting

Fix a pool that holds every requested id and every id that its ids make the walk go on to. All ids
that the walk meets come from the pool, and each visit that starts something new takes one of them
out of the unvisited or the unpromoted ones. -/

/-- A pool holds all that its ids make the walk go on to. -/
def ClosedUnder (source : Source) (pool : List CandidateId) : Prop :=
  ∀ id ∈ pool, (∀ other ∈ (source.record id).replacements, other ∈ pool) ∧
    ((source.record id).isDeprecated = false → (source.record id).available = true →
      ∀ other ∈ (source.record id).edges, other ∈ pool)

/-- All ids that a moment of the walk has yet to visit come from a pool. -/
private structure Within (pool : List CandidateId) (w : Walk) : Prop where
  requested : ∀ id ∈ w.requested, id ∈ pool
  path : ∀ frame ∈ w.path, ∀ id ∈ frame.pending, id ∈ pool
  deprecated : ∀ id record, w.deprecated.get? id = some record →
    ∀ other ∈ record.replacements, other ∈ pool

/-- How many ids of the pool are still unvisited, and how many unpromoted. -/
private def untouched (pool : List CandidateId) (w : Walk) : Nat :=
  pool.countP (fun id => decide (id ∉ w.visited)) +
    pool.countP (fun id => decide (id ∉ w.promoted))

/-- How much is left to do with the visits in progress. -/
private def outstanding (w : Walk) : Nat :=
  w.requested.length + (w.path.flatMap fun frame => frame.id :: frame.pending).length

private theorem countP_insert_lt {pool : List CandidateId} {s : IdSet} {id : CandidateId}
    (member : id ∈ pool) (fresh : id ∉ s) :
    pool.countP (fun other => decide (other ∉ s.insert id)) <
      pool.countP (fun other => decide (other ∉ s)) := by
  apply Process.countP_lt_countP (a := id) _ member
  · simpa using fresh
  · simp
  · intro other
    simp only [IdSet.mem_insert, not_or, decide_eq_true_eq]
    exact And.left

private theorem promote_within {pool : List CandidateId} {w : Walk} (within : Within pool w)
    (id : CandidateId) : Within pool (w.promote id) := by
  unfold promote
  split
  · exact ⟨within.requested, within.path, within.deprecated⟩
  · split
    · exact within
    next record found =>
      refine ⟨within.requested, ?_, within.deprecated⟩
      intro frame member
      rcases List.mem_cons.mp member with rfl | member
      · exact within.deprecated id record found
      · exact within.path frame member

private theorem file_within {source : Source} {pool : List CandidateId} {w : Walk}
    (closed : ClosedUnder source pool) (within : Within pool w) {id : CandidateId}
    (pooled : id ∈ pool) (primary : Bool) :
    Within pool (w.file id (source.record id) primary) := by
  obtain ⟨replacements, edges⟩ := closed id pooled
  unfold file
  split
  · refine ⟨within.requested, ?_, ?_⟩
    · intro frame member
      rcases List.mem_cons.mp member with rfl | member
      · exact replacements
      · exact within.path frame member
    · intro other record found
      rw [IdMap.get?_insert] at found
      split at found
      · cases found
        exact replacements
      · exact within.deprecated other record found
  next live =>
    split
    next available =>
      refine ⟨within.requested, ?_, within.deprecated⟩
      intro frame member
      rcases List.mem_cons.mp member with rfl | member
      · exact edges (Bool.not_eq_true _ ▸ live) available
      · exact within.path frame member
    · exact ⟨within.requested, within.path, within.deprecated⟩

private theorem untouched_promote (pool : List CandidateId) (w : Walk) (id : CandidateId) :
    untouched pool (w.promote id) = untouched pool w := by
  unfold promote
  split
  · rfl
  · split <;> rfl

private theorem untouched_file (pool : List CandidateId) (w : Walk) (id : CandidateId)
    (record : CandidateRecord) (primary : Bool) :
    untouched pool (w.file id record primary) = untouched pool w := by
  unfold file
  split
  · rfl
  · split <;> rfl

/-- A visit stays within the pool, and it changes nothing or touches an id for the first time. -/
private theorem visit_progress {source : Source} {pool : List CandidateId} {w : Walk}
    (closed : ClosedUnder source pool) (within : Within pool w) {id : CandidateId}
    (member : id ∈ pool) (primary : Bool) :
    Within pool (visit source w id primary) ∧
      (visit source w id primary = w ∨
        untouched pool (visit source w id primary) < untouched pool w) := by
  cases primary with
  | false =>
    simp only [visit, Bool.false_eq_true, false_and, if_false]
    split
    · exact ⟨within, Or.inl rfl⟩
    next fresh =>
      refine ⟨file_within closed ?_ member false, Or.inr ?_⟩
      · exact ⟨within.requested, within.path, within.deprecated⟩
      rw [untouched_file]
      have fewer := countP_insert_lt member fresh
      simp only [untouched]
      omega
  | true =>
    simp only [visit, true_and, if_true]
    split
    · exact ⟨within, Or.inl rfl⟩
    next fresh =>
      have fewer := countP_insert_lt member fresh
      split
      · refine ⟨promote_within ?_ id, Or.inr ?_⟩
        · exact ⟨within.requested, within.path, within.deprecated⟩
        rw [untouched_promote]
        simp only [untouched]
        omega
      next unvisited =>
        refine ⟨file_within closed ?_ member true, Or.inr ?_⟩
        · exact ⟨within.requested, within.path, within.deprecated⟩
        rw [untouched_file]
        have fewer' := countP_insert_lt member unvisited
        simp only [untouched]
        omega

/-- Where less is left to do, a visit is progress, be there anything new about the id or not. -/
private theorem progress_of_visit {source : Source} {pool : List CandidateId} {w less : Walk}
    (closed : ClosedUnder source pool) (within : Within pool less) {id : CandidateId}
    (member : id ∈ pool) (primary : Bool) (same : untouched pool less = untouched pool w)
    (lower : outstanding less < outstanding w) :
    Within pool (visit source less id primary) ∧
      (untouched pool (visit source less id primary) < untouched pool w ∨
        (untouched pool (visit source less id primary) = untouched pool w ∧
          outstanding (visit source less id primary) < outstanding w)) := by
  obtain ⟨kept, unchanged | fewer⟩ := visit_progress closed within member primary
  · rw [unchanged]
    exact ⟨within, Or.inr ⟨same, lower⟩⟩
  · exact ⟨kept, Or.inl (same ▸ fewer)⟩

private theorem step_progress {source : Source} {pool : List CandidateId} {w w' : Walk}
    (closed : ClosedUnder source pool) (within : Within pool w) (taken : step source w = some w') :
    Within pool w' ∧ (untouched pool w' < untouched pool w ∨
      (untouched pool w' = untouched pool w ∧ outstanding w' < outstanding w)) := by
  unfold step at taken
  split at taken
  next atTop =>
    split at taken
    · cases taken
    next id rest left =>
      cases taken
      have smaller : Within pool { w with requested := rest } :=
        ⟨fun other later => within.requested other (by simp [left, later]), within.path,
          within.deprecated⟩
      have lower : outstanding { w with requested := rest } < outstanding w := by
        simp [outstanding, left]
      exact progress_of_visit closed smaller (within.requested id (by simp [left])) true rfl lower
  next frame path inProgress =>
    have inPath : ∀ other ∈ path, other ∈ w.path := fun other later => by
      simp [inProgress, later]
    split at taken
    next done =>
      cases taken
      refine ⟨⟨within.requested, fun other later => within.path other (inPath other later),
        within.deprecated⟩, Or.inr ⟨rfl, ?_⟩⟩
      simp only [outstanding, inProgress, List.flatMap_cons, List.length_append, List.length_cons]
      omega
    next id rest left =>
      cases taken
      have pooled := within.path frame (by simp [inProgress])
      have smaller : Within pool { w with path := { frame with pending := rest } :: path } := by
        refine ⟨within.requested, ?_, within.deprecated⟩
        intro other later
        rcases List.mem_cons.mp later with rfl | later
        · exact fun other still => pooled other (by simp [left, still])
        · exact within.path other (inPath other later)
      have lower : outstanding { w with path := { frame with pending := rest } :: path } <
          outstanding w := by
        simp only [outstanding, inProgress, left, List.flatMap_cons, List.length_append,
          List.length_cons]
        omega
      exact progress_of_visit closed smaller (pooled id (by simp [left])) frame.passesPrimary rfl
        lower

/-- The walk comes to an end where the requested ids and all that they make it go on to come from
one finite pool. -/
theorem halts_of_closed {source : Source} (pool : List CandidateId) {ids : List CandidateId}
    (closed : ClosedUnder source pool) (requested : ∀ id ∈ ids, id ∈ pool) :
    source.Explorable ids := by
  have initial : Within pool (start ids) := by
    constructor
    · exact requested
    · simp [start]
    · simp [start]
  exact Process.Halts.of_measure (Within pool) (untouched pool) outstanding
    (fun _ _ within taken => (step_progress closed within taken).1)
    (fun _ _ within taken => (step_progress closed within taken).2) initial

/-- The walk comes to an end on every source that knows only finitely many ids. -/
theorem halts_of_finite {source : Source} (finite : source.Finite) (ids : List CandidateId) :
    source.Explorable ids := by
  obtain ⟨known, unknown⟩ := finite
  let named (id : CandidateId) : List CandidateId :=
    (source.record id).replacements.toList ++ (source.record id).edges
  refine halts_of_closed (ids ++ known.flatMap named) ?_ fun id member => by simp [member]
  intro id _
  by_cases present : id ∈ known
  · refine ⟨fun other member => ?_, fun _ _ other member => ?_⟩
    · refine List.mem_append_right _ (List.mem_flatMap.mpr ⟨id, present, ?_⟩)
      exact List.mem_append_left _ member
    · refine List.mem_append_right _ (List.mem_flatMap.mpr ⟨id, present, ?_⟩)
      exact List.mem_append_right _ member
  · obtain ⟨absent, none⟩ := unknown id present
    refine ⟨fun other member => ?_, fun _ available => ?_⟩
    · rw [none] at member
      exact absurd member (IdSet.not_mem_empty other)
    · rw [absent] at available
      cases available

end Walk

end Activation
