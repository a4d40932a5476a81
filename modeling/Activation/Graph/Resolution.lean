import Activation.Candidate.IdMap
import Activation.Candidate.Record
import Activation.Process

/-!
# What retired ids stand for

A retired id stands for its replacements, a replacement that is itself retired for its own
replacements, and so on, until no retired id is left. The resolution works through the retired ids
in their order, keeps what each one stands for once it is known, and stops at a loop: a retired id
that is met again while it is being resolved.

The resolution is a process whose state holds the chain of ids being resolved; `Resolution.Move`
lists what a step of it can do. It halts on every map of retired records (`Resolution.halts`),
because an id enters the chain at most once.
-/

namespace Activation

/-- A retired id being resolved: what it stands for so far, and the replacements still to look
at. -/
structure Redirect where
  id : CandidateId
  standsFor : IdSet
  pending : List CandidateId

/-- A moment of the resolution. -/
structure Resolution where
  /-- Retired records that are still to be resolved. -/
  queue : List (CandidateId × CandidateRecord)
  /-- The ids being resolved, the innermost first. -/
  path : List Redirect := []
  /-- What the ids resolved so far stand for. -/
  resolved : IdMap IdSet := ∅
  /-- A loop of replacements, its first id repeated at the end. -/
  loop : Option (List CandidateId) := none

namespace Resolution

def chain (r : Resolution) : List CandidateId := r.path.map Redirect.id

/-- The moment before the first record is looked at. -/
def start (deprecated : IdMap CandidateRecord) : Resolution := { queue := deprecated.entries }

def enter (r : Resolution) (id : CandidateId) (record : CandidateRecord) : Resolution :=
  { r with path := ⟨id, ∅, record.replacements.toList⟩ :: r.path }

/-- The loop that closes when an id of the chain is met again. -/
def loopAt (chain : List CandidateId) (id : CandidateId) : List CandidateId :=
  id :: ((chain.takeWhile (· != id)).reverse ++ [id])

/-- Adds what a finished id stands for to the id that asked for it. -/
def handBack (standsFor : IdSet) : List Redirect → List Redirect
  | [] => []
  | frame :: path => { frame with standsFor := frame.standsFor.insertAll standsFor.toList } :: path

/-- Looks at the next replacement of the innermost id, finishes that id when none is left, or turns
to the next record of the queue when no id is being resolved. -/
def step (deprecated : IdMap CandidateRecord) (r : Resolution) : Option Resolution :=
  match r.loop, r.path with
  | some _, _ => none
  | none, [] =>
    match r.queue with
    | [] => none
    | (id, record) :: queue =>
      if r.resolved.contains id then some { r with queue }
      else some ({ r with queue }.enter id record)
  | none, frame :: path =>
    match frame.pending with
    | [] =>
      some { r with
        resolved := r.resolved.insert frame.id frame.standsFor
        path := handBack frame.standsFor path }
    | id :: pending =>
      match r.resolved.get? id with
      | some known =>
        some { r with
          path :=
            { frame with pending, standsFor := frame.standsFor.insertAll known.toList } :: path }
      | none =>
        if id ∈ r.chain then
          some { r with
            path := { frame with pending } :: path
            loop := some (loopAt r.chain id) }
        else
          match deprecated.get? id with
          | none =>
            some { r with
              path := { frame with pending, standsFor := frame.standsFor.insert id } :: path }
          | some record =>
            some ({ r with path := { frame with pending } :: path }.enter id record)

variable {deprecated : IdMap CandidateRecord} {r s : Resolution}

/-! ### Steps -/

/-- Everything that one step of a resolution can do. -/
inductive Move (deprecated : IdMap CandidateRecord) (r : Resolution) : Resolution → Prop
  -- The next id of the queue is resolved already.
  | skip {id : CandidateId} {record : CandidateRecord} {queue : List (CandidateId × CandidateRecord)}
      (atTop : r.path = []) (left : r.queue = (id, record) :: queue)
      (known : id ∈ r.resolved.keys) : Move deprecated r { r with queue }
  -- The next id of the queue is entered.
  | begin {id : CandidateId} {record : CandidateRecord}
      {queue : List (CandidateId × CandidateRecord)} (atTop : r.path = [])
      (left : r.queue = (id, record) :: queue) (unknown : id ∉ r.resolved.keys) :
      Move deprecated r ({ r with queue }.enter id record)
  -- The innermost id has no replacement left.
  | finish {frame : Redirect} {path : List Redirect} (inProgress : r.path = frame :: path)
      (done : frame.pending = []) :
      Move deprecated r
        { r with
          resolved := r.resolved.insert frame.id frame.standsFor
          path := handBack frame.standsFor path }
  -- The next replacement is resolved already.
  | reuse {frame : Redirect} {path : List Redirect} {id : CandidateId}
      {pending : List CandidateId} {known : IdSet} (inProgress : r.path = frame :: path)
      (left : frame.pending = id :: pending) (found : r.resolved.get? id = some known) :
      Move deprecated r
        { r with
          path :=
            { frame with pending, standsFor := frame.standsFor.insertAll known.toList } :: path }
  -- The next replacement is being resolved itself.
  | close {frame : Redirect} {path : List Redirect} {id : CandidateId}
      {pending : List CandidateId} (inProgress : r.path = frame :: path)
      (left : frame.pending = id :: pending) (met : id ∈ r.chain) :
      Move deprecated r
        { r with path := { frame with pending } :: path, loop := some (loopAt r.chain id) }
  -- The next replacement is not retired.
  | keep {frame : Redirect} {path : List Redirect} {id : CandidateId}
      {pending : List CandidateId} (inProgress : r.path = frame :: path)
      (left : frame.pending = id :: pending) (unknown : r.resolved.get? id = none)
      (live : deprecated.get? id = none) :
      Move deprecated r
        { r with path := { frame with pending, standsFor := frame.standsFor.insert id } :: path }
  -- The next replacement is retired and is entered.
  | follow {frame : Redirect} {path : List Redirect} {id : CandidateId}
      {pending : List CandidateId} {record : CandidateRecord} (inProgress : r.path = frame :: path)
      (left : frame.pending = id :: pending) (unknown : r.resolved.get? id = none)
      (fresh : id ∉ r.chain) (found : deprecated.get? id = some record) :
      Move deprecated r ({ r with path := { frame with pending } :: path }.enter id record)

theorem move_of_step (taken : step deprecated r = some s) : r.loop = none ∧ Move deprecated r s := by
  unfold step at taken
  split at taken
  · cases taken
  next running atTop =>
    refine ⟨running, ?_⟩
    split at taken
    · cases taken
    next id record queue left =>
      split at taken
      next known => cases taken; exact .skip atTop left (IdMap.contains_iff.mp known)
      next unknown =>
        cases taken
        exact .begin atTop left fun known => unknown (IdMap.contains_iff.mpr known)
  next frame path running inProgress =>
    refine ⟨running, ?_⟩
    split at taken
    next done => cases taken; exact .finish inProgress done
    next id pending left =>
      split at taken
      next known found => cases taken; exact .reuse inProgress left found
      next unknown =>
        split at taken
        next met => cases taken; exact .close inProgress left met
        next fresh =>
          split at taken
          next live => cases taken; exact .keep inProgress left unknown live
          next record found => cases taken; exact .follow inProgress left unknown fresh found

/-! ### Halting -/

private def Queued (deprecated : IdMap CandidateRecord) (r : Resolution) : Prop :=
  ∀ entry ∈ r.queue, entry ∈ deprecated.entries

/-- How many retired ids are neither resolved nor being resolved. -/
private def untouched (deprecated : IdMap CandidateRecord) (r : Resolution) : Nat :=
  deprecated.keys.countP fun id => decide (id ∉ r.resolved.keys ∧ id ∉ r.chain)

/-- How much is left to do with the ids being resolved. -/
private def outstanding (r : Resolution) : Nat :=
  r.queue.length + (r.path.flatMap fun frame => frame.id :: frame.pending).length

private theorem flatMap_handBack (standsFor : IdSet) (path : List Redirect) :
    ((handBack standsFor path).flatMap fun frame => frame.id :: frame.pending) =
      path.flatMap fun frame => frame.id :: frame.pending := by
  cases path <;> rfl

theorem map_id_handBack (standsFor : IdSet) (path : List Redirect) :
    (handBack standsFor path).map Redirect.id = path.map Redirect.id := by
  cases path <;> rfl

private theorem untouched_enter {id : CandidateId} (record : CandidateRecord)
    (retired : id ∈ deprecated.keys) (unresolved : id ∉ r.resolved.keys) (fresh : id ∉ r.chain) :
    untouched deprecated (r.enter id record) < untouched deprecated r := by
  apply Process.countP_lt_countP (a := id) _ retired
  · simp [unresolved, fresh]
  · simp [enter, chain]
  · intro other left
    have left := of_decide_eq_true left
    exact decide_eq_true ⟨left.1, fun met => left.2 (List.mem_cons_of_mem id met)⟩

section

variable {frame : Redirect} {path : List Redirect} {id : CandidateId} {pending : List CandidateId}

/-- To look at a replacement changes nothing about the ids that are in progress. -/
private theorem untouched_look (inProgress : r.path = frame :: path) (pending : List CandidateId)
    (standsFor : IdSet) :
    untouched deprecated { r with path := { frame with pending, standsFor } :: path } =
      untouched deprecated r := by
  simp only [untouched, chain, inProgress, List.map_cons]

private theorem outstanding_look (inProgress : r.path = frame :: path)
    (left : frame.pending = id :: pending) (standsFor : IdSet) :
    outstanding { r with path := { frame with pending, standsFor } :: path } < outstanding r := by
  simp only [outstanding, inProgress, left, List.flatMap_cons, List.length_append,
    List.length_cons]
  omega

/-- An id that is finished has moved from the ids in progress to the resolved ones. -/
private theorem untouched_finish (inProgress : r.path = frame :: path) :
    untouched deprecated
        { r with
          resolved := r.resolved.insert frame.id frame.standsFor
          path := handBack frame.standsFor path } =
      untouched deprecated r := by
  apply congrFun (congrArg List.countP _)
  funext id
  simp only [chain, map_id_handBack, inProgress, List.map_cons, List.mem_cons, not_or,
    IdMap.mem_keys_insert]
  grind

private theorem Queued.rest {entry : CandidateId × CandidateRecord}
    {queue : List (CandidateId × CandidateRecord)} (queued : Queued deprecated r)
    (left : r.queue = entry :: queue) : ∀ other ∈ queue, other ∈ deprecated.entries :=
  fun other later => queued other (left ▸ List.mem_cons_of_mem entry later)

end

private theorem step_progress (queued : Queued deprecated r) (taken : step deprecated r = some s) :
    Queued deprecated s ∧ (untouched deprecated s < untouched deprecated r ∨
      (untouched deprecated s = untouched deprecated r ∧ outstanding s < outstanding r)) := by
  cases (move_of_step taken).2 with
  | skip atTop left known =>
    refine ⟨queued.rest left, Or.inr ⟨rfl, ?_⟩⟩
    simp [outstanding, left]
  | @begin id record queue atTop left unknown =>
    have retired : (id, record) ∈ deprecated.entries := queued _ (by simp [left])
    have key := IdMap.mem_keys_of_get? (IdMap.get?_eq_some_iff.mpr retired)
    refine ⟨queued.rest left, Or.inl ?_⟩
    exact untouched_enter (r := { r with queue }) record key unknown (by simp [chain, atTop])
  | finish inProgress done =>
    refine ⟨queued, Or.inr ⟨untouched_finish inProgress, ?_⟩⟩
    simp only [outstanding, flatMap_handBack, inProgress, List.flatMap_cons, List.length_append,
      List.length_cons]
    omega
  | reuse inProgress left found =>
    exact ⟨queued, Or.inr ⟨untouched_look inProgress _ _, outstanding_look inProgress left _⟩⟩
  | @close frame _ _ _ inProgress left met =>
    exact ⟨queued, Or.inr ⟨untouched_look inProgress _ frame.standsFor,
      outstanding_look inProgress left frame.standsFor⟩⟩
  | keep inProgress left unknown live =>
    exact ⟨queued, Or.inr ⟨untouched_look inProgress _ _, outstanding_look inProgress left _⟩⟩
  | @follow frame path id pending record inProgress left unknown fresh found =>
    refine ⟨queued, Or.inl ?_⟩
    rw [← untouched_look inProgress pending frame.standsFor]
    apply untouched_enter (r := { r with path := { frame with pending } :: path }) record
      (IdMap.mem_keys_of_get? found) (IdMap.get?_eq_none_iff.mp unknown)
    simpa only [chain, inProgress, List.map_cons] using fresh

/-- The resolution of finitely many retired records comes to an end, whatever they name. -/
theorem halts (deprecated : IdMap CandidateRecord) :
    Process.Halts (step deprecated) (start deprecated) :=
  Process.Halts.of_measure (Queued deprecated) (untouched deprecated) outstanding
    (fun _ _ queued taken => (step_progress queued taken).1)
    (fun _ _ queued taken => (step_progress queued taken).2) fun _ member => member

def run (deprecated : IdMap CandidateRecord) : Resolution :=
  Process.run (step deprecated) (start deprecated) (halts deprecated)

end Resolution

/-- What each retired id stands for, or a loop of replacements. -/
def resolveReplacements (deprecated : IdMap CandidateRecord) :
    Except (List CandidateId) (IdMap IdSet) :=
  let final := Resolution.run deprecated
  match final.loop with
  | some loop => .error loop
  | none => .ok final.resolved

end Activation
