import Activation.Graph.Basic
import Activation.Proofs.FirstOccurrences
import Activation.Proofs.Resolution

/-!
# The constraints of a graph

`CandidateGraph.constrain` collects the ids that must precede an id in one map, with three passes
over the records. `mem_requestedAfter_constrain` says what the map holds in the end: what the `after`
set of the id names, the ids whose `before` set names it, and what the retired ids stand for whose
`before` set names it. All sets are taken redirected, and `redirect_eq_ofList` says what that means.
-/

namespace Activation

open Resolution (standsFor)

/-! ### Redirection -/

theorem redirect_eq_ofList (replacements : IdMap IdSet) (ids : IdSet) :
    redirect replacements ids = IdSet.ofList (ids.toList.flatMap (standsFor replacements)) := by
  change List.foldl _ (∅ : IdSet) ids.toList =
    IdSet.insertAll ∅ (ids.toList.flatMap (standsFor replacements))
  -- The set that was collected so far is arbitrary.
  generalize (∅ : IdSet) = redirected
  induction ids.toList generalizing redirected with
  | nil => rfl
  | cons id rest ih =>
    rw [List.foldl_cons, List.flatMap_cons, IdSet.insertAll_append, ih]
    cases found : replacements.get? id with
    | none => simp only [standsFor, found]; rfl
    | some known => simp only [standsFor, found]

theorem mem_redirect {replacements : IdMap IdSet} {ids : IdSet} {other : CandidateId} :
    other ∈ redirect replacements ids ↔ ∃ id ∈ ids, other ∈ standsFor replacements id := by
  rw [redirect_eq_ofList, IdSet.mem_ofList, List.mem_flatMap]
  rfl

/-! ### Requests -/

/-- The ids that a map lists for an id. -/
def listed (requests : IdMap IdSet) (id : CandidateId) : IdSet := (requests.get? id).getD ∅

theorem listed_addRequests (requests : IdMap IdSet) (id target : CandidateId)
    (ids : List CandidateId) :
    listed (addRequests requests target ids) id =
      if id = target then (listed requests id).insertAll ids else listed requests id := by
  unfold listed addRequests
  rw [IdMap.get?_insert]
  split
  next same => rw [same, Option.getD_some]
  next => rfl

theorem mem_listed_addRequests {requests : IdMap IdSet} {id target other : CandidateId}
    {ids : List CandidateId} :
    other ∈ listed (addRequests requests target ids) id ↔
      other ∈ listed requests id ∨ id = target ∧ other ∈ ids := by
  rw [listed_addRequests]
  split
  next same => simp [same]
  next differ => simp [differ]

theorem mem_listed_addAllRequests {requests : IdMap IdSet} {before : IdSet}
    {id other : CandidateId} {declarers : List CandidateId} :
    other ∈ listed (addAllRequests requests before declarers) id ↔
      other ∈ listed requests id ∨ id ∈ before ∧ other ∈ declarers := by
  unfold addAllRequests
  rw [← IdSet.mem_toList (s := before)]
  induction before.toList generalizing requests with
  | nil => simp
  | cons target rest ih =>
    rw [List.foldl_cons, ih, mem_listed_addRequests, List.mem_cons]
    tauto

theorem mem_listed_foldl {α : Type} {entries : List α} {before : α → IdSet}
    {declarers : α → List CandidateId} {requests : IdMap IdSet} {id other : CandidateId} :
    other ∈ listed (entries.foldl
        (fun requests entry => addAllRequests requests (before entry) (declarers entry))
        requests) id ↔
      other ∈ listed requests id ∨ ∃ entry ∈ entries, id ∈ before entry ∧ other ∈ declarers entry := by
  induction entries generalizing requests with
  | nil => simp
  | cons entry rest ih =>
    rw [List.foldl_cons, ih, mem_listed_addAllRequests, or_assoc]
    simp only [List.mem_cons, exists_eq_or_imp]

/-- An id keeps what is listed for it at the front when something is added. -/
theorem prefix_addRequests (requests : IdMap IdSet) (id target : CandidateId)
    (ids : List CandidateId) :
    (listed requests id).toList <+: (listed (addRequests requests target ids) id).toList := by
  rw [listed_addRequests]
  split
  · exact IdSet.prefix_insertAll _ ids
  · exact List.prefix_rfl

theorem prefix_addAllRequests (requests : IdMap IdSet) (id : CandidateId) (before : IdSet)
    (declarers : List CandidateId) :
    (listed requests id).toList <+:
      (listed (addAllRequests requests before declarers) id).toList := by
  unfold addAllRequests
  induction before.toList generalizing requests with
  | nil => exact List.prefix_rfl
  | cons target rest ih => exact (prefix_addRequests requests id target declarers).trans (ih _)

theorem prefix_foldl {α : Type} (entries : List α) (before : α → IdSet)
    (declarers : α → List CandidateId) (requests : IdMap IdSet) (id : CandidateId) :
    (listed requests id).toList <+: (listed (entries.foldl
      (fun requests entry => addAllRequests requests (before entry) (declarers entry))
      requests) id).toList := by
  induction entries generalizing requests with
  | nil => exact List.prefix_rfl
  | cons entry rest ih =>
    exact (prefix_addAllRequests requests id (before entry) (declarers entry)).trans (ih _)

namespace CandidateGraph

variable {records deprecated : IdMap CandidateRecord} {primary : IdSet}
  {replacements : IdMap IdSet} {id other : CandidateId}

theorem mem_before_constrain :
    other ∈ (constrain records deprecated primary replacements).before id ↔
      ∃ record, records.get? id = some record ∧ other ∈ redirect replacements record.before := by
  simp only [before, constrain, IdMap.get?_mapValues]
  cases records.get? id <;> simp

theorem mem_after_constrain :
    other ∈ (constrain records deprecated primary replacements).after id ↔
      ∃ record, records.get? id = some record ∧ other ∈ redirect replacements record.after := by
  simp only [after, constrain, IdMap.get?_mapValues]
  cases records.get? id <;> simp

/-- What an id must wait for is collected by two passes over records, the second one starting from
the result of the first. -/
theorem requestedAfter_constrain :
    (constrain records deprecated primary replacements).requestedAfter id = listed
      (deprecated.entries.foldl (fun requests entry => addAllRequests requests
          (redirect replacements entry.2.before) (listed replacements entry.1).toList)
        ((records.mapValues fun record => redirect replacements record.before).entries.foldl
          (fun requests entry => addAllRequests requests entry.2 [entry.1])
          (records.mapValues fun record => redirect replacements record.after))) id := rfl

/-- Those that an id declares to follow come first among those that it must wait for. -/
theorem prefix_requestedAfter_constrain :
    ((constrain records deprecated primary replacements).after id).toList <+:
      ((constrain records deprecated primary replacements).requestedAfter id).toList := by
  rw [requestedAfter_constrain]
  -- Both passes start from the `after` sets and only add to them.
  exact (prefix_foldl _ Prod.snd (fun entry => [entry.1]) _ id).trans (prefix_foldl _ _ _ _ id)

/-- An id must wait for what it declares to follow, for what declares to precede it, and for what
retired ids stand for that were declared to precede it. -/
theorem mem_requestedAfter_constrain :
    other ∈ (constrain records deprecated primary replacements).requestedAfter id ↔
      other ∈ (constrain records deprecated primary replacements).after id ∨
      id ∈ (constrain records deprecated primary replacements).before other ∨
      ∃ retired record, deprecated.get? retired = some record ∧
        id ∈ redirect replacements record.before ∧ other ∈ listed replacements retired := by
  rw [requestedAfter_constrain, mem_listed_foldl, mem_listed_foldl, or_assoc]
  refine or_congr Iff.rfl (or_congr ?_ ?_)
  · rw [mem_before_constrain]
    constructor
    · rintro ⟨⟨declarer, targets⟩, entry, named, declares⟩
      obtain rfl : other = declarer := List.mem_singleton.mp declares
      have found := IdMap.get?_eq_some_iff.mpr entry
      rw [IdMap.get?_mapValues, Option.map_eq_some_iff] at found
      obtain ⟨record, found, rfl⟩ := found
      exact ⟨record, found, named⟩
    · rintro ⟨record, found, named⟩
      refine ⟨(other, redirect replacements record.before), ?_, named, List.mem_cons_self⟩
      exact IdMap.get?_eq_some_iff.mp (by rw [IdMap.get?_mapValues, found]; rfl)
  · constructor
    · rintro ⟨⟨retired, record⟩, entry, named⟩
      exact ⟨retired, record, IdMap.get?_eq_some_iff.mpr entry, named⟩
    · rintro ⟨retired, record, found, named⟩
      exact ⟨(retired, record), IdMap.get?_eq_some_iff.mp found, named⟩

end CandidateGraph

end Activation
