import Activation.Candidate.IdSet
import Mathlib.Data.List.Induction

/-!
# First occurrences

Inserting a list of ids into a set keeps, in order, the first occurrence of each id that is new. So
a set may stand for the list it was made from wherever ids are inserted further
(`IdSet.insertAll_ofList`), which is what lets sets of sets be put together in any grouping.
-/

namespace Activation.IdSet

theorem insertAll_concat (s : IdSet) (ids : List CandidateId) (id : CandidateId) :
    s.insertAll (ids ++ [id]) = (s.insertAll ids).insert id := insertAll_append s ids [id]

theorem ofList_append (ids more : List CandidateId) :
    ofList (ids ++ more) = (ofList ids).insertAll more := insertAll_append empty ids more

theorem ofList_concat (ids : List CandidateId) (id : CandidateId) :
    ofList (ids ++ [id]) = (ofList ids).insert id := ofList_append ids [id]

theorem insertAll_of_subset {s : IdSet} {ids : List CandidateId} (old : ∀ id ∈ ids, id ∈ s) :
    s.insertAll ids = s := by
  induction ids with
  | nil => rfl
  | cons id ids ih =>
    rw [insertAll_cons, insert_of_mem (old id List.mem_cons_self)]
    exact ih fun other later => old other (List.mem_cons_of_mem id later)

theorem prefix_insert (s : IdSet) (id : CandidateId) : s.toList <+: (s.insert id).toList := by
  rw [toList_insert]
  split
  · exact List.prefix_rfl
  · exact List.prefix_append s.toList [id]

theorem prefix_insertAll (s : IdSet) (ids : List CandidateId) :
    s.toList <+: (s.insertAll ids).toList := by
  induction ids generalizing s with
  | nil => exact List.prefix_rfl
  | cons id ids ih => exact (s.prefix_insert id).trans (ih (s.insert id))

/-- Only the first occurrence of an id counts. -/
theorem insertAll_ofList (s : IdSet) (ids : List CandidateId) :
    s.insertAll (ofList ids).toList = s.insertAll ids := by
  induction ids using List.reverseRecOn with
  | nil => rfl
  | append_singleton ids id ih =>
    rw [ofList_concat, insertAll_concat, toList_insert]
    split
    next again =>
      have old : id ∈ s.insertAll ids := mem_insertAll.mpr (Or.inr (mem_ofList.mp again))
      rw [ih, insert_of_mem old]
    next => rw [insertAll_concat, ih]

/-- Of ids that differ from each other, those that are new are appended as they stand. -/
theorem toList_insertAll_of_distinct {s : IdSet} {ids : List CandidateId} (distinct : ids.Nodup) :
    (s.insertAll ids).toList = s.toList ++ ids.filter fun id => decide (id ∉ s) := by
  induction ids generalizing s with
  | nil => simp
  | cons id ids ih =>
    obtain ⟨absent, distinct⟩ := List.nodup_cons.mp distinct
    -- That `id` is written now makes no difference to the ids behind it.
    have later : ids.filter (fun other => decide (other ∉ s.insert id)) =
        ids.filter fun other => decide (other ∉ s) := by
      apply List.filter_congr
      intro other member
      have differ : other ≠ id := fun same => absent (same ▸ member)
      simp [differ]
    rw [insertAll_cons, ih distinct, later, toList_insert]
    by_cases old : id ∈ s
    · simp [old]
    · simp [old]

/-- Sets that are put together in any grouping are one set. -/
theorem insertAll_insertAll (s t : IdSet) (ids : List CandidateId) :
    s.insertAll (t.insertAll ids).toList = (s.insertAll t.toList).insertAll ids := by
  have whole : t.insertAll ids = ofList (t.toList ++ ids) := by rw [ofList_append, ofList_toList]
  rw [whole, insertAll_ofList, insertAll_append]

theorem toList_ofList (ids : List CandidateId) : (ofList ids).toList = ids.eraseDups := by
  induction ids using List.reverseRecOn with
  | nil => rfl
  | append_singleton ids id ih =>
    rw [ofList_concat, toList_insert, ih, List.eraseDups_append]
    by_cases again : id ∈ ids
    · simp [again, List.removeAll]
    · simp [again, List.removeAll, List.eraseDups_cons]

end Activation.IdSet
