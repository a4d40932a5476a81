import Activation.Candidate.IdMap
import Mathlib.Data.List.Basic

/-!
# Leaving an id out

Sets and maps without one of their ids. What is left keeps its order, so leaving an id out undoes
that it was written, and commutes with the writing of any other id.
-/

namespace Activation

namespace IdSet

/-- The set without the id. -/
def erase (s : IdSet) (z : CandidateId) : IdSet := ⟨s.toList.filter (· != z), s.nodup.filter _⟩

variable {s : IdSet} {id z : CandidateId}

@[simp] theorem toList_erase : (s.erase z).toList = s.toList.filter (· != z) := rfl

@[simp] theorem mem_erase : id ∈ s.erase z ↔ id ∈ s ∧ id ≠ z := by
  rw [← mem_toList, toList_erase, List.mem_filter, bne_iff_ne]
  rfl

@[simp] theorem erase_insert_self : (s.insert z).erase z = s.erase z := by
  ext1
  rw [toList_erase, toList_insert]
  split
  · rfl
  · simp

theorem erase_insert_of_ne (differ : id ≠ z) : (s.insert id).erase z = (s.erase z).insert id := by
  ext1
  rw [toList_erase, toList_insert, toList_insert]
  by_cases member : id ∈ s
  · rw [if_pos member, if_pos (mem_erase.mpr ⟨member, differ⟩), toList_erase]
  · have fresh : id ∉ s.erase z := fun kept => member (mem_erase.mp kept).1
    simp [member, fresh, differ]

/-- Whether an id is written makes no difference to leaving another one out. -/
theorem erase_ite_insert (differ : id ≠ z) (c : Prop) [Decidable c] :
    (if c then s.insert id else s).erase z = if c then (s.erase z).insert id else s.erase z := by
  split
  · exact erase_insert_of_ne differ
  · rfl

end IdSet

namespace IdMap

variable {α β : Type} {m n : IdMap α} {id z : CandidateId} {value : α}

/-- A map is what its keys and its look-ups say. -/
theorem eq_of_views (keys : m.keys = n.keys) (lookups : ∀ id, m.get? id = n.get? id) : m = n := by
  have views (m : IdMap α) : m.entries.map (fun entry => (entry.1, some entry.2)) =
      m.keys.map fun id => (id, m.get? id) := by
    rw [IdMap.keys, List.map_map]
    refine List.map_congr_left fun entry member => ?_
    have found : m.get? entry.1 = some entry.2 := get?_eq_some_iff.mpr member
    rw [Function.comp_apply, found]
  have injective : Function.Injective fun entry : CandidateId × α => (entry.1, some entry.2) := by
    rintro ⟨id, value⟩ ⟨other, there⟩ same
    simpa using same
  refine ext (List.map_injective_iff.mpr injective ?_)
  rw [views, views, keys, funext lookups]

/-- The map without the id. -/
def erase (m : IdMap α) (z : CandidateId) : IdMap α :=
  ⟨m.entries.filter fun entry => entry.1 != z, m.nodup.sublist (List.filter_sublist.map _)⟩

theorem keys_erase : (m.erase z).keys = m.keys.filter (· != z) := by
  rw [keys, keys, List.filter_map]
  rfl

@[simp] theorem get?_erase_self : (m.erase z).get? z = none := by
  rw [get?_eq_none_iff, keys_erase]
  simp

theorem get?_erase_of_ne (differ : id ≠ z) : (m.erase z).get? id = m.get? id := by
  ext value
  rw [get?_eq_some_iff, get?_eq_some_iff]
  simp [erase, differ]

theorem contains_erase_of_ne (differ : id ≠ z) : (m.erase z).contains id = m.contains id :=
  congrArg Option.isSome (get?_erase_of_ne differ)

@[simp] theorem erase_insert_self : (m.insert z value).erase z = m.erase z := by
  apply eq_of_views
  · rw [keys_erase, keys_erase, keys_insert]
    split
    · rfl
    · simp
  · intro id
    by_cases same : id = z
    · rw [same, get?_erase_self, get?_erase_self]
    · rw [get?_erase_of_ne same, get?_erase_of_ne same, get?_insert_of_ne m value same]

theorem erase_insert_of_ne (differ : id ≠ z) :
    (m.insert id value).erase z = (m.erase z).insert id value := by
  apply eq_of_views
  · rw [keys_erase, keys_insert, keys_insert, keys_erase]
    by_cases member : id ∈ m.keys <;> simp [member, differ]
  · intro other
    rw [get?_insert]
    by_cases same : other = z
    · have differ : z ≠ id := differ.symm
      simp [same, differ]
    · rw [get?_erase_of_ne same, get?_erase_of_ne same, get?_insert]

theorem mapValues_erase (f : α → β) : (m.erase z).mapValues f = (m.mapValues f).erase z := by
  ext1
  simp only [mapValues, erase, List.filter_map]
  rfl

end IdMap

end Activation
