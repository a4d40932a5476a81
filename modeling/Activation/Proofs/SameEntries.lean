import Activation.Proofs.IndexHistory
import Mathlib.Data.List.Nodup
import Mathlib.Data.List.Perm.Subperm

/-!
# Maps with the same entries

Two maps have the same entries exactly where they give each id the same value, which is where the
entries of one are an arrangement of those of the other (`IdMap.sameEntries_iff_perm`). An index is
such a map, and none of its answers tells in which order its entries are
(`CandidateIndex.source_eq_of_sameAs`).
-/

namespace Activation

namespace IdMap

variable {α : Type} {m n : IdMap α}

theorem nodup_entries (m : IdMap α) : m.entries.Nodup := List.Nodup.of_map _ m.nodup

theorem get?_eq_iff_perm : (∀ id, m.get? id = n.get? id) ↔ m.entries.Perm n.entries := by
  rw [List.perm_ext_iff_of_nodup m.nodup_entries n.nodup_entries]
  constructor
  · rintro same ⟨id, value⟩
    rw [← get?_eq_some_iff, ← get?_eq_some_iff, same]
  · intro same id
    ext value
    rw [get?_eq_some_iff, get?_eq_some_iff, same]

/-- Maps of the same size have the same entries if each entry of one is found in the other. -/
theorem sameEntries_iff_perm [DecidableEq α] :
    m.sameEntries n = true ↔ m.entries.Perm n.entries := by
  simp only [sameEntries, Bool.and_eq_true, beq_iff_eq, List.all_eq_true, decide_eq_true_eq,
    get?_eq_some_iff]
  constructor
  · rintro ⟨size, found⟩
    have covered : m.entries.Subperm n.entries := List.subperm_of_subset m.nodup_entries found
    exact covered.perm_of_length_le (Nat.le_of_eq size.symm)
  · intro arranged
    exact ⟨arranged.length_eq, fun _ member => arranged.subset member⟩

theorem keys_ofList (entries : List (CandidateId × α)) :
    (ofList entries).keys = (IdSet.ofList (entries.map Prod.fst)).toList :=
  congrArg IdSet.toList (keySet_insertAll empty entries)

/-- Entries that leave as many keys are those of distinct ids. -/
theorem nodup_of_size_ofList {entries : List (CandidateId × α)}
    (size : (ofList entries).size = entries.length) : (entries.map Prod.fst).Nodup := by
  rw [← length_keys, keys_ofList] at size
  have covered : (IdSet.ofList (entries.map Prod.fst)).toList.Subperm (entries.map Prod.fst) := by
    refine List.subperm_of_subset (IdSet.nodup _) fun id member => ?_
    exact IdSet.mem_ofList.mp (IdSet.mem_toList.mp member)
  have long : (entries.map Prod.fst).length ≤
      (IdSet.ofList (entries.map Prod.fst)).toList.length := by
    rw [size, List.length_map]
  exact (covered.perm_of_length_le long).nodup_iff.mp (IdSet.nodup _)

end IdMap

namespace CandidateIndex

variable {index other : CandidateIndex}

theorem sameAs_iff_get? : index.sameAs other = true ↔ ∀ id, index.get? id = other.get? id :=
  IdMap.sameEntries_iff_perm.trans IdMap.get?_eq_iff_perm.symm

theorem sameAs_refl (index : CandidateIndex) : index.sameAs index = true :=
  sameAs_iff_get?.mpr fun _ => rfl

/-- The answers of an index do not tell in which order its entries are. -/
theorem source_eq_of_sameAs (same : index.sameAs other = true) : index.source = other.source := by
  have found := sameAs_iff_get?.mp same
  have held (id : CandidateId) : index.contains id = other.contains id :=
    congrArg Option.isSome (found id)
  simp only [source, found, held]

theorem candidates_foldl_insert (index : CandidateIndex)
    (entries : List (CandidateId × IndexEntry)) :
    entries.foldl (fun written entry => written.insert entry.1 entry.2) index =
      ⟨index.candidates.insertAll entries⟩ := by
  induction entries generalizing index with
  | nil => rfl
  | cons entry entries ih => exact ih (index.insert entry.1 entry.2)

/-- Entries of distinct ids may be written in any order. -/
theorem sameAs_insertAll (m : IdMap IndexEntry) {entries others : List (CandidateId × IndexEntry)}
    (distinct : (entries.map Prod.fst).Nodup) (arranged : entries.Perm others) :
    (CandidateIndex.mk (m.insertAll entries)).sameAs ⟨m.insertAll others⟩ = true := by
  have distinct' : (others.map Prod.fst).Nodup := (arranged.map Prod.fst).nodup_iff.mp distinct
  have found : ∀ id, (IdMap.mk entries distinct).get? id = (IdMap.mk others distinct').get? id :=
    IdMap.get?_eq_iff_perm.mpr arranged
  rw [sameAs_iff_get?]
  intro id
  rw [get?, get?, IdMap.get?_insertAll distinct, IdMap.get?_insertAll distinct']
  exact congrArg (Option.or · (m.get? id)) (found id)

end CandidateIndex

end Activation
