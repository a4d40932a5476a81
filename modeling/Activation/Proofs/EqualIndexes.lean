import Activation.Proofs.Json.RoundTrip
import Activation.Proofs.Layers
import Activation.Proofs.RearrangedFiles
import Activation.Proofs.Termination

/-!
# Equal indexes

The main result is `equal_indexes_order_alike`: equal indexes lead to the same graphs and the same
orders. The graph of an index is full of insertion orders, but none of them is that of the index.
-/

namespace Activation

open CandidateGraph

/-- Equal indexes are those that give each id the same entry. They lead to the same graphs, errors
and orders, for all ids. Entries of distinct ids make equal indexes in whatever order they are
inserted, and so do documents that list entries of distinct ids in different orders. -/
theorem equal_indexes_order_alike :
    (∀ index other : CandidateIndex,
      index.sameAs other = true ↔ ∀ id, index.get? id = other.get? id) ∧
    (∀ index other : CandidateIndex, index.sameAs other = true →
      ∀ ids explorable explorable',
        build index.source ids explorable = build other.source ids explorable' ∧
        index.orderCandidates ids = other.orderCandidates ids) ∧
    (∀ (index : CandidateIndex) (entries others : List (CandidateId × IndexEntry)),
      (entries.map Prod.fst).Nodup → entries.Perm others →
      (entries.foldl (fun written entry => written.insert entry.1 entry.2) index).sameAs
        (others.foldl (fun written entry => written.insert entry.1 entry.2) index) = true) ∧
    ∀ (format : IndexFormat) (count : Nat) (text text' : String) (index : CandidateIndex),
      format.Rearranged count text text' → format.parse? text = some index → index.size = count →
      ∃ other, format.parse? text' = some other ∧ index.sameAs other = true ∧
        ∀ ids, index.orderCandidates ids = other.orderCandidates ids := by
  have orders {index other : CandidateIndex} (same : index.sameAs other = true)
      (ids : List CandidateId) : index.orderCandidates ids = other.orderCandidates ids :=
    orderCandidates_congr (CandidateIndex.source_eq_of_sameAs same) _ _
  refine ⟨fun _ _ => CandidateIndex.sameAs_iff_get?, ?_, ?_, ?_⟩
  · intro index other same ids explorable explorable'
    have answers := CandidateIndex.source_eq_of_sameAs same
    obtain ⟨_, equal⟩ :=
      build_congr explorable fun id _ => congrArg (Source.record · id) answers.symm
    exact ⟨equal.symm, orders same ids⟩
  · intro index entries others distinct arranged
    rw [CandidateIndex.candidates_foldl_insert, CandidateIndex.candidates_foldl_insert]
    exact CandidateIndex.sameAs_insertAll index.candidates distinct arranged
  · intro format count text text' index rearranged read size
    obtain ⟨other, read', same⟩ := IndexFormat.parse?_of_rearranged rearranged read size
    exact ⟨other, read', same, orders same⟩

theorem IndexFormat.rearranged_toJson {index other : CandidateIndex}
    (same : index.sameAs other = true) :
    IndexFormat.json.Rearranged index.size index.toJson other.toJson := by
  have listed (index : CandidateIndex) : Format.Json.ofIndex index = Format.Json.document []
      (index.candidates.entries.map fun entry => (some entry.1.text, Format.Json.ofEntry entry.2))
      [] := by
    simp [Format.Json.ofIndex, Format.Json.record, Format.Json.document]
  have written (index : CandidateIndex) :
      Json.Value.parse? index.toJson = some (Format.Json.ofIndex index) := Json.Value.parse?_text _
  have arranged := IdMap.sameEntries_iff_perm.mp same
  exact .json ((written index).trans (congrArg some (listed index)))
    ((written other).trans (congrArg some (listed other))) (arranged.map _) (List.length_map _)

/-- A service and the database that it is placed after. -/
def service : List (CandidateId × IndexEntry) :=
  [(⟨"web"⟩, { after := [⟨"db"⟩] }), (⟨"db"⟩, {})]

theorem equal_indexes_order_alike_service :
    (CandidateIndex.ofEntries service).ids ≠ (CandidateIndex.ofEntries service.reverse).ids ∧
    (CandidateIndex.ofEntries service).sameAs (.ofEntries service.reverse) = true ∧
    (∀ ids, (CandidateIndex.ofEntries service).orderCandidates ids =
      (CandidateIndex.ofEntries service.reverse).orderCandidates ids) ∧
    ∃ other,
      IndexFormat.json.parse? (CandidateIndex.ofEntries service.reverse).toJson = some other ∧
      (CandidateIndex.ofEntries service).sameAs other = true := by
  obtain ⟨-, orders, inserted, files⟩ := equal_indexes_order_alike
  have same : (CandidateIndex.ofEntries service).sameAs (.ofEntries service.reverse) = true :=
    inserted ∅ service service.reverse (by decide) service.reverse_perm.symm
  have read : IndexFormat.json.parse? (CandidateIndex.ofEntries service).toJson =
      some (CandidateIndex.ofEntries service) := by
    show (Json.Value.parse? (Format.Json.ofIndex _).text >>= Format.Json.readIndex?) = _
    rw [Json.Value.parse?_text, Option.bind_eq_bind, Option.bind_some,
      Format.Json.readIndex?_ofIndex]
  obtain ⟨other, read', equal, -⟩ := files _ _ _ _ _ (IndexFormat.rearranged_toJson same) read rfl
  refine ⟨by decide, same, fun ids => ?_, other, read', equal⟩
  have explorable (index : CandidateIndex) : index.source.Explorable ids :=
    index.source_finite.explorable ids
  exact (orders _ _ same ids (explorable _) (explorable _)).2

end Activation
