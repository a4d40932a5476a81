import Activation.Proofs.Order
import Activation.Proofs.Rank
import Activation.Proofs.Utf8

/-!
# The baseline of an order

Before constraints are looked at, ids are sorted twice: by their text, then by order value. The
second sorting is stable, so the two together sort by order value first and by text, byte for byte,
among the ids of one value (`CandidateGraph.isBaseline_baseline`).
-/

namespace Activation

/-! ### Stable sorting -/

namespace Stable

open List

variable {α : Type} {xs : List α} {x y : α}

theorem sublist_or_sublist (first : x ∈ xs) (second : y ∈ xs) (differ : x ≠ y) :
    [x, y] <+ xs ∨ [y, x] <+ xs := by
  obtain ⟨front, back, rfl⟩ := append_of_mem first
  rcases mem_append.mp second with earlier | later
  · have single : [y] <+ front := singleton_sublist.mpr earlier
    exact Or.inr (single.append (singleton_sublist.mpr mem_cons_self))
  · have single : [y] <+ back :=
      singleton_sublist.mpr ((mem_cons.mp later).resolve_left differ.symm)
    exact Or.inl ((single.cons_cons x).trans (sublist_append_right front _))

theorem not_sublist_of_sublist (distinct : xs.Nodup) (before : [x, y] <+ xs) : ¬ [y, x] <+ xs := by
  classical
  intro after
  have positions := DepthFirst.pairwise_idxOf distinct
  have less := pairwise_iff_forall_sublist.mp positions before
  have more := pairwise_iff_forall_sublist.mp positions after
  exact Nat.lt_asymm less more

/-- Sorting keeps what holds between the elements that it takes for equal. -/
theorem pairwise_mergeSort {le : α → α → Bool} {R : α → α → Prop}
    (trans : ∀ a b c, le a b = true → le b c = true → le a c = true)
    (total : ∀ a b, (le a b || le b a) = true) (distinct : xs.Nodup) (pairwise : xs.Pairwise R) :
    (xs.mergeSort le).Pairwise fun x y => le x y = true ∧ (le y x = true → R x y) := by
  have sorted := List.pairwise_mergeSort trans total xs
  have kept : (xs.mergeSort le).Nodup := (mergeSort_perm xs le).nodup_iff.mpr distinct
  refine pairwise_iff_forall_sublist.mpr fun {x y} before => ⟨?_, fun back => ?_⟩
  · exact pairwise_iff_forall_sublist.mp sorted before
  · have differ : x ≠ y := pairwise_iff_forall_sublist.mp kept before
    have first : x ∈ xs := mem_mergeSort.mp (before.subset (by simp))
    have second : y ∈ xs := mem_mergeSort.mp (before.subset (by simp))
    rcases sublist_or_sublist first second differ with same | reversed
    · exact pairwise_iff_forall_sublist.mp pairwise same
    · -- The two would have kept their places, the other way round.
      have after := pair_sublist_mergeSort trans total back reversed
      exact absurd after (not_sublist_of_sublist kept before)

end Stable

namespace CandidateGraph

/-- The ids that the names ask for, in ascending order value, those of one value in the order of
their bytes. -/
structure IsBaseline (graph : CandidateGraph) (names baseline : List CandidateId) : Prop where
  members : ∀ id, id ∈ baseline ↔ ∃ name ∈ names, id ∈ graph.resolve name
  ascending : baseline.Pairwise fun x y =>
    graph.order x < graph.order y ∨ graph.order x = graph.order y ∧ x.utf8 < y.utf8

variable {graph : CandidateGraph} {names baseline : List CandidateId}

theorem IsBaseline.nodup (isBaseline : graph.IsBaseline names baseline) : baseline.Nodup := by
  refine isBaseline.ascending.imp ?_
  rintro x y (lower | ⟨-, smaller⟩) rfl
  · exact Int32.lt_irrefl lower
  · exact List.lt_irrefl _ smaller

theorem IsBaseline.eq {graph' : CandidateGraph} {names' baseline' : List CandidateId}
    (isBaseline : graph.IsBaseline names baseline)
    (isBaseline' : graph'.IsBaseline names' baseline')
    (members : ∀ id, id ∈ baseline ↔ id ∈ baseline')
    (order : ∀ id ∈ baseline, graph.order id = graph'.order id) : baseline = baseline' := by
  have permuted : baseline.Perm baseline' :=
    (List.perm_ext_iff_of_nodup isBaseline.nodup isBaseline'.nodup).mpr members
  have ascending : baseline'.Pairwise fun x y =>
      graph.order x < graph.order y ∨ graph.order x = graph.order y ∧ x.utf8 < y.utf8 := by
    refine isBaseline'.ascending.imp_of_mem fun first second less => ?_
    rwa [order _ ((members _).mpr first), order _ ((members _).mpr second)]
  refine List.Perm.eq_of_pairwise (fun x y _ _ before after => ?_) isBaseline.ascending ascending
    permuted
  -- No two ids stand before each other.
  rcases before with lower | ⟨same, smaller⟩
  · rcases after with higher | ⟨same, -⟩
    · exact absurd (Int32.lt_trans lower higher) Int32.lt_irrefl
    · exact absurd (same ▸ lower) Int32.lt_irrefl
  · rcases after with higher | ⟨-, larger⟩
    · exact absurd (same ▸ higher) Int32.lt_irrefl
    · exact absurd larger (List.lt_asymm smaller)

theorem pairwise_text (ids : IdSet) :
    (ids.toList.mergeSort fun a b => decide (a ≤ b)).Pairwise fun x y => x < y := by
  have sorted : (ids.toList.mergeSort fun a b => decide (a ≤ b)).Pairwise
      fun a b => decide (a ≤ b) = true := by
    refine List.pairwise_mergeSort (fun a b c => ?_) (fun a b => ?_) ids.toList
    · simp only [decide_eq_true_eq]
      exact CandidateId.le_trans
    · simpa using CandidateId.le_total a b
  have distinct :=
    (List.mergeSort_perm ids.toList fun a b => decide (a ≤ b)).nodup_iff.mpr ids.nodup
  refine (sorted.and distinct).imp ?_
  rintro x y ⟨le, differ⟩
  exact CandidateId.lt_of_le_of_ne (of_decide_eq_true le) differ

theorem isBaseline_baseline (graph : CandidateGraph) (names : List CandidateId) :
    graph.IsBaseline names (graph.baseline (graph.requested names).toList) := by
  constructor
  · intro id
    exact (graph.baseline_perm _).mem_iff.trans mem_requested
  · have text := pairwise_text (graph.requested names)
    have distinct := text.imp fun {x y} (less : x < y) => CandidateId.ne_of_lt less
    refine (Stable.pairwise_mergeSort (fun a b c => ?_) (fun a b => ?_) distinct text).imp ?_
    · simp only [decide_eq_true_eq]
      exact Int32.le_trans
    · simpa using Int32.le_total (graph.order a) (graph.order b)
    rintro x y ⟨le, tie⟩
    by_cases same : graph.order x = graph.order y
    · have less : x < y := tie (decide_eq_true (Int32.le_of_eq same.symm))
      exact Or.inr ⟨same, CandidateId.lt_iff_utf8_lt.mp less⟩
    · exact Or.inl (Int32.lt_of_le_of_ne (of_decide_eq_true le) same)

theorem perm_baseline_of_sort_eq_ok {out : List CandidateId}
    (sorted : (sort names graph).value = .ok out) :
    out.Perm (graph.baseline (graph.requested names).toList) := by
  refine (List.perm_ext_iff_of_nodup (nodup_of_sort_eq_ok sorted)
    (isBaseline_baseline graph names).nodup).mpr fun id => ?_
  exact (mem_of_sort_eq_ok sorted).trans (graph.baseline_perm _).mem_iff.symm

end CandidateGraph

end Activation
