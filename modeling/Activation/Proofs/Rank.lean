import Activation.Proofs.DepthFirst

/-!
# Ranks

A depth-first search takes its roots one after another. For each root it finishes what the root
needs and no earlier root did, and then the root itself. So the finished ids come in blocks, one for
each root that was not finished when its turn came (`Blocks`), and along them the rank of an id, the
position of the first root that needs it, does not fall (`Blocks.pairwise_rank`).
-/

namespace Activation.DepthFirst

open Relation

variable {α : Type} {needs : α → α → Prop} {roots more finished : List α} {root x y : α}

/-! ### The first root that needs an id -/

open Classical in
/-- The position of the first root that is the id or needs it, if only through others; the number
of roots where there is none. -/
noncomputable def rank (needs : α → α → Prop) (roots : List α) (x : α) : Nat :=
  roots.findIdx fun root => decide (ReflTransGen needs root x)

theorem rank_le {k : Nat} (here : roots[k]? = some root) (needed : ReflTransGen needs root x) :
    rank needs roots x ≤ k := by
  obtain ⟨inRange, rfl⟩ := List.getElem?_eq_some_iff.mp here
  by_contra later
  have unneeded := List.not_of_lt_findIdx (Nat.lt_of_not_le later)
  simp only [decide_eq_false_iff_not] at unneeded
  exact unneeded needed

/-- An id whose rank is the position of a root is this root, or the root needs it. -/
theorem needed_of_rank {k : Nat} (here : roots[k]? = some root) (atRank : rank needs roots x = k) :
    ReflTransGen needs root x := by
  obtain ⟨inRange, rfl⟩ := List.getElem?_eq_some_iff.mp here
  subst atRank
  classical
  exact of_decide_eq_true (@List.findIdx_getElem _ _ roots inRange)

theorem rank_lt_length (member : root ∈ roots) (needed : ReflTransGen needs root x) :
    rank needs roots x < roots.length := by
  classical
  exact List.findIdx_lt_length_of_exists ⟨root, member, decide_eq_true needed⟩

theorem rank_append_of_needed (member : root ∈ roots) (needed : ReflTransGen needs root x) :
    rank needs (roots ++ more) x = rank needs roots x := by
  have found := rank_lt_length member needed
  unfold rank at found ⊢
  rw [List.findIdx_append, if_pos found]

theorem rank_eq_length (unneeded : ∀ root ∈ roots, ¬ ReflTransGen needs root x) :
    rank needs roots x = roots.length := by
  classical
  exact List.findIdx_eq_length_of_false fun root member => decide_eq_false (unneeded root member)

theorem rank_concat (unneeded : ∀ other ∈ roots, ¬ ReflTransGen needs other x)
    (needed : ReflTransGen needs root x) : rank needs (roots ++ [root]) x = roots.length := by
  apply Nat.le_antisymm
  · exact rank_le List.getElem?_concat_length needed
  · have all := rank_eq_length unneeded
    unfold rank at all ⊢
    rw [List.findIdx_append, all, if_neg (Nat.lt_irrefl _)]
    exact Nat.le_add_left _ _

/-! ### Blocks -/

theorem InOrder.of_append {xs ys : List α} (ordered : InOrder needs (xs ++ ys)) :
    InOrder needs xs := by
  intro front x back split
  exact ordered front x (back ++ ys) (by rw [split]; simp)

theorem InOrder.mem_of_needed {xs : List α} (ordered : InOrder needs xs) (member : x ∈ xs)
    (needed : ReflTransGen needs x y) : y ∈ xs := by
  rcases reflTransGen_iff_eq_or_transGen.mp needed with rfl | chain
  · exact member
  · obtain ⟨front, back, rfl⟩ := List.append_of_mem member
    exact List.mem_append_left _ (ordered.transGen front x back rfl y chain)

/-- The ids that a search has finished once it is done with some roots: for each root that was new,
a block of ids that the root needs, and the root. -/
inductive Blocks (needs : α → α → Prop) : List α → List α → Prop
  | nil : Blocks needs [] []
  | skip {roots finished : List α} {root : α} (blocks : Blocks needs roots finished)
      (already : root ∈ finished) : Blocks needs (roots ++ [root]) finished
  | add {roots finished block : List α} {root : α} (blocks : Blocks needs roots finished)
      (needed : ∀ x ∈ block, TransGen needs root x) :
      Blocks needs (roots ++ [root]) (finished ++ (block ++ [root]))

namespace Blocks

theorem needed_of_mem {block : List α} (needed : ∀ x ∈ block, TransGen needs root x)
    (member : x ∈ block ++ [root]) : ReflTransGen needs root x := by
  rcases List.mem_append.mp member with inBlock | same
  · exact (needed x inBlock).to_reflTransGen
  · exact List.mem_singleton.mp same ▸ .refl

theorem mem_of_root (blocks : Blocks needs roots finished) (member : root ∈ roots) :
    root ∈ finished := by
  induction blocks with
  | nil => exact member
  | skip _ already ih =>
    rcases List.mem_append.mp member with earlier | last
    · exact ih earlier
    · exact List.mem_singleton.mp last ▸ already
  | add _ _ ih =>
    rcases List.mem_append.mp member with earlier | last
    · exact List.mem_append_left _ (ih earlier)
    · exact List.mem_append_right _ (List.mem_append_right _ last)

theorem exists_root (blocks : Blocks needs roots finished) (member : x ∈ finished) :
    ∃ root ∈ roots, ReflTransGen needs root x := by
  induction blocks with
  | nil => cases member
  | skip _ _ ih =>
    obtain ⟨root, earlier, needed⟩ := ih member
    exact ⟨root, List.mem_append_left _ earlier, needed⟩
  | @add _ _ block last _ needed ih =>
    rcases List.mem_append.mp member with before | here
    · obtain ⟨root, earlier, needed⟩ := ih before
      exact ⟨root, List.mem_append_left _ earlier, needed⟩
    · exact ⟨last, List.mem_append_right _ List.mem_cons_self, needed_of_mem needed here⟩

theorem rank_append (blocks : Blocks needs roots finished) (member : x ∈ finished) :
    rank needs (roots ++ more) x = rank needs roots x := by
  obtain ⟨root, earlier, needed⟩ := blocks.exists_root member
  exact rank_append_of_needed earlier needed

theorem rank_lt (blocks : Blocks needs roots finished) (member : x ∈ finished) :
    rank needs roots x < roots.length := by
  obtain ⟨root, earlier, needed⟩ := blocks.exists_root member
  exact rank_lt_length earlier needed

/-- Along finished ids that stand in order, ranks do not fall. -/
theorem pairwise_rank (blocks : Blocks needs roots finished) (ordered : InOrder needs finished)
    (distinct : finished.Nodup) :
    finished.Pairwise fun x y => rank needs roots x ≤ rank needs roots y := by
  induction blocks with
  | nil => exact .nil
  | skip blocks _ ih =>
    refine (ih ordered distinct).imp_of_mem fun first second le => ?_
    rwa [blocks.rank_append first, blocks.rank_append second]
  | @add roots finished block root blocks needed ih =>
    obtain ⟨before, -, apart⟩ := List.nodup_append.mp distinct
    have earlier := ordered.of_append
    -- What an earlier root needs is finished with it, so the new ids are needed by none of them.
    have new : ∀ x ∈ block ++ [root], rank needs (roots ++ [root]) x = roots.length := by
      intro x member
      refine rank_concat (fun other given chain => ?_) (needed_of_mem needed member)
      have old := earlier.mem_of_needed (blocks.mem_of_root given) chain
      exact apart x old x member rfl
    refine List.pairwise_append.mpr ⟨?_, ?_, fun x first y second => ?_⟩
    · refine (ih earlier before).imp_of_mem fun first second le => ?_
      rwa [blocks.rank_append first, blocks.rank_append second]
    · refine List.pairwise_of_forall_mem_list fun x first y second => ?_
      exact Nat.le_of_eq ((new x first).trans (new y second).symm)
    · rw [new y second, blocks.rank_append first]
      exact Nat.le_of_lt (blocks.rank_lt first)

end Blocks

/-! ### Lists along which ranks do not fall -/

section Positions

variable [DecidableEq α] {xs : List α}

theorem pairwise_idxOf (distinct : xs.Nodup) :
    xs.Pairwise fun x y => xs.idxOf x < xs.idxOf y := by
  refine List.pairwise_iff_getElem.mpr fun i j _ _ less => ?_
  rwa [distinct.idxOf_getElem, distinct.idxOf_getElem]

theorem rel_of_idxOf_lt {R : α → α → Prop} (pairwise : xs.Pairwise R) (member : y ∈ xs)
    (less : xs.idxOf x < xs.idxOf y) : R x y := by
  have inRange := List.idxOf_lt_length_of_mem member
  have related := List.pairwise_iff_getElem.mp pairwise (xs.idxOf x) (xs.idxOf y)
    (Nat.lt_trans less inRange) inRange less
  rwa [List.getElem_idxOf, List.getElem_idxOf] at related

theorem rank_le_idxOf (member : x ∈ roots) : rank needs roots x ≤ roots.idxOf x :=
  rank_le (List.getElem?_idxOf member) .refl

/-- A root that no root up to another one needs has a higher rank than that one. -/
theorem idxOf_lt_rank (distinct : roots.Nodup) (member : y ∈ roots)
    (later : roots.idxOf x < roots.idxOf y)
    (free : ∀ z ∈ roots, roots.idxOf z ≤ roots.idxOf x → ¬ TransGen needs z y) :
    roots.idxOf x < rank needs roots y := by
  by_contra notLater
  have inRange : rank needs roots y < roots.length := rank_lt_length member .refl
  have position : roots.idxOf roots[rank needs roots y] = rank needs roots y :=
    distinct.idxOf_getElem _ _
  have needed := needed_of_rank (List.getElem?_eq_getElem inRange) rfl
  rcases reflTransGen_iff_eq_or_transGen.mp needed with same | chain
  · rw [← same] at position
    omega
  · exact free _ (List.getElem_mem inRange) (by omega) chain

/-- A root stays before a later one that no root up to it needs. -/
theorem idxOf_lt_of_pairwise_rank (distinct : roots.Nodup) (permuted : xs.Perm roots)
    (ranks : xs.Pairwise fun x y => rank needs roots x ≤ rank needs roots y) (first : x ∈ roots)
    (second : y ∈ roots) (later : roots.idxOf x < roots.idxOf y)
    (free : ∀ z ∈ roots, roots.idxOf z ≤ roots.idxOf x → ¬ TransGen needs z y) :
    xs.idxOf x < xs.idxOf y := by
  have higher := idxOf_lt_rank distinct second later free
  have lower : rank needs roots x ≤ roots.idxOf x := rank_le_idxOf first
  have differ : xs.idxOf y ≠ xs.idxOf x := by
    intro same
    rw [(List.idxOf_inj (permuted.mem_iff.mpr second)).mp same] at later
    exact Nat.lt_irrefl _ later
  by_contra notBefore
  have before : xs.idxOf y < xs.idxOf x := by omega
  have falls := rel_of_idxOf_lt ranks (permuted.mem_iff.mpr first) before
  omega

/-- Where no root needs another one, roots along which ranks do not fall stand as they were given. -/
theorem eq_of_pairwise_rank (distinct : roots.Nodup) (permuted : xs.Perm roots)
    (ranks : xs.Pairwise fun x y => rank needs roots x ≤ rank needs roots y)
    (free : ∀ x ∈ roots, ∀ y ∈ roots, ¬ TransGen needs x y) : xs = roots := by
  have given : roots.Pairwise fun x y => roots.idxOf x ≤ roots.idxOf y :=
    (pairwise_idxOf distinct).imp Nat.le_of_lt
  have kept : xs.Pairwise fun x y => roots.idxOf x ≤ roots.idxOf y := by
    refine (pairwise_idxOf (permuted.nodup_iff.mpr distinct)).imp_of_mem ?_
    intro x y first second before
    by_contra later
    have first : x ∈ roots := permuted.mem_iff.mp first
    have second : y ∈ roots := permuted.mem_iff.mp second
    have after := idxOf_lt_of_pairwise_rank distinct permuted ranks second first
      (Nat.lt_of_not_le later) fun z member _ => free z member x first
    exact Nat.lt_asymm before after
  refine List.Perm.eq_of_pairwise (fun x y first _ le ge => ?_) kept given permuted
  exact (List.idxOf_inj (permuted.mem_iff.mp first)).mp (Nat.le_antisymm le ge)

end Positions

end Activation.DepthFirst
