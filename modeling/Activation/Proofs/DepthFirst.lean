import Mathlib.Data.List.Nodup
import Mathlib.Logic.Relation

/-!
# Depth-first search

The resolution of retired ids and the placement are both depth-first searches: an id is entered,
everything it needs is finished first, and then the id itself is finished. The walk does the same
with the ids that it makes primary. This module holds what the three have in common:

* `InOrder`: a list of finished ids in which each one stands after all that it needs,
* `Suspended`: the ids that were entered and are not finished, as a stack.

A list in order rules out cycles (`InOrder.acc`), and the stack of a search that met one of its own
ids again is one (`Suspended.reaches`).
-/

namespace Activation.DepthFirst

open Relation

variable {α : Type} {needs : α → α → Prop}

/-! ### Finished ids -/

/-- Each member of the list stands after all that it needs. -/
def InOrder (needs : α → α → Prop) (xs : List α) : Prop :=
  ∀ front x back, xs = front ++ x :: back → ∀ y, needs x y → y ∈ front

theorem InOrder.nil : InOrder needs [] := by
  intro front x back split
  simp at split

/-- An id whose needs are all finished may be finished next. -/
theorem InOrder.concat {xs : List α} {x : α} (ordered : InOrder needs xs)
    (met : ∀ y, needs x y → y ∈ xs) : InOrder needs (xs ++ [x]) := by
  intro front z back split y needed
  rcases List.eq_nil_or_concat back with rfl | ⟨back, last, rfl⟩
  · obtain ⟨rfl, same⟩ := List.append_inj' split rfl
    obtain rfl : x = z := by simpa using same
    exact met y needed
  · have earlier : xs ++ [x] = (front ++ z :: back) ++ [last] := by simpa using split
    exact ordered front z back (List.append_inj' earlier rfl).1 y needed

/-- What an id needs through others stands before it as well. -/
theorem InOrder.transGen {xs : List α} (ordered : InOrder needs xs) :
    InOrder (TransGen needs) xs := by
  intro front x back split y chain
  induction chain with
  | single needed => exact ordered front x back split _ needed
  | @tail z y _ needed ih =>
    -- `z` stands before `x`, so what stands before `z` does as well.
    obtain ⟨first, second, rfl⟩ := List.append_of_mem ih
    have earlier := ordered first z (second ++ x :: back) (by simpa using split) y needed
    exact List.mem_append_left _ earlier

/-- No member takes part in a cycle of needs: from each one, needs lead down only finitely far. -/
theorem InOrder.acc {xs : List α} (ordered : InOrder needs xs) {x : α} (member : x ∈ xs) :
    Acc (fun y x => needs x y) x := by
  obtain ⟨front, back, split⟩ := List.append_of_mem member
  -- The induction is on how many members stand before `x`.
  induction size : front.length using Nat.strongRecOn generalizing x front back with
  | ind size ih =>
    refine ⟨x, fun y needed => ?_⟩
    have earlier := ordered front x back split y needed
    obtain ⟨first, second, rfl⟩ := List.append_of_mem earlier
    refine ih first.length ?_ (x := y) ?_ first (second ++ x :: back) (by simpa using split) rfl
    · simp only [← size, List.length_append, List.length_cons]
      omega
    · exact split ▸ List.mem_append_left _ earlier

theorem InOrder.filter {xs : List α} (ordered : InOrder needs xs) (keep : α → Bool) :
    InOrder (fun x y => needs x y ∧ keep y = true) (xs.filter keep) := by
  intro front x back split y needed
  obtain ⟨first, rest, rfl, rfl, kept⟩ := List.filter_eq_append_iff.mp split
  obtain ⟨second, third, rfl, left, _, rfl⟩ := List.filter_eq_cons_iff.mp kept
  have earlier := ordered (first ++ second) x third (by simp) y needed.1
  -- Between `first` and `x` everything was left out, which `y` is not.
  rcases List.mem_append.mp earlier with inFirst | inSecond
  · exact List.mem_filter.mpr ⟨inFirst, needed.2⟩
  · exact absurd needed.2 (left y inSecond)

theorem InOrder.idxOf_lt [DecidableEq α] {xs : List α} (ordered : InOrder needs xs)
    (distinct : xs.Nodup) {x y : α} (member : x ∈ xs) (needed : needs x y) :
    xs.idxOf y < xs.idxOf x := by
  obtain ⟨front, back, rfl⟩ := List.append_of_mem member
  have earlier : y ∈ front := ordered front x back rfl y needed
  have later : x ∉ front := fun twice =>
    (List.nodup_append.mp distinct).2.2 x twice x List.mem_cons_self rfl
  rw [List.idxOf_append_of_mem earlier, List.idxOf_append_of_notMem later, List.idxOf_cons_self]
  exact Nat.lt_of_lt_of_le (List.idxOf_lt_length_of_mem earlier) (Nat.le_add_right _ _)

/-- An id from which needs lead down only finitely far does not need itself, also not through
others. -/
theorem not_transGen_self {x : α} (finite : Acc (fun y x => needs x y) x) :
    ¬ TransGen needs x x := by
  induction finite with
  | intro x _ ih =>
    intro cycle
    obtain ⟨y, needed, back⟩ := TransGen.head'_iff.mp cycle
    exact ih y needed (TransGen.tail' back needed)

/-! ### Ids in progress -/

/-- The ids that a search has entered and not finished, the innermost first, each with those of its
needs that are still to be looked at. All its other needs are finished, except the one that the
search went on to: the id above it on the stack, or `inner` for the innermost one. -/
inductive Suspended (needs : α → α → Prop) (finished : α → Prop) :
    Option α → List (α × List α) → Prop
  | nil {inner : Option α} : Suspended needs finished inner []
  | cons {inner : Option α} {x : α} {left : List α} {stack : List (α × List α)}
      (looked : ∀ y, needs x y → y ∈ left ∨ inner = some y ∨ finished y)
      (needed : ∀ y, y ∈ left ∨ inner = some y → needs x y)
      (outer : Suspended needs finished (some x) stack) :
      Suspended needs finished inner ((x, left) :: stack)

namespace Suspended

variable {finished : α → Prop} {inner : Option α} {x y : α} {left : List α}
  {stack : List (α × List α)}

theorem mono {later : α → Prop} (kept : ∀ x, finished x → later x)
    (suspended : Suspended needs finished inner stack) : Suspended needs later inner stack := by
  induction suspended with
  | nil => exact nil
  | cons looked needed _ ih =>
    exact cons (fun y n => (looked y n).imp_right (Or.imp_right (kept y))) needed ih

theorem enter (suspended : Suspended needs finished (some y) stack)
    (all : ∀ z, z ∈ left ↔ needs y z) : Suspended needs finished none ((y, left) :: stack) :=
  cons (fun z n => Or.inl ((all z).mpr n))
    (fun z waiting => (all z).mp (waiting.resolve_right nofun)) suspended

/-- The search goes on to the next need of the innermost id. -/
theorem next (suspended : Suspended needs finished none ((x, y :: left) :: stack)) :
    Suspended needs finished (some y) ((x, left) :: stack) := by
  cases suspended with
  | cons looked needed outer =>
    refine cons (fun z n => ?_) (fun z waiting => needed z (Or.inl ?_)) outer
    · rcases looked z n with ahead | went | done
      · rcases List.mem_cons.mp ahead with rfl | later
        · exact Or.inr (Or.inl rfl)
        · exact Or.inl later
      · cases went
      · exact Or.inr (Or.inr done)
    · rcases waiting with later | same
      · exact List.mem_cons_of_mem y later
      · exact Option.some.inj same ▸ List.mem_cons_self

/-- The id that the search went on to is finished. -/
theorem settle (suspended : Suspended needs finished (some y) stack) (done : finished y) :
    Suspended needs finished none stack := by
  cases suspended with
  | nil => exact nil
  | cons looked needed outer =>
    refine cons (fun z n => ?_) (fun z waiting => needed z (waiting.imp_right nofun)) outer
    rcases looked z n with inLeft | same | finished
    · exact Or.inl inLeft
    · exact Or.inr (Or.inr (Option.some.inj same ▸ done))
    · exact Or.inr (Or.inr finished)

/-- When nothing is left to look at, all that the innermost id needs is finished. -/
theorem leave (suspended : Suspended needs finished none ((x, []) :: stack)) :
    (∀ y, needs x y → finished y) ∧ Suspended needs finished (some x) stack := by
  cases suspended with
  | cons looked _ outer =>
    exact ⟨fun y n => ((looked y n).resolve_left nofun).resolve_left nofun, outer⟩

theorem reaches (suspended : Suspended needs finished inner ((x, left) :: stack)) :
    ∀ z ∈ ((x, left) :: stack).map Prod.fst, ReflTransGen needs z x := by
  -- Further down, each id of the stack went on to the one above it.
  have below : ∀ {inner : Option α} {stack : List (α × List α)},
      Suspended needs finished inner stack → ∀ y, inner = some y →
        ∀ z ∈ stack.map Prod.fst, ReflTransGen needs z y := by
    intro inner stack suspended
    induction suspended with
    | nil => simp
    | @cons inner x _ _ _ needed _ ih =>
      intro y went z member
      have step : needs x y := needed y (Or.inr went)
      rcases List.mem_cons.mp member with rfl | deeper
      · exact ReflTransGen.single step
      · exact (ih x rfl z deeper).tail step
  cases suspended with
  | cons _ _ outer =>
    intro z member
    rcases List.mem_cons.mp member with rfl | deeper
    · exact ReflTransGen.refl
    · exact below outer x rfl z deeper

theorem needs_inner (suspended : Suspended needs finished (some y) ((x, left) :: stack)) :
    needs x y := by
  cases suspended with
  | cons _ needed _ => exact needed y (Or.inr rfl)

/-- Each id of the stack is needed by the next one outwards. -/
theorem linked (suspended : Suspended needs finished inner stack) :
    (stack.map Prod.fst).IsChain fun inner outer => needs outer inner := by
  induction suspended with
  | nil => exact .nil
  | @cons _ x _ _ _ _ outer ih =>
    cases outer with
    | nil => exact .singleton x
    | cons _ needed _ => exact .cons_cons (needed x (Or.inr rfl)) ih

/-- What an id of the stack needs is still to be looked at, or is finished, or is in progress. -/
theorem looked_of_mem (suspended : Suspended needs finished inner stack)
    (member : (x, left) ∈ stack) (needed : needs x y) :
    y ∈ left ∨ finished y ∨ y ∈ inner ∨ y ∈ stack.map Prod.fst := by
  induction suspended with
  | nil => cases member
  | @cons _ z _ _ looked _ _ ih =>
    rcases List.mem_cons.mp member with same | deeper
    · cases same
      rcases looked y needed with ahead | went | done
      · exact Or.inl ahead
      · exact Or.inr (Or.inr (Or.inl went))
      · exact Or.inr (Or.inl done)
    · -- The id that a deeper one went on to is the one above it on the stack.
      rcases ih deeper with ahead | done | above | further
      · exact Or.inl ahead
      · exact Or.inr (Or.inl done)
      · obtain rfl : z = y := Option.some.inj above
        exact Or.inr (Or.inr (Or.inr List.mem_cons_self))
      · exact Or.inr (Or.inr (Or.inr (List.mem_cons_of_mem z further)))

end Suspended

end Activation.DepthFirst
