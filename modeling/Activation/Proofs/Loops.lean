import Activation.Proofs.Reach
import Mathlib.Data.List.Chain

/-!
# Loops of replacements

A resolution stops where it meets an id of its own chain again. `IsLoop` says what a list must be
like to be a loop of a relation, and `Resolution.isLoop_of_resolveReplacements` that the list which
the resolution reports is a loop of replacements: the chain runs along replacements from each id to
the one inside it (`Resolution.Gathered.linked`), so the part of it above the id that was met again
closes. The converse, that no loop is overlooked, is `Resolution.Complete.finite`.
-/

namespace Activation

open Relation

/-! ### Loops of a relation -/

/-- The list runs along the relation and ends where it starts, and nothing else is repeated. -/
structure IsLoop {α : Type} (needs : α → α → Prop) (loop : List α) : Prop where
  long : 2 ≤ loop.length
  closed : loop.head? = loop.getLast?
  distinct : loop.dropLast.Nodup
  linked : loop.IsChain needs

namespace IsLoop

variable {α : Type} {needs other : α → α → Prop} {loop : List α}

theorem mono (isLoop : IsLoop needs loop) (weaker : ∀ x y, needs x y → other x y) :
    IsLoop other loop :=
  ⟨isLoop.long, isLoop.closed, isLoop.distinct, isLoop.linked.imp fun _ _ => weaker _ _⟩

theorem exists_mem (isLoop : IsLoop needs loop) : ∃ x, x ∈ loop :=
  List.exists_mem_of_length_pos (Nat.lt_of_lt_of_le Nat.two_pos isLoop.long)

theorem transGen (isLoop : IsLoop needs loop) {x : α} (member : x ∈ loop) :
    TransGen needs x x := by
  obtain ⟨long, closed, -, linked⟩ := isLoop
  match loop with
  | first :: second :: rest =>
    have nonempty : first :: second :: rest ≠ [] := List.cons_ne_nil _ _
    have last : (first :: second :: rest).getLast nonempty = first := by
      rw [List.getLast?_eq_some_getLast nonempty] at closed
      exact (Option.some.inj closed).symm
    -- From the first member the loop comes to `x`, and from `x` to the last one, the first again.
    have forth : ReflTransGen needs first x :=
      linked.induction (ReflTransGen needs first) _
        (fun _ _ step reached => reached.tail step) (fun _ => .refl) x member
    have back : ∀ y ∈ first :: second :: rest, ReflTransGen needs y first :=
      linked.backwards_induction (ReflTransGen needs · first) _
        (fun _ _ step reached => .head step reached) (fun _ => last.symm ▸ .refl)
    have step : needs first second := (List.isChain_cons_cons.mp linked).1
    have around : TransGen needs first first := .head' step (back second (by simp))
    exact (around.trans_left forth).trans_right (back x member)

end IsLoop

namespace Resolution

variable {deprecated : IdMap CandidateRecord} {resolved : IdMap IdSet} {r s : Resolution}
  {id : CandidateId}

/-! ### The loop that is reported -/

/-- Each id of the chain was entered as a replacement of the next one outwards. -/
theorem Gathered.linked {path : List Redirect}
    (gathered : Gathered deprecated resolved (some id) path) :
    (id :: path.map Redirect.id).IsChain fun inner outer => Replaces deprecated outer inner := by
  induction path generalizing id with
  | nil => exact .singleton id
  | cons frame path ih =>
    cases gathered with
    | @cons _ _ _ record looked found split settled given outer =>
      have replaces : id ∈ record.replacements := by
        rw [← IdSet.mem_toList, split]
        simp
      exact .cons_cons ⟨record, found, replaces⟩ (ih outer)

theorem loopAt_append {front back : List CandidateId} (fresh : id ∉ front) :
    loopAt (front ++ id :: back) id = (id :: front.reverse) ++ [id] := by
  have passed : ∀ other ∈ front, (other != id) = true := by
    intro other member
    simpa using fun same : other = id => fresh (same ▸ member)
  simp [loopAt, List.takeWhile_append_of_pos passed]

/-- Where a chain without repetitions is met again, its part above that id closes a loop. -/
theorem isLoop_loopAt {needs : CandidateId → CandidateId → Prop} {chain : List CandidateId}
    (distinct : chain.Nodup) (member : id ∈ chain)
    (linked : (id :: chain).IsChain fun inner outer => needs outer inner) :
    IsLoop needs (loopAt chain id) := by
  obtain ⟨front, back, rfl, fresh⟩ := List.eq_append_cons_of_mem member
  rw [loopAt_append fresh]
  refine ⟨by simp, ?_, ?_, ?_⟩
  · rw [List.getLast?_concat]
    rfl
  · rw [List.dropLast_concat, List.nodup_cons, List.mem_reverse, List.nodup_reverse]
    exact ⟨fresh, (List.nodup_append.mp distinct).1⟩
  · -- The chain lists the innermost id first, the loop the outermost one.
    have inward : (id :: (front ++ [id])).IsChain fun inner outer => needs outer inner :=
      linked.prefix ⟨back, by simp⟩
    rw [← List.isChain_reverse] at inward
    simpa using inward

/-- A step that closes a loop has met an id of the chain. -/
theorem Move.closing (running : r.loop = none) (move : Move deprecated r s)
    {loop : List CandidateId} (closed : s.loop = some loop) :
    ∃ id ∈ s.chain, loop = loopAt s.chain id := by
  cases move with
  | @close frame path id pending inProgress left met =>
    obtain rfl : loopAt r.chain id = loop := Option.some.inj closed
    have same : r.chain = frame.id :: path.map Redirect.id := by
      simp only [chain, inProgress, List.map_cons]
    exact ⟨id, same ▸ met, by rw [same]; rfl⟩
  | skip => rw [running] at closed; cases closed
  | begin => simp only [enter, running, reduceCtorEq] at closed
  | finish => simp only [running, reduceCtorEq] at closed
  | reuse => simp only [running, reduceCtorEq] at closed
  | keep => simp only [running, reduceCtorEq] at closed
  | follow => simp only [enter, running, reduceCtorEq] at closed

theorem closing_of_steps (steps : Process.Steps (step deprecated) (start deprecated) r)
    {loop : List CandidateId} (closed : r.loop = some loop) :
    ∃ id ∈ r.chain, loop = loopAt r.chain id := by
  cases steps with
  | refl => cases closed
  | tail _ taken =>
    obtain ⟨running, move⟩ := move_of_step taken
    exact move.closing running closed

/-- The list with which a resolution stops is a loop of replacements. -/
theorem isLoop_of_resolveReplacements {loop : List CandidateId}
    (failed : resolveReplacements deprecated = .error loop) :
    IsLoop (Replaces deprecated) loop := by
  have steps : Process.Steps (step deprecated) (start deprecated) (run deprecated) :=
    (Process.steps_run (halts deprecated)).1
  simp only [resolveReplacements] at failed
  split at failed
  next closed =>
    cases failed
    obtain ⟨id, member, rfl⟩ := closing_of_steps steps closed
    have consistent := consistent_of_steps steps
    have gathered := consistent.gathered
    rw [closed] at gathered
    exact isLoop_loopAt consistent.distinct member gathered.linked
  next => cases failed

end Resolution

end Activation
