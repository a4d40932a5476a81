/-!
# Processes

A deterministic process is a step function on states: `step s` is the next state, or `none` when
`s` is final. Where a process halts it can be run to its end, and every property that a step keeps
holds at each moment of the run and at its end.

`Halts.of_measure` is how processes here are shown to halt: a pair of numbers that falls, first
component first, while an invariant holds.
-/

namespace Activation.Process

variable {σ : Type}

/-- The second state is the first or a later one of the same run. -/
inductive Steps (step : σ → Option σ) (start : σ) : σ → Prop
  | refl : Steps step start start
  | tail {s t : σ} : Steps step start s → step s = some t → Steps step start t

/-- Only finitely many steps follow a state. -/
def Halts (step : σ → Option σ) (s : σ) : Prop := Acc (fun t s => step s = some t) s

theorem Halts.next {step : σ → Option σ} {s t : σ} (halts : Halts step s)
    (taken : step s = some t) : Halts step t := Acc.inv halts taken

instance (step : σ → Option σ) : WellFoundedRelation { s // Halts step s } where
  rel t s := step s.1 = some t.1
  wf := by
    constructor
    rintro ⟨s, halts⟩
    induction halts with
    | intro s _ ih => exact ⟨_, fun ⟨t, _⟩ taken => ih t taken⟩

/-- The final state of a process that halts. -/
def run (step : σ → Option σ) (s : σ) (halts : Halts step s) : σ :=
  match taken : step s with
  | none => s
  | some t => run step t (halts.next taken)
termination_by (⟨s, halts⟩ : { s // Halts step s })
decreasing_by exact taken

/-- The state after at most so many steps. -/
def advance (step : σ → Option σ) : Nat → σ → σ
  | 0, s => s
  | n + 1, s =>
    match step s with
    | none => s
    | some t => advance step n t

theorem Steps.trans {step : σ → Option σ} {s t u : σ} (first : Steps step s t)
    (second : Steps step t u) : Steps step s u := by
  induction second with
  | refl => exact first
  | tail _ taken ih => exact ih.tail taken

theorem Steps.head {step : σ → Option σ} {s t u : σ} (taken : step s = some t)
    (rest : Steps step t u) : Steps step s u := (Steps.refl.tail taken).trans rest

/-- What holds at the start and is kept by each step holds at each moment. -/
theorem Steps.invariant {step : σ → Option σ} {s t : σ} (inv : σ → Prop)
    (kept : ∀ s t, inv s → step s = some t → inv t) (initial : inv s) (steps : Steps step s t) :
    inv t := by
  induction steps with
  | refl => exact initial
  | tail _ taken ih => exact kept _ _ ih taken

theorem run_of_final {step : σ → Option σ} {s : σ} (halts : Halts step s) (final : step s = none) :
    run step s halts = s := by
  unfold run
  split
  next => rfl
  next t taken => rw [final] at taken; cases taken

theorem run_of_step {step : σ → Option σ} {s t : σ} (halts : Halts step s)
    (taken : step s = some t) : run step s halts = run step t (halts.next taken) := by
  conv => lhs; unfold run
  split
  next final => rw [taken] at final; cases final
  next u other =>
    have same : t = u := Option.some.inj (taken.symm.trans other)
    subst same
    rfl

/-- A run passes from its start to its end by steps, and no step follows the end. -/
theorem steps_run {step : σ → Option σ} {s : σ} (halts : Halts step s) :
    Steps step s (run step s halts) ∧ step (run step s halts) = none := by
  have whole : ∀ s (halts : Halts step s),
      Steps step s (run step s halts) ∧ step (run step s halts) = none := by
    intro s halts
    induction halts with
    | intro s later ih =>
      match taken : step s with
      | none =>
        rw [run_of_final ⟨s, later⟩ taken]
        exact ⟨.refl, taken⟩
      | some t =>
        rw [run_of_step ⟨s, later⟩ taken]
        exact ⟨.head taken (ih t taken).1, (ih t taken).2⟩
  exact whole s halts

/-- A run ends where the run from any of its states ends. -/
theorem run_of_steps {step : σ → Option σ} {s t : σ} (steps : Steps step s t)
    (halts : Halts step s) : ∃ later : Halts step t, run step s halts = run step t later := by
  induction steps with
  | refl => exact ⟨halts, rfl⟩
  | tail _ taken ih =>
    obtain ⟨later, same⟩ := ih
    exact ⟨later.next taken, same.trans (run_of_step later taken)⟩

/-- Two processes that take related steps from related states, unless they may part there, come to
related states where they may part. -/
theorem Halts.side_by_side {τ : Type} {step : σ → Option σ} {step' : τ → Option τ}
    (related part : σ → τ → Prop)
    (together : ∀ s t, related s t →
      part s t ∨ ∃ s' t', step s = some s' ∧ step' t = some t' ∧ related s' t')
    {s : σ} {t : τ} (halts : Halts step s) (initial : related s t) :
    ∃ s' t', Steps step s s' ∧ Steps step' t t' ∧ related s' t' ∧ part s' t' := by
  -- The induction is on what follows in the first process. That the second one halts is not needed:
  -- it only goes as far as the first.
  induction halts generalizing t with
  | intro s _ ih =>
    rcases together s t initial with parted | ⟨s', t', taken, taken', next⟩
    · exact ⟨s, t, .refl, .refl, initial, parted⟩
    · obtain ⟨u, v, steps, steps', ends⟩ := ih s' taken next
      exact ⟨u, v, .head taken steps, .head taken' steps', ends⟩

/-- Where each step of the one process is a step of the other one as well, or cannot be seen there, the
end of the one run is seen as the end of the other. -/
theorem run_eq_view {τ : Type} {step : σ → Option σ} {step' : τ → Option τ} (view : τ → σ)
    {s : σ} {t : τ} (started : view t = s) (halts : Halts step s) (halts' : Halts step' t)
    (shown : ∀ u v, Steps step' t u → step' u = some v →
      view v = view u ∨ step (view u) = some (view v))
    (final : ∀ u, Steps step' t u → step' u = none → step (view u) = none) :
    run step s halts = view (run step' t halts') := by
  induction halts' generalizing s with
  | intro t later ih =>
    subst started
    match taken : step' t with
    | none => rw [run_of_final ⟨t, later⟩ taken, run_of_final halts (final t .refl taken)]
    | some u =>
      have rest {s : σ} (same : view u = s) (halts : Halts step s) :
          run step s halts = view (run step' u (later u taken)) :=
        ih u taken same halts (fun v w steps => shown v w (.head taken steps))
          fun v steps => final v (.head taken steps)
      rw [run_of_step ⟨t, later⟩ taken]
      rcases shown t u .refl taken with unseen | seen
      · exact rest unseen halts
      · rw [run_of_step halts seen, rest rfl]

/-- A state that is so many steps ahead belongs to the run. -/
theorem steps_advance (step : σ → Option σ) (n : Nat) (s : σ) : Steps step s (advance step n s) := by
  induction n generalizing s with
  | zero => exact .refl
  | succ n ih =>
    match taken : step s with
    | none =>
      simp only [advance, taken]
      exact .refl
    | some t =>
      simp only [advance, taken]
      exact .head taken (ih t)

/-! ### The moments of a run -/

/-- The moments at which a run takes a step, the first one in front. -/
def moments (step : σ → Option σ) (s : σ) (halts : Halts step s) : List σ :=
  match taken : step s with
  | none => []
  | some t => s :: moments step t (halts.next taken)
termination_by (⟨s, halts⟩ : { s // Halts step s })
decreasing_by exact taken

theorem moments_of_final {step : σ → Option σ} {s : σ} (halts : Halts step s)
    (final : step s = none) : moments step s halts = [] := by
  unfold moments
  split
  next => rfl
  next t taken => rw [final] at taken; cases taken

theorem moments_of_step {step : σ → Option σ} {s t : σ} (halts : Halts step s)
    (taken : step s = some t) : moments step s halts = s :: moments step t (halts.next taken) := by
  conv => lhs; unfold moments
  split
  next final => rw [taken] at final; cases final
  next u other =>
    have same : t = u := Option.some.inj (taken.symm.trans other)
    subst same
    rfl

theorem Steps.eq_or_head {step : σ → Option σ} {s t : σ} (steps : Steps step s t) :
    s = t ∨ ∃ u, step s = some u ∧ Steps step u t := by
  induction steps with
  | refl => exact Or.inl rfl
  | tail _ taken ih =>
    rcases ih with rfl | ⟨u, first, rest⟩
    · exact Or.inr ⟨_, taken, .refl⟩
    · exact Or.inr ⟨u, first, rest.tail taken⟩

/-- Every state of a run that is not its last one is among its moments. -/
theorem mem_moments {step : σ → Option σ} {s t u : σ} (halts : Halts step s)
    (steps : Steps step s t) (taken : step t = some u) : t ∈ moments step s halts := by
  induction halts with
  | intro s later ih =>
    rcases steps.eq_or_head with rfl | ⟨v, first, rest⟩
    · rw [moments_of_step ⟨s, later⟩ taken]
      exact List.mem_cons_self
    · rw [moments_of_step ⟨s, later⟩ first]
      exact List.mem_cons_of_mem s (ih v first rest)

/-- A process that takes the same steps halts as well, at the same end. -/
theorem Halts.congr {step step' : σ → Option σ} {s : σ} (halts : Halts step s)
    (same : ∀ t, Steps step s t → step' t = step t) :
    ∃ halts' : Halts step' s, run step' s halts' = run step s halts := by
  induction halts with
  | intro s later ih =>
    have first := same s .refl
    match taken : step s with
    | none =>
      have final : step' s = none := first.trans taken
      have halts' : Halts step' s := ⟨s, fun t next => by rw [final] at next; cases next⟩
      refine ⟨halts', ?_⟩
      rw [run_of_final halts' final, run_of_final ⟨s, later⟩ taken]
    | some t =>
      have taken' : step' s = some t := first.trans taken
      obtain ⟨rest, ends⟩ := ih t taken fun u steps => same u (.head taken steps)
      have halts' : Halts step' s := by
        refine ⟨s, fun u next => ?_⟩
        obtain rfl : t = u := Option.some.inj (taken'.symm.trans next)
        exact rest
      refine ⟨halts', ?_⟩
      rw [run_of_step halts' taken', run_of_step ⟨s, later⟩ taken]
      exact ends

/-- Where each step adds to a log what its moment gives, the log of the end holds what all moments
gave. -/
theorem perm_filterMap_moments {α : Type} {step : σ → Option σ} (gives : σ → Option α)
    (log : σ → List α) {s : σ} (halts : Halts step s)
    (logged : ∀ t u, Steps step s t → step t = some u → (log u).Perm (log t ++ (gives t).toList)) :
    (log (run step s halts)).Perm (log s ++ (moments step s halts).filterMap gives) := by
  induction halts with
  | intro s later ih =>
    match taken : step s with
    | none =>
      rw [run_of_final ⟨s, later⟩ taken, moments_of_final ⟨s, later⟩ taken, List.filterMap_nil,
        List.append_nil]
    | some t =>
      have rest := ih t taken fun u v steps => logged u v (.head taken steps)
      have first := logged s t .refl taken
      rw [run_of_step ⟨s, later⟩ taken, moments_of_step ⟨s, later⟩ taken]
      refine rest.trans ((first.append_right _).trans ?_)
      rw [List.append_assoc]
      cases given : gives s with
      | none => rw [List.filterMap_cons_none given]; rfl
      | some a => rw [List.filterMap_cons_some given]; rfl

/-- A process halts where each step lowers a pair of numbers, the first counting before the
second, as long as an invariant that the steps keep holds. -/
theorem Halts.of_measure {step : σ → Option σ} (inv : σ → Prop) (outer inner : σ → Nat)
    (kept : ∀ s t, inv s → step s = some t → inv t)
    (falls : ∀ s t, inv s → step s = some t →
      outer t < outer s ∨ (outer t = outer s ∧ inner t < inner s))
    {s : σ} (initial : inv s) : Halts step s := by
  have byOuter : ∀ m n s, inv s → outer s = m → inner s = n → Halts step s := by
    intro m
    induction m using Nat.strongRecOn with
    | ind m ihOuter =>
      intro n
      induction n using Nat.strongRecOn with
      | ind n ihInner =>
        intro s holds atOuter atInner
        refine ⟨s, fun t taken => ?_⟩
        rcases falls s t holds taken with lower | ⟨same, lower⟩
        · exact ihOuter _ (atOuter ▸ lower) _ t (kept s t holds taken) rfl rfl
        · exact ihInner _ (atInner ▸ lower) t (kept s t holds taken) (same.trans atOuter) rfl
  exact byOuter _ _ s initial rfl rfl

/-- Fewer members of a list are left when none has come back and one is gone. -/
theorem countP_lt_countP {α : Type} {p q : α → Bool} {xs : List α}
    (le : ∀ x, q x = true → p x = true) {a : α} (member : a ∈ xs) (before : p a = true)
    (after : q a = false) : xs.countP q < xs.countP p := by
  induction xs with
  | nil => cases member
  | cons x xs ih =>
    have rest : xs.countP q ≤ xs.countP p := List.countP_mono_left fun x _ => le x
    by_cases same : a = x
    · subst same
      rw [List.countP_cons_of_pos before, List.countP_cons_of_neg (by simp [after])]
      omega
    · have later : a ∈ xs := by
        rcases List.mem_cons.mp member with rfl | later
        · exact absurd rfl same
        · exact later
      have fewer := ih later
      rw [List.countP_cons, List.countP_cons]
      by_cases left : q x = true
      · simp only [left, le x left, if_true]
        omega
      · simp only [left, Bool.false_eq_true, if_false]
        omega

end Activation.Process
