import Activation.Format.Yaml
import Mathlib.Data.List.Forall2
import Mathlib.Logic.Relation

/-!
# What decoding YAML costs

A decoder may follow a limited number of aliases. What it comes to does not depend on that number,
as long as it is large enough. So over a document a decoder has an outcome of its own
(`Yaml.Decoder.Yields`): it refuses, or it gives a value and has a cost.

Two decoders, each over a document of its own, are related if they both refuse, or if they give
related values at the same cost (`Yaml.Decoder.Relates`). Decoders that are put together in the same
way from related ones are related themselves.
-/

namespace Activation.Yaml.Decoder

variable {α β γ δ : Type} {document document' document'' : Node}

/-! ### The outcome of a decoder -/

@[simp] theorem run_get (document : Node) (left : Nat) :
    ((get : Decoder Nat).run document).run left = some (left, left) := rfl

@[simp] theorem run_set (document : Node) (left count : Nat) :
    ((set count : Decoder PUnit).run document).run left = some (⟨⟩, count) := rfl

@[simp] theorem run_read (document : Node) (left : Nat) :
    ((read : Decoder Node).run document).run left = some (document, left) := rfl

@[simp] theorem run_refuse (document : Node) (left : Nat) :
    ((refuse : Decoder α).run document).run left = none := rfl

/-- What a decoder comes to over a document: it refuses, or it gives a value and follows so many
aliases for it. Where it may not follow that many it refuses as well. -/
def Yields (document : Node) (d : Decoder α) (outcome : Option (α × Nat)) : Prop :=
  ∀ left, (d.run document).run left =
    outcome.bind fun found => if found.2 ≤ left then some (found.1, left - found.2) else none

theorem yields_pure (value : α) : Yields document (pure value) (some (value, 0)) := fun _ => rfl

theorem yields_refuse : Yields document (refuse : Decoder α) none := fun _ => rfl

section

variable {d : Decoder α} {next : α → Decoder β} {outcome other : Option (α × Nat)}

/-- A decoder that may follow as many aliases as it likes shows its outcome. -/
theorem Yields.unique (yields : Yields document d outcome) (yields' : Yields document d other) :
    outcome = other := by
  let enough := (outcome.elim 0 Prod.snd) + other.elim 0 Prod.snd
  have same := (yields enough).symm.trans (yields' enough)
  rcases outcome with _ | ⟨value, cost⟩ <;> rcases other with _ | ⟨value', cost'⟩
  · rfl
  · simp [enough] at same
  · simp [enough] at same
  · have affordable : cost ≤ enough ∧ cost' ≤ enough := by simp [enough]
    simp only [Option.bind_some, affordable, if_true, Option.some.injEq, Prod.mk.injEq] at same
    have costs : cost = cost' := by omega
    rw [same.1, costs]

theorem Yields.refused (first : Yields document d none) : Yields document (d >>= next) none := by
  intro left
  rw [ReaderT.run_bind, StateT.run_bind, first left]
  rfl

theorem Yields.refusedThen {value : α} {cost : Nat}
    (first : Yields document d (some (value, cost))) (second : Yields document (next value) none) :
    Yields document (d >>= next) none := by
  intro left
  rw [ReaderT.run_bind, StateT.run_bind, first left, Option.bind_some]
  split
  · exact second (left - cost)
  · rfl

/-- What comes of two decoders one after the other costs what both cost. -/
theorem Yields.andThen {value : α} {result : β} {cost cost' : Nat}
    (first : Yields document d (some (value, cost)))
    (second : Yields document (next value) (some (result, cost'))) :
    Yields document (d >>= next) (some (result, cost + cost')) := by
  intro left
  rw [ReaderT.run_bind, StateT.run_bind, first left, Option.bind_some, Option.bind_some]
  by_cases paid : cost ≤ left
  · have rest : cost' ≤ left - cost ↔ cost + cost' ≤ left := by omega
    simp only [paid, if_true, Option.bind_eq_bind, Option.bind_some, second (left - cost), rest,
      Nat.sub_sub]
  · have more : ¬ cost + cost' ≤ left := by omega
    simp [paid, more]

/-- A document is decoded where its size allows for what that costs. -/
theorem decode?_of_yields {decoder : Node → Decoder α}
    (yields : Yields document (decoder document) outcome) :
    decode? decoder document = outcome.bind fun found =>
      if found.2 ≤ 100 * document.size then some found.1 else none := by
  rw [decode?, StateT.run'_eq, yields]
  cases outcome with
  | none => rfl
  | some found =>
    simp only [Option.bind_some]
    split <;> rfl

end

/-! ### Related decoders -/

/-- Two decoders, each over its document, both refuse, or they give related values at one cost. -/
inductive Relates (document document' : Node) (R : α → β → Prop) (d : Decoder α) (d' : Decoder β) :
    Prop
  | refused (left : Yields document d none) (right : Yields document' d' none)
  | given {value : α} {value' : β} {cost : Nat} (related : R value value')
      (left : Yields document d (some (value, cost)))
      (right : Yields document' d' (some (value', cost)))

variable {R : α → β → Prop} {S : γ → δ → Prop} {d : Decoder α} {d' : Decoder β}

theorem relates_pure {value : α} {value' : β} (related : R value value') :
    Relates document document' R (pure value) (pure value') :=
  .given related (yields_pure value) (yields_pure value')

theorem relates_refuse : Relates document document' R refuse refuse :=
  .refused yields_refuse yields_refuse

theorem Relates.imp {R' : α → β → Prop} (relates : Relates document document' R d d')
    (weaker : ∀ value value', R value value' → R' value value') :
    Relates document document' R' d d' := by
  cases relates with
  | refused left right => exact .refused left right
  | given related left right => exact .given (weaker _ _ related) left right

theorem Relates.bind {next : α → Decoder γ} {next' : β → Decoder δ}
    (first : Relates document document' R d d')
    (second : ∀ value value', R value value' →
      Relates document document' S (next value) (next' value')) :
    Relates document document' S (d >>= next) (d' >>= next') := by
  cases first with
  | refused left right => exact .refused left.refused right.refused
  | given related left right =>
    cases second _ _ related with
    | refused left' right' => exact .refused (left.refusedThen left') (right.refusedThen right')
    | given related left' right' => exact .given related (left.andThen left') (right.andThen right')

theorem Relates.trans {d'' : Decoder γ} {R' : β → γ → Prop}
    (first : Relates document document' R d d')
    (second : Relates document' document'' R' d' d'') :
    Relates document document'' (Relation.Comp R R') d d'' := by
  cases first with
  | refused left middle =>
    cases second with
    | refused _ right => exact .refused left right
    | given _ middle' _ => cases middle.unique middle'
  | given related left middle =>
    cases second with
    | refused middle' _ => cases middle.unique middle'
    | given related' middle' right =>
      cases middle.unique middle'
      exact .given ⟨_, related, related'⟩ left right

theorem relates_optional {A : Node → Node → Prop} {decoder : Node → Decoder α}
    {decoder' : Node → Decoder β} {absent : α} {absent' : β} {node node' : Option Node}
    (each : ∀ node node', A node node' →
      Relates document document' R (decoder node) (decoder' node'))
    (missing : R absent absent') (related : Option.Rel A node node') :
    Relates document document' R (optional decoder absent node)
      (optional decoder' absent' node') := by
  cases related with
  | none => exact relates_pure missing
  | some related => exact each _ _ related

theorem relates_mapM {d : α → Decoder γ} {d' : β → Decoder δ}
    (each : ∀ a b, R a b → Relates document document' S (d a) (d' b)) {as : List α} {bs : List β}
    (related : List.Forall₂ R as bs) :
    Relates document document' (List.Forall₂ S) (as.mapM d) (bs.mapM d') := by
  induction related with
  | nil => exact relates_pure .nil
  | cons related _ ih =>
    simp only [List.mapM_cons]
    refine (each _ _ related).bind fun value value' first => ?_
    exact ih.bind fun values values' later => relates_pure (.cons first later)

/-- It makes no difference which of two decoders runs first. -/
theorem relates_bind_comm {next : α → β → Decoder γ} {next' : α → β → Decoder δ}
    (first : Relates document document Eq d d) (second : Relates document document Eq d' d')
    (later : ∀ a b, Relates document document S (next a b) (next' a b)) :
    Relates document document S (d >>= fun a => d' >>= fun b => next a b)
      (d' >>= fun b => d >>= fun a => next' a b) := by
  cases first with
  | refused no =>
    cases second with
    | refused no' => exact .refused no.refused no'.refused
    | given _ yes' => exact .refused no.refused (yes'.refusedThen no.refused)
  | given _ yes =>
    cases second with
    | refused no' => exact .refused (yes.refusedThen no'.refused) no'.refused
    | given _ yes' =>
      cases later _ _ with
      | refused left right =>
        exact .refused (yes.refusedThen (yes'.refusedThen left))
          (yes'.refusedThen (yes.refusedThen right))
      | given related left right =>
        refine .given related (yes.andThen (yes'.andThen left)) ?_
        rw [Nat.add_left_comm]
        exact yes'.andThen (yes.andThen right)

section

variable {d : α → Decoder β} (steady : ∀ a, Relates document document Eq (d a) (d a))
include steady

theorem relates_mapM_self (as : List α) :
    Relates document document (fun xs ys => xs = ys ∧ xs.length = as.length)
      (as.mapM d) (as.mapM d) := by
  induction as with
  | nil => exact relates_pure ⟨rfl, rfl⟩
  | cons a as ih =>
    simp only [List.mapM_cons]
    refine (steady a).bind fun x y same => ih.bind fun xs ys ⟨same', long⟩ => relates_pure ?_
    exact ⟨congrArg₂ List.cons same same', congrArg (· + 1) long⟩

/-- What many decoders cost together does not depend on the order in which they run. -/
theorem relates_mapM_of_perm {as bs : List α} (arranged : as.Perm bs) :
    Relates document document (fun xs ys => xs.Perm ys ∧ xs.length = as.length)
      (as.mapM d) (bs.mapM d) := by
  induction arranged with
  | nil => exact relates_pure ⟨.nil, rfl⟩
  | cons a _ ih =>
    simp only [List.mapM_cons]
    refine (steady a).bind fun x y same => ih.bind fun xs ys ⟨arranged, long⟩ => ?_
    subst same
    exact relates_pure ⟨arranged.cons x, congrArg (· + 1) long⟩
  | swap a b as =>
    simp only [List.mapM_cons, bind_assoc, pure_bind]
    refine relates_bind_comm (steady b) (steady a) fun y x => ?_
    refine (relates_mapM_self steady as).bind fun xs ys ⟨same, long⟩ => ?_
    subst same
    exact relates_pure ⟨.swap x y xs, congrArg (· + 2) long⟩
  | trans _ _ ih ih' =>
    refine (ih.trans ih').imp fun xs zs => ?_
    rintro ⟨ys, ⟨arranged, long⟩, arranged', -⟩
    exact ⟨arranged.trans arranged', long⟩

end

end Activation.Yaml.Decoder
