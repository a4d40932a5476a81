import Activation.Proofs.Order
import Activation.Proofs.Validation

/-!
# What validation finds in a run

`runProblem?` says what is wrong at one position of a run, given all of its candidates: the id there
is blank, or it is not and stands further in front as well. The validator goes through the
candidates once and remembers the ids that it has passed. `Remembers` relates these to the
candidates that it has passed, blank ones aside, so what it tells is what is wrong at each position
(`validateFrom_eq`).

`validateCandidates_exact` is the result for all runs. It ends with what validation is for: an order
of a valid run whose candidates are not retired holds each of them, so none was lost to a
repetition.
-/

namespace Activation

open CandidateGraph

instance : DecidablePred CandidateId.Blank := fun _ => decidable_of_iff _ CandidateId.isBlank_iff

/-- What is wrong at a position of a run, if anything. A blank id is never a repetition. -/
def runProblem? (candidates : List CandidateId) (position : Nat) : Option ValidationError := do
  let id ← candidates[position]?
  if id.Blank then some (.blankCandidateId (.candidate position))
  else if id ∈ candidates.take position then some (.duplicateCandidateId id)
  else none

variable {candidates front rest seen : List CandidateId} {id : CandidateId} {position : Nat}

/-! ### Position by position -/

/-- Blank ids aside, what was seen is what was passed. -/
def Remembers (seen front : List CandidateId) : Prop := ∀ id, ¬ id.Blank → (id ∈ seen ↔ id ∈ front)

theorem Remembers.blank (remembers : Remembers seen front) (blank : id.Blank) :
    Remembers seen (front ++ [id]) := by
  intro other named
  have differ : other ≠ id := fun same => named (same ▸ blank)
  simp [remembers other named, differ]

theorem Remembers.again (remembers : Remembers seen front) (passed : id ∈ front) :
    Remembers seen (front ++ [id]) := by
  intro other named
  rw [remembers other named, List.mem_append, List.mem_singleton]
  constructor
  · exact Or.inl
  · rintro (member | rfl)
    · exact member
    · exact passed

theorem Remembers.first (remembers : Remembers seen front) :
    Remembers (id :: seen) (front ++ [id]) := by
  intro other named
  simp [remembers other named, or_comm]

theorem runProblem?_of_split :
    runProblem? (front ++ id :: rest) front.length =
      if id.Blank then some (.blankCandidateId (.candidate front.length))
      else if id ∈ front then some (.duplicateCandidateId id)
      else none := by
  simp [runProblem?]

/-- Behind the candidates that it has passed, the validator tells what is wrong at each position. -/
theorem validateFrom_eq (front rest : List CandidateId) (remembers : Remembers seen front) :
    validateFrom front.length seen rest =
      (List.range' front.length rest.length).filterMap (runProblem? (front ++ rest)) := by
  induction rest generalizing front seen with
  | nil => rfl
  | cons id rest ih =>
    -- The candidate that is looked at now is the last one passed by those behind it.
    have behind {seen : List CandidateId} (remembers : Remembers seen (front ++ [id])) :
        (List.range' (front.length + 1) rest.length).filterMap (runProblem? (front ++ id :: rest)) =
          validateFrom (front.length + 1) seen rest := by
      simpa using (ih (front ++ [id]) remembers).symm
    rw [List.length_cons, List.range'_succ, List.filterMap_cons, runProblem?_of_split]
    unfold validateFrom
    by_cases blank : id.Blank
    · simp [CandidateId.isBlank_iff, blank, behind (remembers.blank blank)]
    · have again := remembers id blank
      by_cases passed : id ∈ front
      · simp [CandidateId.isBlank_iff, blank, again, passed, behind (remembers.again passed)]
      · simp [CandidateId.isBlank_iff, blank, again, passed, behind remembers.first]

theorem validateCandidates_eq (given : candidates ≠ []) :
    validateCandidates candidates =
      (List.range candidates.length).filterMap (runProblem? candidates) := by
  have whole : validateFrom 0 [] candidates =
      (List.range' 0 candidates.length).filterMap (runProblem? candidates) :=
    validateFrom_eq [] candidates fun _ _ => Iff.rfl
  rw [List.range_eq_range', ← whole]
  cases candidates with
  | nil => exact absurd rfl given
  | cons id rest => rfl

/-! ### Valid runs -/

theorem validateFrom_eq_nil_iff :
    validateFrom position seen candidates = [] ↔
      (∀ id ∈ candidates, ¬ id.Blank) ∧ candidates.Nodup ∧ ∀ id ∈ candidates, id ∉ seen := by
  induction candidates generalizing position seen with
  | nil => simp [validateFrom]
  | cons id rest ih =>
    unfold validateFrom
    rw [List.forall_mem_cons, List.nodup_cons, List.forall_mem_cons, ← CandidateId.isBlank_iff]
    split
    next blank => simp [blank]
    next named =>
      split
      next again => simp [again]
      next new =>
        rw [ih]
        constructor
        · rintro ⟨allNamed, distinct, fresh⟩
          have absent : id ∉ rest := fun later => fresh id later List.mem_cons_self
          exact ⟨⟨named, allNamed⟩, ⟨absent, distinct⟩, new,
            fun other later old => fresh other later (List.mem_cons_of_mem id old)⟩
        · rintro ⟨⟨-, allNamed⟩, ⟨absent, distinct⟩, -, fresh⟩
          refine ⟨allNamed, distinct, fun other later => ?_⟩
          rw [List.mem_cons]
          rintro (rfl | old)
          · exact absent later
          · exact fresh other later old

theorem validateCandidates_eq_nil_iff :
    validateCandidates candidates = [] ↔
      candidates ≠ [] ∧ (∀ id ∈ candidates, ¬ id.Blank) ∧ candidates.Nodup := by
  cases candidates with
  | nil => simp [validateCandidates]
  | cons id rest => simp [validateCandidates, validateFrom_eq_nil_iff]

/-- An id is told to be repeated for each of its places but the first one. -/
theorem count_validateFrom :
    (validateFrom position seen candidates).count (.duplicateCandidateId id) =
      if id.Blank then 0
      else if id ∈ seen then candidates.count id
      else candidates.count id - 1 := by
  induction candidates generalizing position seen with
  | nil => simp [validateFrom]
  | cons other rest ih =>
    simp only [validateFrom, CandidateId.isBlank_iff]
    by_cases same : other = id
    · subst same
      by_cases blank : other.Blank
      · simp [blank, ih]
      · by_cases again : other ∈ seen <;> simp [blank, again, ih]
    · have later : id ∈ other :: seen ↔ id ∈ seen := by simp [Ne.symm same]
      by_cases blank : other.Blank
      · simp [blank, same, ih]
      · by_cases again : other ∈ seen <;> simp [blank, again, same, ih, later]

theorem count_validateCandidates :
    (validateCandidates candidates).count (.duplicateCandidateId id) =
      if id.Blank then 0 else candidates.count id - 1 := by
  cases candidates with
  | nil => simp [validateCandidates]
  | cons first rest => simp [validateCandidates, count_validateFrom]

/-! ### Orders of valid runs -/

/-- Where no candidate is retired, an order holds the candidates and nothing else. -/
theorem mem_of_orderCandidates_of_live {source : Source} {explorable : source.Explorable candidates}
    {out : List CandidateId}
    (live : ∀ id ∈ candidates, (source.record id).isDeprecated = false)
    (ordered : (orderCandidates source candidates explorable).value = .ok out) :
    out.Nodup ∧ ∀ id, id ∈ out ↔ id ∈ candidates := by
  obtain ⟨graph, built, sorted⟩ := orderCandidates_eq_ok_iff.mp ordered
  have described := describes_of_build built
  refine ⟨nodup_of_sort_eq_ok sorted, fun id => ?_⟩
  rw [mem_of_sort_eq_ok sorted, mem_requested]
  constructor
  · rintro ⟨name, given, standsFor⟩
    rw [described.resolve_of_live (live name given), List.mem_singleton] at standsFor
    exact standsFor ▸ given
  · intro given
    refine ⟨id, given, ?_⟩
    rw [described.resolve_of_live (live id given)]
    exact List.mem_singleton_self id

/-- A run is valid exactly where it has candidates, none of them blank and none of them twice. A run
without candidates has that one problem. Any other run has those of its positions, in their order;
an id that is not blank is told to be repeated for each of its places but the first one. If no
candidate of a valid run is retired, then an order of them is an arrangement of them. -/
theorem validateCandidates_exact (candidates : List CandidateId) :
    (validateCandidates candidates = [] ↔
      candidates ≠ [] ∧ (∀ id ∈ candidates, ¬ id.Blank) ∧ candidates.Nodup) ∧
    validateCandidates candidates =
      (if candidates = [] then [.noCandidates]
        else (List.range candidates.length).filterMap (runProblem? candidates)) ∧
    (∀ id, (validateCandidates candidates).count (.duplicateCandidateId id) =
      if id.Blank then 0 else candidates.count id - 1) ∧
    ∀ (source : Source) (explorable : source.Explorable candidates) (out : List CandidateId),
      validateCandidates candidates = [] →
      (∀ id ∈ candidates, (source.record id).isDeprecated = false) →
      (orderCandidates source candidates explorable).value = .ok out → out.Perm candidates := by
  refine ⟨validateCandidates_eq_nil_iff, ?_, fun id => count_validateCandidates, ?_⟩
  · split
    next none => rw [none, validateCandidates]
    next given => exact validateCandidates_eq given
  · intro source explorable out valid live ordered
    obtain ⟨-, -, distinct⟩ := validateCandidates_eq_nil_iff.mp valid
    obtain ⟨arranged, members⟩ := mem_of_orderCandidates_of_live live ordered
    exact (List.perm_ext_iff_of_nodup arranged distinct).mpr members

theorem validateCandidates_exact_webStack :
    validateCandidates [⟨"web"⟩, ⟨"pg"⟩] = [] ∧
      (∀ id ∈ [⟨"web"⟩, ⟨"pg"⟩], (webStack.source.record id).isDeprecated = false) ∧
      ∃ out, (orderCandidates webStack.source [⟨"web"⟩, ⟨"pg"⟩]
          (webStack.source_finite.explorable _)).value = .ok out ∧
        out = [⟨"pg"⟩, ⟨"web"⟩] ∧ out.Perm [⟨"web"⟩, ⟨"pg"⟩] := by
  obtain ⟨iff, -, -, arranges⟩ := validateCandidates_exact [⟨"web"⟩, ⟨"pg"⟩]
  have valid : validateCandidates [⟨"web"⟩, ⟨"pg"⟩] = [] := iff.mpr (by decide)
  have live : ∀ id ∈ [⟨"web"⟩, ⟨"pg"⟩], (webStack.source.record id).isDeprecated = false := by
    decide
  obtain ⟨out, ordered, listed⟩ : ∃ out, (orderCandidates webStack.source [⟨"web"⟩, ⟨"pg"⟩]
      (webStack.source_finite.explorable _)).value = .ok out ∧ out = [⟨"pg"⟩, ⟨"web"⟩] :=
    exists_eq_ok_of_check (by cbv)
  exact ⟨valid, live, out, ordered, listed, arranges _ _ out valid live ordered⟩

/-- The blank id at the end is not told to be repeated, and `a` is for its second and third place.
-/
example :
    validateCandidates [⟨""⟩, ⟨"a"⟩, ⟨"b"⟩, ⟨"a"⟩, ⟨"a"⟩, ⟨""⟩] =
      [.blankCandidateId (.candidate 0), .duplicateCandidateId ⟨"a"⟩, .duplicateCandidateId ⟨"a"⟩,
        .blankCandidateId (.candidate 5)] := by
  decide

end Activation
