import Activation.Validation
import Mathlib.Data.List.Forall2

/-!
# What validation finds

`IndexEntry.Problem` says, without a validator, what is wrong with an entry of an index, and
`IndexEntry.Report` what a list of problems must be to tell it: each problem is there, nothing else
is, and they stand list by list. An entry has just one report (`IndexEntry.Report.unique`), and that
is what the validator writes (`report_validateEntry`).

`validateIndex_exact` puts the entries together: the problems of an index are the reports of its
entries, in the order of the index, and there is none exactly where all entries are sound.
-/

namespace Activation

/-- The id is empty, or all of it is white space. -/
def CandidateId.Blank (id : CandidateId) : Prop :=
  ∀ c ∈ id.text.toList, Text.isWhiteSpace c = true

theorem CandidateId.isBlank_iff {id : CandidateId} : id.isBlank = true ↔ id.Blank :=
  List.all_eq_true

namespace IndexEntry

/-- Nothing is wrong with the entry of the id: neither the id nor any listed one is blank, and the
id is in none of the lists. -/
def Sound (entry : IndexEntry) (id : CandidateId) : Prop :=
  ¬ id.Blank ∧ ∀ relation : Relation,
    id ∉ relation.targets entry ∧ ∀ target ∈ relation.targets entry, ¬ target.Blank

/-- What can be wrong with the entry of an id. The lists only count where the id itself can be
named. -/
inductive Problem (entry : IndexEntry) (id : CandidateId) : ValidationError → Prop
  | blankKey (blank : id.Blank) : Problem entry id (.blankCandidateId .indexKey)
  | blankTarget {relation : Relation} {target : CandidateId} (named : ¬ id.Blank)
      (listed : target ∈ relation.targets entry) (blank : target.Blank) :
      Problem entry id (.blankCandidateId (.target id relation))
  | selfReference {relation : Relation} (named : ¬ id.Blank) (edge : relation ≠ .replacedBy)
      (listed : id ∈ relation.targets entry) : Problem entry id (.selfReference id relation)
  | selfReplacement (named : ¬ id.Blank) (listed : id ∈ entry.replacedBy) :
      Problem entry id (.selfReplacement id)

end IndexEntry

/-- The lists of an entry in the order in which they are looked at. -/
def Relation.rank : Relation → Nat
  | before => 0
  | after => 1
  | replacedBy => 2

/-- Where a problem stands among those of its entry: list by list, and of one list the blank ids
before the entry's own id. -/
def ValidationError.place : ValidationError → Nat
  | blankCandidateId (.target _ relation) => 2 * relation.rank
  | selfReference _ relation => 2 * relation.rank + 1
  | selfReplacement _ => 2 * Relation.replacedBy.rank + 1
  | _ => 0

namespace IndexEntry

/-- The list tells all that is wrong with the entry of an id: each problem once and in its place,
and nothing else. -/
structure Report (entry : IndexEntry) (id : CandidateId) (errors : List ValidationError) :
    Prop where
  exact : ∀ error, error ∈ errors ↔ entry.Problem id error
  ordered : errors.Pairwise fun first second => first.place < second.place

variable {entry : IndexEntry} {id : CandidateId} {errors others : List ValidationError}

/-- There is only one way to tell it. -/
theorem Report.unique (report : entry.Report id errors) (other : entry.Report id others) :
    errors = others := by
  have distinct {errors : List ValidationError} (report : entry.Report id errors) :
      errors.Nodup := by
    refine report.ordered.imp fun less same => ?_
    rw [same] at less
    omega
  have same : errors.Perm others := by
    rw [List.perm_ext_iff_of_nodup (distinct report) (distinct other)]
    exact fun error => (report.exact error).trans (other.exact error).symm
  -- Two arrangements of the same problems that both go strictly up are one.
  refine same.eq_of_pairwise (fun first second _ _ less more => ?_) report.ordered other.ordered
  omega

end IndexEntry

/-! ### The report of an entry -/

theorem place_selfError (id : CandidateId) (relation : Relation) :
    (selfError id relation).place = 2 * relation.rank + 1 := by
  cases relation <;> rfl

variable {entry : IndexEntry} {id : CandidateId} {relation : Relation} {error : ValidationError}

theorem mem_validateTargets :
    error ∈ validateTargets id entry relation ↔
      (error = .blankCandidateId (.target id relation) ∧
        ∃ target ∈ relation.targets entry, target.Blank) ∨
      (error = selfError id relation ∧ id ∈ relation.targets entry) := by
  have blank : (relation.targets entry).any CandidateId.isBlank = true ↔
      ∃ target ∈ relation.targets entry, target.Blank := by
    simp only [List.any_eq_true, CandidateId.isBlank_iff]
  simp only [validateTargets, blank, List.mem_append]
  apply or_congr
  · split <;> simp_all
  · split <;> simp_all

theorem place_of_mem_validateTargets (member : error ∈ validateTargets id entry relation) :
    2 * relation.rank ≤ error.place ∧ error.place ≤ 2 * relation.rank + 1 := by
  rcases mem_validateTargets.mp member with ⟨rfl, -⟩ | ⟨rfl, -⟩
  · simp [ValidationError.place]
  · rw [place_selfError]
    omega

theorem pairwise_validateTargets (id : CandidateId) (entry : IndexEntry) (relation : Relation) :
    (validateTargets id entry relation).Pairwise fun first second => first.place < second.place := by
  have below : ValidationError.place (.blankCandidateId (.target id relation)) <
      (selfError id relation).place := by
    rw [place_selfError, ValidationError.place]
    omega
  simp only [validateTargets]
  split <;> split <;> simp [below]

theorem problem_selfError_iff (named : ¬ id.Blank) :
    entry.Problem id (selfError id relation) ↔ id ∈ relation.targets entry := by
  constructor
  · intro problem
    cases relation <;> cases problem <;> assumption
  · intro listed
    cases relation with
    | before => exact .selfReference named (by simp) listed
    | after => exact .selfReference named (by simp) listed
    | replacedBy => exact .selfReplacement named listed

/-- Of an entry that cannot be named nothing but that is wrong. -/
theorem problem_iff_of_blank (blank : id.Blank) :
    entry.Problem id error ↔ error = .blankCandidateId .indexKey := by
  constructor
  · intro problem
    cases problem <;> first | rfl | contradiction
  · rintro rfl
    exact .blankKey blank

/-- What else can be wrong with an entry is found in its lists. -/
theorem problem_iff_of_named (named : ¬ id.Blank) :
    entry.Problem id error ↔ ∃ relation, error ∈ validateTargets id entry relation := by
  simp only [mem_validateTargets]
  constructor
  · intro problem
    cases problem with
    | blankKey blank => exact absurd blank named
    | @blankTarget relation target _ listed blank =>
      exact ⟨relation, Or.inl ⟨rfl, target, listed, blank⟩⟩
    | @selfReference relation _ edge listed =>
      have told : ValidationError.selfReference id relation = selfError id relation := by
        cases relation <;> first | rfl | contradiction
      exact ⟨relation, Or.inr ⟨told, listed⟩⟩
    | selfReplacement _ listed => exact ⟨.replacedBy, Or.inr ⟨rfl, listed⟩⟩
  · rintro ⟨relation, ⟨rfl, target, listed, blank⟩ | ⟨rfl, listed⟩⟩
    · exact .blankTarget named listed blank
    · exact (problem_selfError_iff named).mpr listed

/-- Each list has two places of its own, and those of a later list come later. -/
theorem pairwise_flatMap_validateTargets (id : CandidateId) (entry : IndexEntry) :
    ([Relation.before, .after, .replacedBy].flatMap (validateTargets id entry)).Pairwise
      fun first second => first.place < second.place := by
  rw [List.pairwise_flatMap]
  have apart {relation later : Relation} (less : relation.rank < later.rank) :
      ∀ first ∈ validateTargets id entry relation, ∀ second ∈ validateTargets id entry later,
        first.place < second.place := by
    intro first member second there
    have low := place_of_mem_validateTargets member
    have high := place_of_mem_validateTargets there
    omega
  have ranks : [Relation.before, .after, .replacedBy].Pairwise
      fun relation later => relation.rank < later.rank := by decide
  exact ⟨fun relation _ => pairwise_validateTargets id entry relation, ranks.imp apart⟩

/-- The validator of entries writes the report of an entry. -/
theorem report_validateEntry (entry : IndexEntry) (id : CandidateId) :
    entry.Report id (validateEntry id entry) := by
  unfold validateEntry
  split
  next blank =>
    rw [CandidateId.isBlank_iff] at blank
    refine ⟨fun error => ?_, List.pairwise_singleton _ _⟩
    rw [List.mem_singleton, problem_iff_of_blank blank]
  next named =>
    rw [CandidateId.isBlank_iff] at named
    refine ⟨fun error => ?_, pairwise_flatMap_validateTargets id entry⟩
    have everyRelation (relation : Relation) :
        relation ∈ [Relation.before, .after, .replacedBy] := by
      cases relation <;> simp
    simp only [List.mem_flatMap, everyRelation, true_and, problem_iff_of_named named]

theorem validateEntry_eq_nil_iff : validateEntry id entry = [] ↔ entry.Sound id := by
  have report := report_validateEntry entry id
  rw [List.eq_nil_iff_forall_not_mem]
  constructor
  · intro none
    have absent {error : ValidationError} (problem : entry.Problem id error) : False :=
      none error ((report.exact error).mpr problem)
    have named : ¬ id.Blank := fun blank => absent (.blankKey blank)
    exact ⟨named, fun relation => ⟨fun listed => absent ((problem_selfError_iff named).mpr listed),
      fun target listed blank => absent (.blankTarget named listed blank)⟩⟩
  · rintro ⟨named, lists⟩ error member
    cases (report.exact error).mp member with
    | blankKey blank => exact named blank
    | blankTarget _ listed blank => exact (lists _).2 _ listed blank
    | selfReference _ _ listed => exact (lists _).1 listed
    | selfReplacement _ listed => exact (lists .replacedBy).1 listed

/-! ### The problems of an index -/

variable {index : CandidateIndex}

theorem CandidateIndex.mem_entries_iff (index : CandidateIndex) (id : CandidateId)
    (entry : IndexEntry) :
    (id, entry) ∈ index.candidates.entries ↔ index.get? id = some entry :=
  IdMap.get?_eq_some_iff.symm

theorem mem_validateIndex :
    error ∈ validateIndex index ↔
      ∃ id entry, index.get? id = some entry ∧ entry.Problem id error := by
  simp only [validateIndex, List.mem_flatMap, Prod.exists, index.mem_entries_iff,
    (report_validateEntry _ _).exact]

theorem validateIndex_eq_nil_iff :
    validateIndex index = [] ↔ ∀ id entry, index.get? id = some entry → entry.Sound id := by
  simp only [validateIndex, List.flatMap_eq_nil_iff, Prod.forall, validateEntry_eq_nil_iff,
    index.mem_entries_iff]

/-- An index is valid exactly where no key and no listed id is blank and no key is in a list of its
own entry. In any case its problems are told entry by entry, in the order of the index, and there is
just one way to tell those of an entry: a blank key and nothing else, or for each list in turn that
it has a blank id, if it has any, and that it holds the entry's own id, if it does. -/
theorem validateIndex_exact (index : CandidateIndex) :
    (validateIndex index = [] ↔ ∀ id entry, index.get? id = some entry →
      ¬ id.Blank ∧ ∀ relation : Relation,
        id ∉ relation.targets entry ∧ ∀ target ∈ relation.targets entry, ¬ target.Blank) ∧
    ∀ errors, validateIndex index = errors ↔
      ∃ reports : List (List ValidationError), errors = reports.flatten ∧
        List.Forall₂ (fun (id, entry) report => entry.Report id report)
          index.candidates.entries reports := by
  refine ⟨validateIndex_eq_nil_iff, fun errors => ?_⟩
  rw [validateIndex]
  constructor
  · rintro rfl
    refine ⟨index.candidates.entries.map fun (id, entry) => validateEntry id entry, rfl, ?_⟩
    rw [List.forall₂_map_right_iff, List.forall₂_same]
    exact fun (id, entry) _ => report_validateEntry entry id
  · rintro ⟨reports, rfl, told⟩
    generalize index.candidates.entries = entries at told
    induction told with
    | nil => rfl
    | @cons written report _ later first _ ih =>
      obtain ⟨id, entry⟩ := written
      have same : validateEntry id entry = report := (report_validateEntry entry id).unique first
      rw [List.flatMap_cons, List.flatten_cons, ih]
      exact congrArg (· ++ later.flatten) same

/-- Every problem is told, not only the first one. -/
example :
    validateIndex (.ofEntries [(⟨"a"⟩, { before := [⟨"a"⟩], after := [⟨""⟩] }),
      (⟨"d"⟩, { replacedBy := [⟨"d"⟩] })]) =
      [.selfReference ⟨"a"⟩ .before, .blankCandidateId (.target ⟨"a"⟩ .after),
        .selfReplacement ⟨"d"⟩] := by
  decide

end Activation
