import Activation.Candidate.Record

/-!
# Metadata sources

A source answers questions about candidates. Its answers are functions of the id and they never
fail: an id that a source knows nothing about is unavailable and has default attributes.

`Source.Finite` says that only finitely many ids are known to a source, which is what makes every
walk over it come to an end.
-/

namespace Activation

/-- What a candidate declares about its own place in the order. Lists are kept as they are given.
Only the id is required; all else is unconstrained. -/
structure Declaration where
  id : CandidateId
  order : Int32 := defaultOrder
  before : List CandidateId := []
  after : List CandidateId := []
  replacedBy : List CandidateId := []
deriving DecidableEq

namespace Declaration

/-- The record of a candidate that is present: its lists become sets. -/
def record (d : Declaration) : CandidateRecord :=
  { id := d.id, order := d.order : CandidateRecord }.withBefore d.before
    |>.withAfter d.after |>.withReplacements d.replacedBy

end Declaration

/-- Answers questions about candidates. A source that says nothing else gives every candidate the
default order, and its records are assembled from its other answers: an id that is not available
gets the default record, but is still redirected to its replacements. -/
structure Source where
  /-- Whether the id could be resolved at all. -/
  isAvailable : CandidateId → Bool
  /-- Numeric priority; lower values come earlier. -/
  order : CandidateId → Int32 := fun _ => defaultOrder
  /-- Ids that must come after the candidate. -/
  before : CandidateId → List CandidateId
  /-- Ids that must come before the candidate. -/
  after : CandidateId → List CandidateId
  /-- Ids that stand in for the candidate when it is retired. -/
  replacements : CandidateId → List CandidateId
  /-- All of the above in one record. -/
  record : CandidateId → CandidateRecord := fun id =>
    if isAvailable id then
      Declaration.record
        { id, order := order id, before := before id, after := after id,
          replacedBy := replacements id }
    else (CandidateRecord.unavailable id).withReplacements (replacements id)

namespace Source

/-- Records of ids that are not available have no edges. -/
def EdgesOnlyWhenAvailable (source : Source) : Prop :=
  ∀ id, (source.record id).available = false →
    (source.record id).before = ∅ ∧ (source.record id).after = ∅

/-- All but finitely many ids are neither available nor redirected. -/
def Finite (source : Source) : Prop :=
  ∃ known : List CandidateId, ∀ id, id ∉ known →
    (source.record id).available = false ∧ (source.record id).replacements = ∅

/-- Asks the preferred source first and the other one for the ids it does not have. Each id is
answered wholly by one of the two. -/
def layered (preferred fallback : Source) : Source :=
  let layer (id : CandidateId) : Source := if preferred.isAvailable id then preferred else fallback
  { isAvailable := fun id => preferred.isAvailable id || fallback.isAvailable id
    order := fun id => (layer id).order id
    before := fun id => (layer id).before id
    after := fun id => (layer id).after id
    replacements := fun id => (layer id).replacements id
    record := fun id => (layer id).record id }

theorem record_layered (preferred fallback : Source) (id : CandidateId) :
    (layered preferred fallback).record id =
      if preferred.isAvailable id then preferred.record id else fallback.record id := by
  show (if preferred.isAvailable id then preferred else fallback).record id = _
  split <;> rfl

theorem Finite.layered {preferred fallback : Source} (first : preferred.Finite)
    (second : fallback.Finite) : (layered preferred fallback).Finite := by
  obtain ⟨known, first⟩ := first
  obtain ⟨other, second⟩ := second
  refine ⟨known ++ other, fun id unknown => ?_⟩
  rw [List.mem_append, not_or] at unknown
  rw [record_layered]
  split
  · exact first id unknown.1
  · exact second id unknown.2

/-- A source whose records are the assembled ones and that answers from finitely many entries. -/
theorem Finite.of_keys {source : Source} (known : List CandidateId)
    (assembled : ∀ id, id ∉ known → source.record id = CandidateRecord.unavailable id) :
    source.Finite :=
  ⟨known, fun id unknown => by rw [assembled id unknown]; exact ⟨rfl, rfl⟩⟩

end Source

end Activation
