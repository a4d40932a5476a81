/-!
# Candidate ids

A candidate id is an opaque, globally unique token that names one unit of optional configuration.
Ids are compared by the code points of their text, which is the order of their UTF-8 bytes.
-/

namespace Activation

/-- The name of a candidate. -/
structure CandidateId where
  text : String
deriving DecidableEq, Hashable, Repr, Inhabited

namespace CandidateId

instance : Coe String CandidateId := ⟨CandidateId.mk⟩

instance : ToString CandidateId := ⟨CandidateId.text⟩

instance : LT CandidateId := ⟨fun a b => a.text < b.text⟩

instance : LE CandidateId := ⟨fun a b => a.text ≤ b.text⟩

instance (a b : CandidateId) : Decidable (a < b) := inferInstanceAs (Decidable (a.text < b.text))

instance (a b : CandidateId) : Decidable (a ≤ b) := inferInstanceAs (Decidable (a.text ≤ b.text))

instance : Ord CandidateId := ⟨fun a b => compare a.text b.text⟩

theorem le_iff {a b : CandidateId} : a ≤ b ↔ a.text ≤ b.text := Iff.rfl

theorem lt_iff {a b : CandidateId} : a < b ↔ a.text < b.text := Iff.rfl

protected theorem le_refl (a : CandidateId) : a ≤ a := String.le_refl a.text

protected theorem le_trans {a b c : CandidateId} (first : a ≤ b) (second : b ≤ c) : a ≤ c :=
  String.le_trans first second

protected theorem le_total (a b : CandidateId) : a ≤ b ∨ b ≤ a := String.le_total a.text b.text

protected theorem le_antisymm {a b : CandidateId} (first : a ≤ b) (second : b ≤ a) : a = b := by
  cases a
  cases b
  exact congrArg CandidateId.mk (String.le_antisymm first second)

protected theorem lt_of_le_of_ne {a b : CandidateId} (le : a ≤ b) (differ : a ≠ b) : a < b :=
  Decidable.byContradiction fun unordered =>
    differ (CandidateId.le_antisymm le (String.not_lt.mp unordered))

protected theorem ne_of_lt {a b : CandidateId} (less : a < b) : a ≠ b := by
  rintro rfl
  exact String.lt_irrefl a.text less

/-- The ids' texts with a separator between neighbours. -/
def join (separator : String) (ids : List CandidateId) : String :=
  separator.intercalate (ids.map text)

end CandidateId

end Activation
