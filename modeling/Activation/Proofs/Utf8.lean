import Activation.Candidate.Id
import Mathlib.Data.String.Basic
import Mathlib.Tactic.SplitIfs

/-!
# Ids in the order of their bytes

Ids are compared by the code points of their text. UTF-8 keeps that order: a smaller code point has
an encoding that is smaller at the first byte where the two differ (`Utf8.encode_lt`), so comparing
the bytes of two ids gives the same answer (`CandidateId.lt_iff_utf8_lt`).
-/

namespace Activation

namespace Utf8

open String (utf8EncodeChar)

/-- The encoding of a smaller code point is smaller, whatever follows the two. -/
theorem encode_lt {c d : Char} (less : c < d) (xs ys : List UInt8) :
    utf8EncodeChar c ++ xs < utf8EncodeChar d ++ ys := by
  have lower : c.val.toNat < d.val.toNat := less
  have upper : d.val.toNat < 1114112 := by
    rcases d.valid with below | ⟨-, inRange⟩
    · have below : d.val.toNat < 55296 := below
      omega
    · exact inRange
  unfold utf8EncodeChar
  generalize c.val.toNat = m at lower ⊢
  generalize d.val.toNat = n at lower upper ⊢
  -- Each byte after the first holds six bits, so the numbers agree with their digits in base 64.
  have digits (k : Nat) : k / 64 / 64 = k / 4096 ∧ k / 4096 / 64 = k / 262144 :=
    ⟨Nat.div_div_eq_div_mul .., Nat.div_div_eq_div_mul ..⟩
  have ofSmaller := digits m
  have ofLarger := digits n
  dsimp only
  split_ifs <;>
  · simp only [List.cons_append, List.nil_append, List.cons_lt_cons_iff, UInt8.lt_iff_toNat_lt,
      UInt8.toNat_ofNat', ← UInt8.toNat_inj]
    simp (disch := omega) only [Nat.mod_eq_of_lt]
    omega

theorem flatMap_encode_lt {s t : List Char} (less : s < t) :
    s.flatMap utf8EncodeChar < t.flatMap utf8EncodeChar := by
  induction s generalizing t with
  | nil =>
    cases t with
    | nil => exact absurd less (List.not_lt_nil [])
    | cons d t =>
      have nonempty : utf8EncodeChar d ≠ [] := String.utf8EncodeChar_ne_nil
      obtain ⟨first, rest, encoded⟩ := List.exists_cons_of_ne_nil nonempty
      rw [List.flatMap_nil, List.flatMap_cons, encoded]
      exact List.nil_lt_cons _ _
  | cons c s ih =>
    cases t with
    | nil => exact absurd less (List.not_lt_nil _)
    | cons d t =>
      rw [List.flatMap_cons, List.flatMap_cons]
      rcases List.cons_lt_cons_iff.mp less with smaller | ⟨rfl, later⟩
      · exact encode_lt smaller _ _
      · exact List.append_left_lt (ih later)

end Utf8

namespace CandidateId

/-- The UTF-8 bytes of an id's text. -/
def utf8 (id : CandidateId) : List UInt8 := id.text.toUTF8.data.toList

theorem utf8_eq_flatMap (id : CandidateId) :
    id.utf8 = id.text.toList.flatMap String.utf8EncodeChar := by
  rw [utf8, String.toUTF8_eq_toByteArray, ← String.utf8Encode_toList, List.utf8Encode,
    List.toList_data_toByteArray]

theorem utf8_lt_of_lt {a b : CandidateId} (less : a < b) : a.utf8 < b.utf8 := by
  rw [utf8_eq_flatMap, utf8_eq_flatMap]
  exact Utf8.flatMap_encode_lt (String.lt_iff_toList_lt.mp less)

theorem lt_iff_utf8_lt {a b : CandidateId} : a < b ↔ a.utf8 < b.utf8 := by
  refine ⟨utf8_lt_of_lt, fun less => ?_⟩
  rcases lt_trichotomy a.text b.text with smaller | same | larger
  · exact smaller
  · exact absurd (congrArg utf8 (congrArg CandidateId.mk same) ▸ less) (List.lt_irrefl _)
  · exact absurd (utf8_lt_of_lt (a := b) (b := a) larger) (List.lt_asymm less)

end CandidateId

end Activation
