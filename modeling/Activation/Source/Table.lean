import Activation.Source.Basic

/-!
# Tables

A table is a source whose answers are written down row by row. It answers from the first row with
the id exactly what the row says, also where the row says that the candidate is not available.
-/

namespace Activation

structure TableRow extends Declaration where
  available : Bool := true

namespace Table

def row? (rows : List TableRow) (id : CandidateId) : Option TableRow :=
  rows.find? fun row => row.id = id

def source (rows : List TableRow) : Source where
  isAvailable id := ((row? rows id).map TableRow.available).getD false
  order id := ((row? rows id).map fun row => row.order).getD defaultOrder
  before id := ((row? rows id).map fun row => row.before).getD []
  after id := ((row? rows id).map fun row => row.after).getD []
  replacements id := ((row? rows id).map fun row => row.replacedBy).getD []

/-- The source that answers from the rows but leaves every candidate its default order. -/
def unorderedSource (rows : List TableRow) : Source where
  isAvailable := (source rows).isAvailable
  before := (source rows).before
  after := (source rows).after
  replacements := (source rows).replacements

private theorem row?_eq_none {rows : List TableRow} {id : CandidateId}
    (unknown : id ∉ rows.map fun row => row.id) : row? rows id = none := by
  rw [row?, List.find?_eq_none]
  intro row member
  simp only [decide_eq_true_eq]
  exact fun same => unknown (List.mem_map.mpr ⟨row, member, same⟩)

theorem source_finite (rows : List TableRow) : (source rows).Finite := by
  refine Source.Finite.of_keys (rows.map fun row => row.id) fun id unknown => ?_
  simp [source, row?_eq_none unknown, CandidateRecord.withReplacements, CandidateRecord.unavailable]

theorem unorderedSource_finite (rows : List TableRow) : (unorderedSource rows).Finite := by
  refine Source.Finite.of_keys (rows.map fun row => row.id) fun id unknown => ?_
  simp [unorderedSource, source, row?_eq_none unknown, CandidateRecord.withReplacements,
    CandidateRecord.unavailable]

end Table

end Activation
