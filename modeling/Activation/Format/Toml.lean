import Activation.Source.Index
import Activation.Toml.Reader

/-!
# Indexes as TOML

An index is a document whose key `candidates` is a table of entries. An entry is a table with the
keys `order`, `before`, `after` and `replaced_by`, each of which may be missing, or an array of the
same values in this order, of which the last ones may be missing and further ones do not count.
Other keys are ignored. A date or time is a table without any of these keys.
-/

namespace Activation.Format.Toml

open Activation.Toml

/-- The values of a table or an array in the place of the named keys, absent ones as `none`. A date or
time has parts of its own, and none of the named ones. -/
def fields? (names : List String) : Node → Option (List (Option Node))
  | .table _ entries => some (names.map fun name => entries.lookup name)
  | .array items => some ((List.range names.length).map (items[·]?))
  | .dateTime => some (names.map fun _ => none)
  | _ => none

def readId? : Node → Option CandidateId
  | .string text => some ⟨text⟩
  | _ => none

def readIds? : Node → Option (List CandidateId)
  | .array items => items.mapM readId?
  | _ => none

def readOrder? : Node → Option (Option Int32)
  | .integer value => (orderValue? value).map some
  | _ => none

def optional? {α : Type} (read? : Node → Option α) (absent : α) : Option Node → Option α
  | none => some absent
  | some node => read? node

def readEntry? (node : Node) : Option IndexEntry := do
  match ← fields? ["order", "before", "after", "replaced_by"] node with
  | [order, before, after, replacedBy] =>
    return {
      order := ← optional? readOrder? none order
      before := ← optional? readIds? [] before
      after := ← optional? readIds? [] after
      replacedBy := ← optional? readIds? [] replacedBy }
  | _ => none

def readEntries? : Node → Option CandidateIndex
  | .table _ entries => do
    let entries ← entries.mapM fun (name, node) => do
      return (CandidateId.mk name, ← readEntry? node)
    return CandidateIndex.ofEntries entries
  | _ => none

end Format.Toml

def CandidateIndex.ofToml? (text : String) : Option CandidateIndex := do
  let entries ← Toml.parse? text
  Format.Toml.optional? Format.Toml.readEntries? ∅ (entries.lookup "candidates")

end Activation
