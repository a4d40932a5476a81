import Activation.Source.Index
import Activation.Yaml.Decoder
import Activation.Yaml.Reader

/-!
# Indexes as YAML

An index is a mapping whose key `candidates` maps ids to entries. An entry is a mapping with the
keys `order`, `before`, `after` and `replaced_by`, each of which may be missing. Other keys are
ignored; a known key may stand only once.
-/

namespace Activation.Format.Yaml

open Activation.Yaml Activation.Yaml.Decoder

def readId (node : Node) : Decoder CandidateId := do return ⟨← text node⟩

def readIds (node : Node) : Decoder (List CandidateId) := do (← items node).mapM readId

def readOrder (node : Node) : Decoder (Option Int32) := do
  match ← optionalInteger node with
  | none => return none
  | some value =>
    match orderValue? value with
    | some order => return some order
    | none => refuse

def readEntry (node : Node) : Decoder IndexEntry := do
  match ← fields ["order", "before", "after", "replaced_by"] node with
  | [order, before, after, replacedBy] =>
    return {
      order := ← optional readOrder none order
      before := ← optional readIds [] before
      after := ← optional readIds [] after
      replacedBy := ← optional readIds [] replacedBy }
  | _ => refuse

/-- Entries by id; of two entries with one id the later counts, in the place of the earlier. -/
def readEntries (node : Node) : Decoder CandidateIndex := do
  let entries ← (← entries node).mapM fun (key, value) => do
    return (← readId key, ← readEntry value)
  return CandidateIndex.ofEntries entries

def readIndex (node : Node) : Decoder CandidateIndex := do
  match ← fields ["candidates"] node with
  | [candidates] => optional readEntries ∅ candidates
  | _ => refuse

end Format.Yaml

def CandidateIndex.ofYaml? (text : String) : Option CandidateIndex := do
  Yaml.Decoder.decode? Format.Yaml.readIndex (← Yaml.parse? text)

end Activation
