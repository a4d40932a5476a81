import Activation.Files.Path
import Activation.Format.Yaml

/-!
# Run files

A run file says which candidates to order and where their metadata lives. It is a YAML mapping with
the keys `indexes` and `candidates`, each of which may be missing. Other keys are ignored; a known
key may stand only once.
-/

namespace Activation

structure RunFile where
  /-- Index files, merged in this order: later entries win. Relative paths start at the directory of
  the run file. -/
  indexes : List Path := []
  /-- The ids to order. -/
  candidates : List CandidateId := []
deriving DecidableEq

namespace RunFile

open Activation.Yaml.Decoder

def read (node : Yaml.Node) : Yaml.Decoder RunFile := do
  match ← fields ["indexes", "candidates"] node with
  | [indexes, candidates] =>
    return {
      indexes := ← optional (fun node => do (← items node).mapM readPath) [] indexes
      candidates := ← optional Format.Yaml.readIds [] candidates }
  | _ => refuse
where
  readPath (node : Yaml.Node) : Yaml.Decoder Path := do return ⟨← text node⟩

def parse? (text : String) : Option RunFile := do Yaml.Decoder.decode? read (← Yaml.parse? text)

end RunFile

end Activation
