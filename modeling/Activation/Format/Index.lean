import Activation.Files.Path
import Activation.Format.Json
import Activation.Format.Toml
import Activation.Format.Yaml

/-!
# Formats of index files

The extension of an index file tells its format.
-/

namespace Activation

inductive IndexFormat where
  | yaml
  | json
  | toml
deriving DecidableEq, Repr

namespace IndexFormat

def name : IndexFormat → String
  | yaml => "YAML"
  | json => "JSON"
  | toml => "TOML"

/-- The format of the files with an extension, whose letters may be of either case. -/
def ofExtension? (extension : String) : Option IndexFormat :=
  match extension.map Char.toLower with
  | "yaml" => some yaml
  | "yml" => some yaml
  | "json" => some json
  | "toml" => some toml
  | _ => none

def ofPath? (path : Path) : Option IndexFormat := path.extension?.bind ofExtension?

def parse? : IndexFormat → String → Option CandidateIndex
  | yaml, text => CandidateIndex.ofYaml? text
  | json, text => CandidateIndex.ofJson? text
  | toml, text => CandidateIndex.ofToml? text

end IndexFormat

end Activation
