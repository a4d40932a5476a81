import Activation.Files.Tree
import Activation.Format.Index
import Activation.Run.RunFile
import Activation.Validation

/-!
# Loading

Reading run files and indexes. What the text of a file says is told by readers, which are given;
loading decides which files are read, in which order and what comes of a failure. It stops at the
first file that cannot be used; what was reported up to there is kept.
-/

namespace Activation

/-- What is used to read the text of files. A reader that refuses a text says why. -/
structure Readers where
  index : IndexFormat → String → Except String CandidateIndex
  run : String → Except String RunFile

/-- The readers of this library, which do not tell one mistake from another. -/
def Readers.standard : Readers where
  index format text := refusal (format.parse? text)
  run text := refusal (RunFile.parse? text)
where
  refusal {α : Type} : Option α → Except String α
    | some document => .ok document
    | none => .error "not a document of the expected form"

/-- Why a file cannot be used. -/
inductive LoadError where
  | unreadable (failure : ReadFailure)
  /-- The reader of the format refuses the text. -/
  | malformed (format : IndexFormat) (detail : String)
  /-- The extension does not name a format. -/
  | unsupportedFormat (path : Path)
  /-- The document contradicts itself. -/
  | invalid (errors : List ValidationError)
deriving DecidableEq, Repr

namespace LoadError

def message : LoadError → String
  | unreadable failure => "I/O error: " ++ failure.message
  | malformed format detail => s!"{format.name} parse error: {detail}"
  | unsupportedFormat path =>
    s!"Unsupported file format for '{path.text}': expected .yaml, .yml, .json or .toml"
  | invalid errors =>
    "Validation failed:\n" ++ "\n".intercalate (errors.map ValidationError.message)

/-- The failure behind an error, if there is one. -/
def cause? : LoadError → Option String
  | unreadable failure => some failure.message
  | malformed _ detail => some detail
  | unsupportedFormat _ => none
  | invalid _ => none

end LoadError

/-- Loading reports events and gives a result or the reason why there is none. -/
abbrev Loading (α : Type) := ExceptT LoadError Reported α

namespace Loading

variable {α : Type}

/-- The result of a step that can fail and reports nothing. -/
def ofExcept {ε : Type} (error : ε → LoadError) (result : Except ε α) : Loading α :=
  ExceptT.mk (Reported.silent (result.mapError error))

/-- The result of a step that reports events and cannot fail. -/
def ofReported (result : Reported α) : Loading α := ExceptT.lift result

/-- Goes on only where nothing is wrong. -/
def check (errors : List ValidationError) : Loading Unit :=
  if errors = [] then pure () else throw (.invalid errors)

end Loading

/-! ### Indexes -/

namespace CandidateIndex

def load (readers : Readers) (files : Files) (path : Path) : Loading CandidateIndex := do
  match IndexFormat.ofPath? path with
  | none => throw (.unsupportedFormat path)
  | some format =>
    let text ← Loading.ofExcept .unreadable (files.readText path)
    let index ← Loading.ofExcept (.malformed format) (readers.index format text)
    Loading.ofReported (Reported.report (.indexLoaded path.text index.size))
    return index

/-- Reads an index file, which must be valid. -/
def loadValid (readers : Readers) (files : Files) (path : Path) : Loading CandidateIndex := do
  let index ← load readers files path
  Loading.check (validateIndex index)
  return index

end CandidateIndex

/-! ### Run files -/

namespace RunFile

def load (readers : Readers) (files : Files) (path : Path) : Loading RunFile := do
  let text ← Loading.ofExcept .unreadable (files.readText path)
  Loading.ofExcept (.malformed .yaml) (readers.run text)

/-- Reads a run file, whose candidates must be valid. -/
def loadValid (readers : Readers) (files : Files) (path : Path) : Loading RunFile := do
  let run ← load readers files path
  Loading.check (validateCandidates run.candidates)
  return run

/-- Reads index files one after another and merges each into those before it. -/
def mergeAll (readers : Readers) (files : Files) (paths : List Path) : Loading CandidateIndex :=
  paths.foldlM (fun merged path => do
    let index ← CandidateIndex.loadValid readers files path
    Loading.ofReported (merged.merge index path.text)) ∅

def indexPaths (run : RunFile) (directory : Path) : List Path := run.indexes.map directory.join

def loadIndexes (run : RunFile) (readers : Readers) (files : Files) (directory : Path) :
    Loading CandidateIndex :=
  mergeAll readers files (run.indexPaths directory)

end RunFile

end Activation
