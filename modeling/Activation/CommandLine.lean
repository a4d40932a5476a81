import Activation.Order.Finite
import Activation.Run.Loading

/-!
# The command line

What the program does for given arguments and files: its exit code and what it writes. Either it
writes the whole order, or nothing to its output and the reason to its diagnostics. The readers of
the files are given to it.
-/

namespace Activation

namespace CommandLine

/-- What the arguments ask for. -/
inductive Command where
  /-- Order the candidates of a run file by its indexes. -/
  | runFile (path : Path)
  /-- Order candidates by one index. -/
  | withIndex (index : Path) (candidates : List CandidateId)
  /-- Tell how the program is called. -/
  | help
  /-- The arguments make no sense. -/
  | misuse
deriving DecidableEq

def Command.ofArguments : List String → Command
  | [] => .misuse
  | "--index" :: index :: candidates => .withIndex ⟨index⟩ (candidates.map CandidateId.mk)
  | "--index" :: [] => .misuse
  | "--help" :: _ => .help
  | "-h" :: _ => .help
  | [path] => .runFile ⟨path⟩
  | _ => .misuse

/-- Why a command has no result. -/
inductive Failure where
  | noCandidates
  /-- A file could not be loaded; the context says which. -/
  | load (context : String) (error : LoadError)
  | ordering (error : OrderingError)
deriving DecidableEq

/-- What a failure is called, with all that led to it. -/
def Failure.message : Failure → String
  | noCandidates => "no candidates given to order"
  | load context error => ": ".intercalate ([context, error.message] ++ error.cause?.toList)
  | ordering error => error.message

/-- A command reports events and gives an order or the reason why there is none. -/
abbrev Job := ExceptT Failure Reported (List CandidateId)

/-- A step that loads something, with a context for its errors. -/
def loading {α : Type} (context : String) (step : Loading α) : ExceptT Failure Reported α :=
  step.adapt (Failure.load context)

def ordering (index : CandidateIndex) (ids : List CandidateId) : Job :=
  (ExceptT.mk (index.orderCandidates ids)).adapt Failure.ordering

/-- Orders the candidates of a run file by its merged indexes. -/
def orderRunFile (readers : Readers) (files : Files) (path : Path) : Job := do
  let run ← loading s!"failed to load run file '{path.text}'"
    (RunFile.loadValid readers files path)
  let directory := path.parent?.getD ⟨"."⟩
  let index ← loading s!"failed to load indexes for '{path.text}'"
    (run.loadIndexes readers files directory)
  ordering index run.candidates

/-- Orders candidates by one index. -/
def orderWithIndex (readers : Readers) (files : Files) (path : Path)
    (candidates : List CandidateId) : Job := do
  if candidates = [] then throw .noCandidates
  else
    let index ← loading s!"failed to load index '{path.text}'"
      (CandidateIndex.loadValid readers files path)
    ordering index candidates

/-- What a finished program leaves. -/
structure Outcome where
  code : UInt8
  output : String
  diagnostics : String
deriving DecidableEq

def usage (program : String) : String :=
  s!"Usage: {program} <run.yaml>\n" ++
  s!"       {program} --index <index.(yaml|json|toml)> <candidate> [candidate ...]\n" ++
  s!"Example: {program} configs/web-run.yaml\n" ++
  s!"Example: {program} --index configs/web-index.yaml app.web.ServerConfig " ++
  "app.data.DataSourceConfig\n"

def lines (texts : List String) : String := String.join (texts.map (· ++ "\n"))

def Outcome.ofResult : Except Failure (List CandidateId) → Outcome
  | .ok ids => { code := 0, output := lines (ids.map CandidateId.text), diagnostics := "" }
  | .error failure => { code := 1, output := "", diagnostics := lines ["❌ " ++ failure.message] }

def Command.run (readers : Readers) (program : String) (files : Files) : Command → Reported Outcome
  | .runFile path => Outcome.ofResult <$> (orderRunFile readers files path).run
  | .withIndex index candidates =>
    Outcome.ofResult <$> (orderWithIndex readers files index candidates).run
  | .help => Reported.silent { code := 0, output := "", diagnostics := usage program }
  | .misuse => Reported.silent { code := 1, output := "", diagnostics := usage program }

/-- Runs the program under its name with arguments and files. -/
def run (readers : Readers) (program : String) (arguments : List String) (files : Files) :
    Reported Outcome :=
  (Command.ofArguments arguments).run readers program files

/-- The files that a command may read, as far as the files that are known already tell. -/
def Command.paths (readers : Readers) (known : Files) : Command → List Path
  | .runFile path =>
    match (RunFile.load readers known path).run.value with
    | .ok run => path :: run.indexPaths (path.parent?.getD ⟨"."⟩)
    | .error _ => [path]
  | .withIndex index _ => [index]
  | .help => []
  | .misuse => []

end CommandLine

end Activation
