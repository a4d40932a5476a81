import Activation.CommandLine

/-!
# The program

Reads the files that the arguments name, and does what the command line says about them.
-/

namespace Activation.CommandLine

def failureOf : IO.Error → ReadFailure
  | .noFileOrDirectory .. => .notFound
  | .inappropriateType none _ _ => .isADirectory
  | .inappropriateType (some _) _ _ => .notADirectory
  | .invalidArgument (some _) _ "name too long" => .nameTooLong
  | error => .other (toString error)

def readBytes (path : Path) : IO (Except ReadFailure ByteArray) := do
  try
    return .ok (← IO.FS.readBinFile path.text)
  catch error =>
    return .error (failureOf error)

/-- Reads the files at some paths. All others are taken for missing. -/
def snapshot (paths : List Path) : IO Files := do
  let found ← paths.mapM fun path => do return (path, ← readBytes path)
  return fun path => (found.lookup path).getD (.error .notFound)

/-- The text of an event that asks for attention. -/
def logLine? (event : Event) : Option String :=
  match event.level with
  | .debug => none
  | .info => some ("INFO " ++ event.message)
  | .warn => some ("WARN " ++ event.message)
  | .error => some ("ERROR " ++ event.message)

end Activation.CommandLine

open Activation.CommandLine in
def main (arguments : List String) : IO UInt32 := do
  let command := Command.ofArguments arguments
  let first ← snapshot (command.paths .standard fun _ => .error .notFound)
  let files ← snapshot (command.paths .standard first)
  let result := command.run .standard "activation-order" files
  result.events.filterMap logLine? |>.forM IO.eprintln
  IO.print result.value.output
  IO.eprint result.value.diagnostics
  return result.value.code.toUInt32
