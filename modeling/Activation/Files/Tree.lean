import Activation.Files.Path

/-!
# Files

What can be read from where. `Files` is all that loading needs to know of a file system: which bytes
a path holds, or why it cannot be read. A `FileTree` is a directory held in memory, which answers as
the working directory of a file system that holds nothing else.
-/

namespace Activation

/-- Why a file cannot be read as text. -/
inductive ReadFailure where
  | notFound
  | notADirectory
  | isADirectory
  | nameTooLong
  /-- The path holds a NUL, which no name of a file does. -/
  | nulInPath
  | notUtf8
  /-- Another failure, as the system describes it. -/
  | other (description : String)
deriving DecidableEq, Repr

namespace ReadFailure

def message : ReadFailure → String
  | notFound => "No such file or directory (os error 2)"
  | notADirectory => "Not a directory (os error 20)"
  | isADirectory => "Is a directory (os error 21)"
  | nameTooLong => "File name too long (os error 36)"
  | nulInPath => "file name contained an unexpected NUL byte"
  | notUtf8 => "stream did not contain valid UTF-8"
  | other description => description

end ReadFailure

/-- What the paths of a file system hold. -/
abbrev Files := Path → Except ReadFailure ByteArray

/-- The text of a file. A path with a NUL is refused before any file is looked for. -/
def Files.readText (files : Files) (path : Path) : Except ReadFailure String := do
  if path.text.toList.contains '\x00' then .error .nulInPath
  else
    let bytes ← files path
    match String.fromUTF8? bytes with
    | some text => .ok text
    | none => .error .notUtf8

/-- A file, or a directory with its entries by name. -/
inductive FileTree where
  | file (bytes : ByteArray)
  | directory (entries : List (String × FileTree))

namespace FileTree

def empty : FileTree := .directory []

mutual

/-- Changes what stands at the end of a list of names. What is missing is created as a directory
first. -/
def alter (change : FileTree → FileTree) : List String → FileTree → FileTree
  | [], tree => change tree
  | name :: rest, .directory entries => .directory (alterEntry change name rest entries)
  | name :: rest, .file _ => .directory [(name, alter change rest empty)]
termination_by names tree => (names.length, sizeOf tree, 1)

/-- Changes what stands at the end of a list of names below the named entry. -/
def alterEntry (change : FileTree → FileTree) (name : String) (rest : List String) :
    List (String × FileTree) → List (String × FileTree)
  | [] => [(name, alter change rest empty)]
  | (other, tree) :: entries =>
    if other = name then (other, alter change rest tree) :: entries
    else (other, tree) :: alterEntry change name rest entries
termination_by entries => (rest.length + 1, sizeOf entries, 0)

end

/-- Goes one component further on a path through a tree. The names that lead to a place are given
from the last to the first. A directory that `..` leaves again is created if it is missing. -/
def advance (place : FileTree × List String) (component : String) : FileTree × List String :=
  let (tree, names) := place
  if component = "" ∨ component = "." then place
  else if component = ".." then (tree.alter (fun found => found) names.reverse, names.drop 1)
  else (tree, component :: names)

/-- Writes a file. Directories on the way to it are created. -/
def write (bytes : ByteArray) (path : Path) (tree : FileTree) : FileTree :=
  let (tree, names) := (path.text.splitOn "/").foldl advance (tree, [])
  tree.alter (fun _ => .file bytes) names.reverse

def entries : FileTree → List (String × FileTree)
  | .file _ => []
  | .directory entries => entries

/-- How many bytes the name of a file or a directory may take. -/
def nameLimit : Nat := 255

/-- How many bytes a whole path may take. -/
def pathLimit : Nat := 4095

/-- Follows a path from a tree whose ancestors are given, the nearest first. Above the outermost
ancestor there is nothing but directories. -/
def find (tree : FileTree) (ancestors : List FileTree) :
    List String → Except ReadFailure FileTree
  | [] => .ok tree
  | name :: rest =>
    match tree with
    | .file _ => .error .notADirectory
    | .directory entries =>
      if name = "" ∨ name = "." then find tree ancestors rest
      else if name = ".." then
        match ancestors with
        | [] => find empty [] rest
        | parent :: ancestors => find parent ancestors rest
      else if nameLimit < name.utf8ByteSize then .error .nameTooLong
      else
        match entries.lookup name with
        | none => .error .notFound
        | some child => find child (tree :: ancestors) rest

/-- The files as seen from inside the tree. -/
def files (tree : FileTree) : Files := fun path => do
  if path.text = "" then .error .notFound
  else if pathLimit < path.text.utf8ByteSize then .error .nameTooLong
  else
    let start := if path.isAbsolute then empty else tree
    match ← start.find [] (path.text.splitOn "/") with
    | .file bytes => .ok bytes
    | .directory _ => .error .isADirectory

end FileTree

end Activation
