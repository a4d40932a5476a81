/-!
# Paths

Paths are texts in which `/` separates components. Empty components and `.` count for nothing,
except a leading `.`; a path that starts with `/` is absolute.
-/

namespace Activation

structure Path where
  text : String
deriving DecidableEq, Repr, Inhabited

namespace Path

def isAbsolute (path : Path) : Bool := path.text.startsWith "/"

/-- What a path starts with: the root, a leading `.`, or nothing of the kind. -/
def head (path : Path) : String :=
  if path.isAbsolute then "/"
  else if path.text = "." ∨ path.text.startsWith "./" then "."
  else ""

/-- Drops the components at the end that count for nothing. -/
def trimEnd (components : List String) : List String :=
  (components.reverse.dropWhile fun component => component == "" || component == ".").reverse

/-- The components after the head, those at the end that count for nothing dropped. -/
def body (path : Path) : List String :=
  trimEnd ((path.text.drop path.head.length).toString.splitOn "/")

/-- The last component that names something. -/
def fileName? (path : Path) : Option String :=
  match path.body.getLast? with
  | some ".." => none
  | name => name

/-- What follows the last point of a file name, unless the name starts with that point. -/
def extension? (path : Path) : Option String := do
  let name ← path.fileName?
  match (name.splitOn ".").reverse with
  | extension :: stem => if stem = [] ∨ stem = [""] then none else some extension
  | [] => none

/-- The path without its last component. The root and the empty path have none. -/
def parent? (path : Path) : Option Path :=
  match path.body with
  | [] => if path.head = "." then some ⟨""⟩ else none
  | body => some ⟨path.head ++ "/".intercalate (trimEnd body.dropLast)⟩

/-- A path as seen from a directory. An absolute path is the same from everywhere. -/
def join (directory path : Path) : Path :=
  if path.isAbsolute then path
  else if directory.text = "" ∨ directory.text.endsWith "/" then ⟨directory.text ++ path.text⟩
  else ⟨directory.text ++ "/" ++ path.text⟩

end Path

end Activation
