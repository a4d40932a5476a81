import Activation.Toml.Scalar

/-!
# Reading TOML

A document is a sequence of lines: keys with values, and headers that open the table to which the
following keys belong. Arrays and tables in braces nest at most as deep as `nestingLimit` allows,
and no key has more parts than that, so a value is read by recursion on the depth that is left.
-/

namespace Activation.Toml

open Activation.Text
open Activation.Text.Scanner

/-- Arrays, tables in braces and dotted keys stay below this depth. -/
def nestingLimit : Nat := 80

def blanks : Scanner Unit := do discard (run isBlank)

def comment : Scanner Unit := do
  char '#'
  discard (run isPrintable)

/-- The end of a line, or of the text. -/
def lineEnd : Scanner Unit := do
  unless ← atEnd do newline

/-- What may stand between a value and the end of its line. -/
def lineRest : Scanner Unit := do
  blanks
  if ← ahead "#" then comment
  lineEnd

/-- Blanks, line ends and comments, as they may stand between the items of an array. -/
def gap : Nat → Scanner Unit
  | 0 => pure ()
  | fuel + 1 => do
    blanks
    match ← peek? with
    | some '#' =>
      comment
      lineEnd
      gap fuel
    | some '\n' =>
      newline
      gap fuel
    | some '\r' =>
      newline
      gap fuel
    | _ => pure ()

def isBareKey (c : Char) : Bool := c.isAlphanum || c = '_' || c = '-'

def keyPart : Scanner String := do
  match ← peek? with
  | some '"' => lineString
  | some '\'' => lineString
  | _ => return String.ofList (← run1 isBareKey)

def keyParts : Nat → Scanner (List String)
  | 0 => refuse
  | fuel + 1 => do
    blanks
    let part ← keyPart
    blanks
    if ← ahead "." then
      char '.'
      return part :: (← keyParts fuel)
    else return [part]

/-- A key: the path to it, and its last part. -/
def key : Scanner (List String × String) := do
  let parts ← keyParts (nestingLimit - 1)
  match parts.getLast? with
  | some last => return (parts.dropLast, last)
  | none => refuse

/-- A key and the sign that separates it from its value. -/
def keyBeforeValue : Scanner (List String × String) := do
  let key ← key
  char '='
  blanks
  return key

/-- The items of an array after its bracket. -/
def arrayItems (value : Scanner Node) : Nat → Scanner (List Node)
  | 0 => refuse
  | fuel + 1 => do
    gap fuel
    if ← ahead "]" then
      char ']'
      return []
    else
      let item ← value
      gap fuel
      match ← satisfy fun c => c = ',' || c = ']' with
      | ',' => return item :: (← arrayItems value fuel)
      | _ => return [item]

/-- The entries of a table in braces after its first key was found to follow. -/
def inlineEntries (value : Scanner Node) (entries : Entries) : Nat → Scanner Entries
  | 0 => refuse
  | fuel + 1 => do
    let (path, last) ← keyBeforeValue
    let node ← value
    blanks
    match addValue path last node .inline entries with
    | none => refuse
    | some entries =>
      match ← satisfy fun c => c = ',' || c = '}' with
      | ',' => inlineEntries value entries fuel
      | _ => return entries

def value : Nat → Scanner Node
  | 0 => refuse
  | depth + 1 => do
    match ← peek? with
    | some '"' => return .string (← string)
    | some '\'' => return .string (← string)
    | some '[' =>
      if depth = 0 then refuse
      else
        char '['
        return .array (← arrayItems (value depth) (← remaining))
    | some '{' =>
      if depth = 0 then refuse
      else
        char '{'
        blanks
        if ← ahead "\x7d" then
          char '}'
          return .table .inline []
        else return .table .inline (← inlineEntries (value depth) [] (← remaining))
    | some 't' => boolean
    | some 'f' => boolean
    | _ => number

/-- A document being read: its entries so far, and the table that the last header opened. -/
structure Document where
  entries : Entries := []
  header : List String := []

/-- A key with its value, which goes to the table of the last header. -/
def keyLine (document : Document) : Scanner Document := do
  let (path, last) ← keyBeforeValue
  let node ← value nestingLimit
  lineRest
  match addUnder document.header path last node document.entries with
  | some entries => return { document with entries }
  | none => refuse

/-- A header, which opens a table or the next element of an array of tables. -/
def headerLine (document : Document) : Scanner Document := do
  if ← ahead "[[" then
    literal "[["
    let (path, last) ← key
    literal "]]"
    lineRest
    match openElement path last document.entries with
    | some entries => return ⟨entries, path ++ [last]⟩
    | none => refuse
  else
    char '['
    let (path, last) ← key
    char ']'
    lineRest
    match openTable path last document.entries with
    | some entries => return ⟨entries, path ++ [last]⟩
    | none => refuse

def lines (document : Document) : Nat → Scanner Entries
  | 0 => return document.entries
  | fuel + 1 => do
    blanks
    match ← peek? with
    | none => return document.entries
    | some '#' =>
      comment
      lineEnd
      lines document fuel
    | some '[' => lines (← headerLine document) fuel
    | some '\n' =>
      newline
      lines document fuel
    | some '\r' =>
      newline
      lines document fuel
    | some _ => lines (← keyLine document) fuel

/-- The entries of a document, which may start with a byte order mark. -/
def parse? (text : String) : Option Entries :=
  let document : Scanner Entries := do
    if ← ahead "\ufeff" then literal "\ufeff"
    lines {} ((← remaining) + 1)
  document.readAll? text.toList

end Activation.Toml
