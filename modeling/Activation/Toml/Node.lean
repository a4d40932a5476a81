/-!
# TOML documents

A document is a tree of named values. How a table came to be decides what may be added to it later:
a table with a header of its own, or a value in braces, is complete; a table that is only implied by
a longer header or by a dotted key can still grow, but only in the way in which it came to be.
-/

namespace Activation.Toml

/-- How a table came to be. -/
inductive TableKind where
  /-- By its own header. -/
  | headed
  /-- As part of a longer header. -/
  | implied
  /-- As part of a dotted key. -/
  | dotted
  /-- As a value in braces. -/
  | inline
deriving DecidableEq, Repr

/-- A value of a document. Numbers with a fraction or an exponent, and dates, are told apart from
other values but not kept. -/
inductive Node where
  | string (text : String)
  | integer (value : Int)
  | float
  | boolean (value : Bool)
  | dateTime
  | array (items : List Node)
  | table (kind : TableKind) (entries : List (String × Node))
  /-- An array of tables, each with a header of its own. -/
  | tables (elements : List (List (String × Node)))
deriving Repr

/-- The entries of a table, in the order in which they were written. -/
abbrev Entries := List (String × Node)

def replaceEntry (key : String) (node : Node) (entries : Entries) : Entries :=
  entries.map fun entry => if entry.1 = key then (key, node) else entry

/-- Changes the entries of the table at a path, or refuses. Tables that are missing on the way are
created. A path of header keys passes through every table that is not a value in braces; a path of
dotted keys passes only through tables that have no header. Either passes an array of tables through
its last element. -/
def alterAt (dotted : Bool) (change : TableKind → Entries → Option Entries) :
    List String → TableKind → Entries → Option Entries
  | [], kind, entries => change kind entries
  | key :: path, _, entries =>
    match entries.lookup key with
    | none => do
      let kind := if dotted then TableKind.dotted else .implied
      let inner ← alterAt dotted change path kind []
      return entries ++ [(key, .table kind inner)]
    | some (.table kind inner) =>
      if kind = .inline ∨ (dotted ∧ kind = .headed) then none
      else do
        let inner ← alterAt dotted change path kind inner
        return replaceEntry key (.table kind inner) entries
    | some (.tables elements) =>
      match elements.reverse with
      | [] => none
      | last :: others => do
        let inner ← alterAt dotted change path .headed last
        return replaceEntry key (.tables (inner :: others).reverse) entries
    | some _ => none

/-- Adds a value under a key, the last of a path of dotted keys. The table that receives it must
have come to be by dotted keys exactly if the path has more than one key, and must not have the
key. -/
def addValue (path : List String) (key : String) (node : Node) (kind : TableKind)
    (entries : Entries) : Option Entries :=
  alterAt true (fun kind entries =>
    if (kind = .dotted) = (path = []) then none
    else if (entries.lookup key).isSome then none
    else some (entries ++ [(key, node)])) path kind entries

/-- Opens a table by its header. A table that a longer header implied takes its place anew, with
what it holds; no other entry of that name may be there. -/
def openTable (path : List String) (key : String) (entries : Entries) : Option Entries :=
  alterAt false (fun _ entries =>
    match entries.lookup key with
    | none => some (entries ++ [(key, .table .headed [])])
    | some (.table .implied inner) =>
      some (entries.filter (fun entry => entry.1 != key) ++ [(key, .table .headed inner)])
    | some _ => none) path .headed entries

/-- Opens the next element of an array of tables by its header. -/
def openElement (path : List String) (key : String) (entries : Entries) : Option Entries :=
  alterAt false (fun _ entries =>
    match entries.lookup key with
    | none => some (entries ++ [(key, .tables [[]])])
    | some (.tables elements) => some (replaceEntry key (.tables (elements ++ [[]])) entries)
    | some _ => none) path .headed entries

/-- Adds a value to the table that the last header opened. -/
def addUnder (header path : List String) (key : String) (node : Node) (entries : Entries) :
    Option Entries :=
  alterAt false (addValue path key node) header .headed entries

end Activation.Toml
