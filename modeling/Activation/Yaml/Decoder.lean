import Activation.Text.Scanner
import Activation.Yaml.Node

/-!
# Decoding YAML documents

A decoder looks at nodes through their anchors and aliases. It follows only a limited number of
aliases, so that a small document cannot stand for an enormous one. A missing node stands for an
empty sequence and an empty mapping as well as for an empty text.
-/

namespace Activation.Yaml

open Activation.Text

/-- A decoder knows the document and how many more aliases it may follow. -/
abbrev Decoder (α : Type) := ReaderT Node (StateT Nat Option) α

namespace Decoder

variable {α : Type}

def refuse : Decoder α := failure

/-- Decodes a document, following at most a hundred aliases for each of its places. -/
def decode? (decoder : Node → Decoder α) (document : Node) : Option α :=
  ((decoder document).run document).run' (100 * document.size)

/-- What stands in the place of a node. -/
def content : Node → Decoder Node
  | .anchored _ node => content node
  | .reference number => do
    let left ← get
    if left = 0 then refuse
    else
      set (left - 1)
      match (← read).target? number with
      | some node => return node
      | none => refuse
  | node => return node

def text (node : Node) : Decoder String := do
  match ← content node with
  | .scalar text _ _ => return text
  | _ => refuse

/-- What a scalar stands for in the place of a list: an empty one, if it is missing. -/
def emptyList (text : String) (style : Style) : Decoder (List α) :=
  if style = .plain ∧ text = "" then return [] else refuse

def items (node : Node) : Decoder (List Node) := do
  match ← content node with
  | .sequence items => return items
  | .scalar text style _ => emptyList text style
  | _ => refuse

def entries (node : Node) : Decoder (List (Node × Node)) := do
  match ← content node with
  | .mapping entries => return entries
  | .scalar text style _ => emptyList text style
  | _ => refuse

/-- The values of a mapping under the named keys, absent ones as `none`. Every key must be a scalar,
and a key that is asked for may stand only once. -/
def fields (names : List String) (node : Node) : Decoder (List (Option Node)) := do
  let entries ← (← entries node).mapM fun (key, value) => do return (← text key, value)
  names.mapM fun name =>
    match entries.filter fun entry => entry.1 == name with
    | [] => return none
    | [(_, value)] => return some value
    | _ => refuse

def optional (decoder : Node → Decoder α) (absent : α) : Option Node → Decoder α
  | none => return absent
  | some node => decoder node

end Decoder

/-! ### Numbers -/

def numeral? (base : Nat) (digits : List Char) : Option Nat :=
  if digits ≠ [] ∧ digits.all (fun c => isHexadecimal c && decide (digitValue c < base)) then
    some (numeral base digits)
  else none

/-- The number that is written without a sign. A zero at the start is a number of its own or marks
the base. -/
def natural? : List Char → Option Nat
  | '0' :: 'x' :: digits => numeral? 16 digits
  | '0' :: 'o' :: digits => numeral? 8 digits
  | '0' :: 'b' :: digits => numeral? 2 digits
  | '0' :: _ :: _ => none
  | digits => numeral? 10 digits

def integer? (text : String) : Option Int :=
  match text.toList with
  | '-' :: digits => (natural? digits).map fun n => -(n : Int)
  | '+' :: digits => (natural? digits).map fun n => (n : Int)
  | digits => (natural? digits).map fun n => (n : Int)

/-- The texts that stand for an absent value. -/
def isNull (text : String) : Bool := ["~", "null", "Null", "NULL"].contains text

/-- What a scalar stands for where an integer may be missing. With a tag for null it has to be null,
with any other tag it must not be; only the tag for integers makes a number of lines. -/
def optionalInteger? (text : String) : Style → Option String → Option (Option Int)
  | .plain, none => if text = "" ∨ isNull text then some none else some <$> integer? text
  | .plain, some tag =>
    if tag = "tag:yaml.org,2002:null" then if isNull text then some none else none
    else some <$> integer? text
  | .literal, some tag =>
    if tag = "tag:yaml.org,2002:int" then some <$> integer? text else none
  | _, _ => none

def Decoder.optionalInteger (node : Node) : Decoder (Option Int) := do
  match ← content node with
  | .scalar text style tag =>
    match optionalInteger? text style tag with
    | some value => return value
    | none => refuse
  | _ => refuse

end Activation.Yaml
