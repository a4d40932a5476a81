import Activation.Yaml.Token

/-!
# YAML tags and directives

A tag is written in full, or as a handle and a suffix. Directives in front of a document tell the
version of the language and what handles stand for. Characters that cannot stand in a tag are
written by their octets in UTF-8, and a tag is kept as a sequence of octets, one character each.
-/

namespace Activation.Yaml

open Activation.Text

namespace Lex

/-! ### Octets -/

/-- Reads an octet, which is written as two hexadecimal digits. -/
def octet : Lex Nat := do
  match (← get).rest with
  | '%' :: high :: low :: _ =>
    if isHexadecimal high ∧ isHexadecimal low then
      skip 3
      return numeral 16 [high, low]
    else refuse
  | _ => refuse

/-- Reads an octet that is not the first one of its character. -/
def laterOctet : Lex Nat := do
  let octet ← octet
  if 0x80 ≤ octet ∧ octet < 0xc0 then return octet else refuse

/-- How many octets follow the first one of a character. -/
def laterOctets? (first : Nat) : Option Nat :=
  if first < 0x80 then some 0
  else if first < 0xc0 then none
  else if first < 0xe0 then some 1
  else if first < 0xf0 then some 2
  else if first < 0xf8 then some 3
  else none

def escapedCharacter : Lex (List Char) := do
  let first ← octet
  match laterOctets? first with
  | some count =>
    let later ← (List.replicate count laterOctet).mapM id
    return (first :: later).map Char.ofNat
  | none => refuse

/-! ### Tags -/

/-- Whether a character may stand in a tag. The separators of flow collections may only in a tag
that is written in full. -/
def isTagCharacter (full : Bool) (c : Char) : Bool :=
  isNameCharacter c || ";/?:@&=+$.!~*'()".toList.contains c || (full && [',', '[', ']'].contains c)

def tagCharacters (full : Bool) : Nat → Lex (List Char)
  | 0 => return []
  | fuel + 1 => do
    match ← peek 0 with
    | none => return []
    | some c =>
      if c = '%' then
        let chars ← escapedCharacter
        return chars ++ (← tagCharacters full fuel)
      else if isTagCharacter full c then
        skip 1
        return c :: (← tagCharacters full fuel)
      else return []

/-- The text of a tag, which ends in front of a zero octet. -/
def tagText (octets : List Char) : String := String.ofList (octets.takeWhile (· != '\x00'))

/-- Reads a part of a tag that must not be left out. -/
def tagPart (full : Bool) : Lex String := do
  match ← tagCharacters full (← remaining) with
  | [] => refuse
  | octets => return tagText octets

/-- Reads the name of a handle, and tells whether it is closed by a second mark. -/
def handleName : Lex (List Char × Bool) := do
  if (← peek 0) = some '!' then
    skip 1
    let name ← takeWhile isNameCharacter
    if (← peek 0) = some '!' then
      skip 1
      return (name, true)
    else return (name, false)
  else refuse

/-- The text of a handle. -/
def handleText (name : List Char) (closed : Bool) : String :=
  String.ofList ('!' :: name ++ if closed then ['!'] else [])

/-- Reads a tag. What looks like a handle but is not closed is the start of a suffix; where that is
empty, the mark is the whole tag. -/
def tagToken : Lex Token := do
  if ← ahead "!<" then
    skip 2
    let text ← tagPart true
    if (← peek 0) = some '>' then
      skip 1
      return .tag "" text
    else refuse
  else
    let (name, closed) ← handleName
    if closed then return .tag (handleText name true) (← tagPart false)
    else
      let suffix := tagText (name ++ (← tagCharacters false (← remaining)))
      if suffix = "" then return .tag "" "!" else return .tag "!" suffix

/-! ### Directives -/

def versionNumber : Lex Nat := do
  let digits ← takeWhile isDecimal
  if digits = [] ∨ 9 < digits.length then refuse else return numeral 10 digits

def version : Lex Token := do
  let major ← versionNumber
  if (← peek 0) = some '.' then
    skip 1
    return .version major (← versionNumber)
  else refuse

def handle : Lex Token := do
  let (name, closed) ← handleName
  if (closed ∨ name = []) ∧ (← peek 0).any isBlank then
    skipBlanks
    let text ← tagPart true
    if endsWord (← peek 0) then return .handle (handleText name closed) text else refuse
  else refuse

/-- Reads what follows the indicator of a directive. -/
def directiveToken : Lex Token := do
  let name ← takeWhile isNameCharacter
  if endsWord (← peek 0) then
    skipBlanks
    match String.ofList name with
    | "YAML" => version
    | "TAG" => handle
    | _ => refuse
  else refuse

end Lex

end Activation.Yaml
