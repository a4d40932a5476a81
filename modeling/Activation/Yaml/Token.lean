import Activation.Text.Scanner
import Activation.Yaml.Node

/-!
# YAML tokens

A YAML text is a sequence of tokens. Indentation is part of it: a block collection starts where the
column grows and ends where it falls back. Whether something is a key is known only when its colon
is met, so a lexer keeps the places where a key may have started and puts the tokens of a key there
afterwards.
-/

namespace Activation.Yaml

inductive Token where
  /-- A directive that tells the version of the language. -/
  | version (major minor : Nat)
  /-- A directive that tells what a handle stands for in tags. -/
  | handle (name text : String)
  | documentStart
  | documentEnd
  | blockSequenceStart
  | blockMappingStart
  | blockEnd
  | flowSequenceStart
  | flowSequenceEnd
  | flowMappingStart
  | flowMappingEnd
  | blockEntry
  | flowEntry
  | key
  | value
  /-- An alias, which stands for the node with an anchor. -/
  | reference (name : String)
  | anchor (name : String)
  /-- A tag. Without a handle, the suffix is all of it. -/
  | tag (handle suffix : String)
  | scalar (text : String) (style : Style)
deriving DecidableEq, Repr

/-! ### Characters -/

def isAllowed (c : Char) : Bool :=
  let code := c.toNat
  c == '\t' || c == '\n' || c == '\r' || (0x20 ≤ code && code ≤ 0x7e) || code == 0x85 ||
    (0xa0 ≤ code && code ≤ 0xfffd) || 0x10000 ≤ code

def isBlank (c : Char) : Bool := c == ' ' || c == '\t'

def isBreak (c : Char) : Bool :=
  c == '\n' || c == '\r' || c == '\x85' || c == '\u2028' || c == '\u2029'

def endsLine (c : Option Char) : Bool := c.all isBreak

def endsWord (c : Option Char) : Bool := c.all fun c => isBlank c || isBreak c

def isNameCharacter (c : Char) : Bool := c.isAlphanum || c == '-' || c == '_'

/-- The indicators of flow collections. -/
def isFlowIndicator (c : Char) : Bool := c == ',' || c == '[' || c == ']' || c == '{' || c == '}'

def utf8Length (chars : List Char) : Nat := chars.foldl (fun length c => length + c.utf8Size) 0

/-! ### The state of a lexer -/

/-- A place where a key may have started. -/
structure KeyStart where
  /-- How many tokens stand before it. -/
  position : Nat
  /-- Whether nothing but a key may stand there. -/
  required : Bool
  index : Nat
  line : Nat
  column : Nat

/-- A lexer in the middle of a text. -/
structure Lexer where
  rest : List Char
  /-- How many bytes of the text were read, in all. -/
  index : Nat := 0
  line : Nat := 0
  column : Nat := 0
  tokens : Array Token := #[]
  /-- The columns of the open block collections, the innermost first. -/
  indents : List Nat := []
  /-- The place where a key may have started at each level of flow collections, the innermost first;
  the last one is the place outside of all of them. -/
  keys : List (Option KeyStart) := [none]
  /-- Whether a key may start here. -/
  keyAllowed : Bool := true

abbrev Lex (α : Type) := StateT Lexer Option α

namespace Lex

def refuse {α : Type} : Lex α := failure

def peek (distance : Nat) : Lex (Option Char) := do return (← get).rest[distance]?

def ahead (text : String) : Lex Bool := do return text.toList.isPrefixOf (← get).rest

def column : Lex Nat := do return (← get).column

/-- How many characters are left, which bounds every loop that takes one each time. -/
def remaining : Lex Nat := do return (← get).rest.length

/-- Moves past characters of the same line. -/
def skip (count : Nat) : Lex Unit :=
  modify fun l => { l with
    rest := l.rest.drop count
    index := l.index + utf8Length (l.rest.take count)
    column := l.column + count }

/-- Moves past a line break, and gives the text that it stands for. -/
def readBreak : Lex (List Char) := do
  let l ← get
  let after (rest : List Char) (read : List Char) : Lexer :=
    { l with rest, index := l.index + utf8Length read, line := l.line + 1, column := 0 }
  match l.rest with
  | '\r' :: '\n' :: rest =>
    set (after rest ['\r', '\n'])
    return ['\n']
  | c :: rest =>
    if isBreak c then
      set (after rest [c])
      return if c == '\u2028' || c == '\u2029' then [c] else ['\n']
    else return []
  | [] => return []

/-- Reads characters of a class, as many as there are. -/
def takeWhile (p : Char → Bool) : Lex (List Char) := do
  let chars := (← get).rest.takeWhile p
  skip chars.length
  return chars

def skipBlanks : Lex Unit := discard (takeWhile isBlank)

def restOfLine : Lex (List Char) := takeWhile fun c => !isBreak c

/-- Moves past the end of a line, in front of which only blanks and a comment may stand. -/
def endLine : Lex Unit := do
  skipBlanks
  if (← peek 0) = some '#' then discard restOfLine
  unless endsLine (← peek 0) do refuse
  discard readBreak

def emit (token : Token) : Lex Unit := modify fun l => { l with tokens := l.tokens.push token }

def inFlow : Lex Bool := do return decide (1 < (← get).keys.length)

/-- The column of the innermost block collection, one less than the first column if there is
none. -/
def indent : Lex Int := do
  match (← get).indents with
  | [] => return -1
  | column :: _ => return column

def allowKey (allowed : Bool) : Lex Unit := modify fun l => { l with keyAllowed := allowed }

/-- Whether a document marker stands at the start of this line. -/
def atDocumentMarker : Lex Bool := do
  if (← column) = 0 ∧ ((← ahead "---") ∨ (← ahead "...")) then return endsWord (← peek 3)
  else return false

/-! ### Keys and indentation -/

/-- Forgets the place where a key may have started at this level. It is an error if a key had to
stand there. -/
def dropKey : Lex Unit := do
  match (← get).keys with
  | some start :: outer =>
    if start.required then refuse else modify fun l => { l with keys := none :: outer }
  | _ => return ()

/-- Notes that a key may start here, if it is allowed to. -/
def noteKey : Lex Unit := do
  let l ← get
  if l.keyAllowed then
    let required := !(← inFlow) && (← indent) == l.column
    dropKey
    let start : KeyStart := ⟨l.tokens.size, required, l.index, l.line, l.column⟩
    modify fun l => { l with keys := some start :: l.keys.drop 1 }

/-- How many bytes a key may take, up to the place where its colon is looked for. -/
def keyLimit : Nat := 1024

/-- Forgets all places that are on an earlier line or too far away to be those of a key. -/
def dropStaleKeys : Lex Unit := do
  let l ← get
  let stale (start : KeyStart) : Bool := start.line < l.line || start.index + keyLimit < l.index
  let keep (key : Option KeyStart) : Option KeyStart := key.filter fun start => !stale start
  if l.keys.any fun key => key.any fun start => stale start && start.required then refuse
  else set { l with keys := l.keys.map keep }

/-- Ends the block collections that are indented more than a column, all of them without one. -/
def unroll (column : Option Nat) : Lex Unit := do
  unless ← inFlow do
    let l ← get
    let deeper := l.indents.takeWhile fun indent => column.all (· < indent)
    set { l with
      indents := l.indents.drop deeper.length
      tokens := l.tokens ++ deeper.map fun _ => Token.blockEnd }

/-- Starts a block collection if the column is deeper than that of the innermost one. Its token goes
to a position among those that were read, or to their end. -/
def roll (column : Nat) (position : Option Nat) (token : Token) : Lex Unit := do
  unless ← inFlow do
    if (← indent) < column then
      modify fun l => { l with
        indents := column :: l.indents
        tokens :=
          match position with
          | some position => l.tokens.insertIdxIfInBounds position token
          | none => l.tokens.push token }

end Lex

end Activation.Yaml
