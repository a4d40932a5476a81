import Activation.Yaml.Scalar
import Activation.Yaml.Tag

/-!
# Reading YAML tokens

The tokens of a text.
-/

namespace Activation.Yaml

namespace Lex

/-- Moves past blanks, comments and line breaks. A tab counts as a blank only where no key may start
or inside a flow collection. A byte order mark at the start of a line is passed too; what follows it
stands in the second column. -/
def toNextToken : Nat → Lex Unit
  | 0 => return ()
  | fuel + 1 => do
    if (← column) = 0 ∧ (← peek 0) = some '\ufeff' then skip 1
    let flow ← inFlow
    let tabs := flow || !(← get).keyAllowed
    discard (takeWhile fun c => c == ' ' || (tabs && c == '\t'))
    if (← peek 0) = some '#' then discard restOfLine
    if (← peek 0).any isBreak then
      discard readBreak
      unless flow do allowKey true
      toNextToken fuel

/-- Ends all block collections, and allows no key to start. -/
def closeBlocks : Lex Unit := do
  unroll none
  dropKey
  allowKey false

def documentMarker : Lex Unit := do
  closeBlocks
  emit (if ← ahead "---" then .documentStart else .documentEnd)
  skip 3

/-- Reads a directive and the end of its line. -/
def directive : Lex Unit := do
  closeBlocks
  skip 1
  emit (← directiveToken)
  endLine

/-- Reads the start of a flow collection. It can be part of a key, and its first item can be one. -/
def openFlow (token : Token) : Lex Unit := do
  noteKey
  modify fun l => { l with keys := none :: l.keys }
  allowKey true
  skip 1
  emit token

def closeFlow (token : Token) : Lex Unit := do
  dropKey
  if ← inFlow then modify fun l => { l with keys := l.keys.drop 1 }
  allowKey false
  skip 1
  emit token

def flowEntry : Lex Unit := do
  dropKey
  allowKey true
  skip 1
  emit .flowEntry

/-- Starts a block collection at this column, unless it has started. Outside of flow collections its
items start only where keys may. -/
def startBlock (token : Token) : Lex Unit := do
  unless ← inFlow do
    unless (← get).keyAllowed do refuse
    roll (← column) none token

def blockEntry : Lex Unit := do
  startBlock .blockSequenceStart
  dropKey
  allowKey true
  skip 1
  emit .blockEntry

def key : Lex Unit := do
  startBlock .blockMappingStart
  dropKey
  allowKey !(← inFlow)
  skip 1
  emit .key

/-- Reads the colon of a value. What stands before it on the same line is its key. -/
def value : Lex Unit := do
  match (← get).keys with
  | some start :: outer =>
    modify fun l => { l with
      keys := none :: outer
      tokens := l.tokens.insertIdxIfInBounds start.position .key }
    roll start.column (some start.position) .blockMappingStart
    allowKey false
  | _ =>
    startBlock .blockMappingStart
    allowKey !(← inFlow)
  skip 1
  emit .value

/-- Whether a character may stand behind the name of an anchor or an alias. -/
def endsName (c : Char) : Bool :=
  isBlank c || isBreak c || ['?', ':', ',', ']', '}', '%', '@', '\x60'].contains c

/-- Reads the name of an anchor or an alias. -/
def name (token : String → Token) : Lex Unit := do
  noteKey
  allowKey false
  skip 1
  let name ← takeWhile isNameCharacter
  if name = [] then refuse
  unless (← peek 0).all endsName do refuse
  emit (token (String.ofList name))

/-- Reads a tag. It can be part of a key. -/
def tag : Lex Unit := do
  noteKey
  allowKey false
  emit (← tagToken)
  let separated := (← inFlow) && (← peek 0) == some ','
  unless separated || endsWord (← peek 0) do refuse

def keyScalar (scalar : Lex Unit) : Lex Unit := do
  noteKey
  allowKey false
  scalar

def lineScalar (scalar : Lex Unit) : Lex Unit := do
  dropKey
  allowKey true
  scalar

def token (c : Char) : Lex Unit := do
  let next ← peek 1
  let flow ← inFlow
  match c with
  | '[' => openFlow .flowSequenceStart
  | '{' => openFlow .flowMappingStart
  | ']' => closeFlow .flowSequenceEnd
  | '}' => closeFlow .flowMappingEnd
  | ',' => flowEntry
  | '-' => if endsWord next then blockEntry else keyScalar plainScalar
  | '?' => if flow || endsWord next then key else keyScalar plainScalar
  | ':' => if flow || endsWord next then value else keyScalar plainScalar
  | '*' => name .reference
  | '&' => name .anchor
  | '!' => tag
  | '\'' => keyScalar (quotedScalar '\'')
  | '"' => keyScalar (quotedScalar '"')
  | '|' => if flow then refuse else lineScalar (blockScalar true)
  | '>' => if flow then refuse else lineScalar (blockScalar false)
  | _ =>
    if isBlank c || ['#', '%', '@', '\x60'].contains c then refuse
    else keyScalar plainScalar

/-- Reads the next token, and tells whether there was one. -/
def step : Lex Bool := do
  toNextToken ((← remaining) + 1)
  dropStaleKeys
  unroll (some (← column))
  match ← peek 0 with
  | none =>
    closeBlocks
    return false
  | some c =>
    if ← atDocumentMarker then documentMarker
    else if c = '%' ∧ (← column) = 0 then directive
    else token c
    return true

/-- Reads all tokens, each of which takes a character at least. -/
def all : Nat → Lex Unit
  | 0 => refuse
  | fuel + 1 => do if ← step then all fuel

end Lex

def Lexer.ofText (text : String) : Lexer := { rest := text.toList }

def tokens? (text : String) : Option (List Token) := do
  let lexer := Lexer.ofText text
  if lexer.rest.all isAllowed then
    let ((), lexer) ← (Lex.all (lexer.rest.length + 1)).run lexer
    return lexer.tokens.toList
  else none

end Activation.Yaml
