import Activation.Yaml.Lexer
import Activation.Yaml.Node

/-!
# Reading YAML documents

The tree that a sequence of tokens writes. Wherever a key, a value or an item is missing between its
indicators, an empty node stands there. A text holds one document at most. Its directives say what
the handles of its tags stand for.
-/

namespace Activation.Yaml

/-- A reader in the middle of the tokens of a document. -/
structure Reading where
  tokens : List Token
  /-- The names of anchors met so far, each with the number in force. -/
  anchors : List (String × Nat) := []
  /-- What handles stand for. -/
  handles : List (String × String) := []

abbrev Reader (α : Type) := StateT Reading Option α

namespace Reader

def refuse {α : Type} : Reader α := failure

def next? : Reader (Option Token) := do return (← get).tokens.head?

def ahead (tokens : List Token) : Reader Bool := do return (← next?).any (tokens.contains ·)

def skip : Reader Unit := modify fun r => { r with tokens := r.tokens.drop 1 }

/-- Drops a token if it comes next, and tells whether it did. -/
def accept (token : Token) : Reader Bool := do
  if ← ahead [token] then
    skip
    return true
  else return false

def expect (token : Token) : Reader Unit := do
  unless ← accept token do refuse

def remaining : Reader Nat := do return (← get).tokens.length

/-- Puts a name in force for the node that follows, and gives its number: the count of names that
were met before, this one included if it was. -/
def bindAnchor (name : String) : Reader Nat := do
  let anchors := (← get).anchors
  let others := anchors.filter fun anchor => anchor.1 != name
  modify fun r => { r with anchors := (name, anchors.length) :: others }
  return anchors.length

/-- The number in force for a name. -/
def anchorNumber (name : String) : Reader Nat := do
  match (← get).anchors.lookup name with
  | some number => return number
  | none => refuse

/-! ### Directives and tags -/

def defaultHandles : List (String × String) := [("!", "!"), ("!!", "tag:yaml.org,2002:")]

def version? : Token → Option (Nat × Nat)
  | .version major minor => some (major, minor)
  | _ => none

def handle? : Token → Option (String × String)
  | .handle name text => some (name, text)
  | _ => none

/-- Reads directives, and tells whether there were any. The version is told once at most, and what a
handle stands for is as well. -/
def directives : Reader Bool := do
  let directives := (← get).tokens.takeWhile fun token =>
    (version? token).isSome || (handle? token).isSome
  let versions := directives.filterMap version?
  let handles := directives.filterMap handle?
  if [[], [(1, 1)], [(1, 2)]].contains versions ∧ (handles.map Prod.fst).Nodup then
    modify fun r => { r with
      tokens := r.tokens.drop directives.length
      handles := handles ++ defaultHandles }
    return !directives.isEmpty
  else refuse

/-- The tag that is written with a handle, or in full. -/
def resolve (handle suffix : String) : Reader String := do
  if handle = "" then return suffix
  else
    match (← get).handles.lookup handle with
    | some text => return text ++ suffix
    | none => refuse

def tag? : Reader (Option String) := do
  match ← next? with
  | some (.tag handle suffix) =>
    skip
    return some (← resolve handle suffix)
  | _ => return none

def anchor? : Reader (Option Nat) := do
  match ← next? with
  | some (.anchor name) =>
    skip
    return some (← bindAnchor name)
  | _ => return none

/-- The anchor and the tag in front of a node, in either order. -/
def properties : Reader (Option Nat × Option String) := do
  let anchor ← anchor?
  let tag ← tag?
  if anchor.isNone ∧ tag.isSome then return (← anchor?, tag) else return (anchor, tag)

/-! ### Collections

The collections are read with the reader of their nodes. The first argument bounds the number of
items. -/

/-- A node, or an empty one if one of these tokens comes next. -/
def orEmpty (ends : List Token) (node : Reader Node) : Reader Node := do
  if ← ahead ends then return .empty else node

def blockItems (node : Reader Node) : Nat → Reader (List Node)
  | 0 => refuse
  | fuel + 1 => do
    if ← accept .blockEntry then
      let item ← orEmpty [.blockEntry, .blockEnd] node
      return item :: (← blockItems node fuel)
    else
      expect .blockEnd
      return []

/-- The items of a sequence that is indented as the mapping around it. -/
def indentlessItems (node : Reader Node) : Nat → Reader (List Node)
  | 0 => refuse
  | fuel + 1 => do
    if ← accept .blockEntry then
      let item ← orEmpty [.blockEntry, .key, .value, .blockEnd] node
      return item :: (← indentlessItems node fuel)
    else return []

/-- The value of a pair whose key was read. -/
def valueOrEmpty (ends : List Token) (node : Reader Node) : Reader Node := do
  if ← accept .value then orEmpty ends node else return .empty

def blockEntries (node : Reader Node) : Nat → Reader (List (Node × Node))
  | 0 => refuse
  | fuel + 1 => do
    if ← accept .key then
      let ends : List Token := [.key, .value, .blockEnd]
      let key ← orEmpty ends node
      let value ← valueOrEmpty ends node
      return (key, value) :: (← blockEntries node fuel)
    else
      expect .blockEnd
      return []

/-- A pair inside a flow sequence. Where its key is missing, the token in its place is dropped. -/
def singlePair (node : Reader Node) : Reader Node := do
  let key ←
    if ← ahead [.value, .flowEntry, .flowSequenceEnd] then
      skip
      pure Node.empty
    else node
  let value ← valueOrEmpty [.flowEntry, .flowSequenceEnd] node
  return .mapping [(key, value)]

def flowItems (node : Reader Node) (first : Bool) : Nat → Reader (List Node)
  | 0 => refuse
  | fuel + 1 => do
    if ← accept .flowSequenceEnd then return []
    else
      unless first do expect .flowEntry
      if ← accept .flowSequenceEnd then return []
      else
        let item ← if ← accept .key then singlePair node else node
        return item :: (← flowItems node false fuel)

def flowEntries (node : Reader Node) (first : Bool) : Nat → Reader (List (Node × Node))
  | 0 => refuse
  | fuel + 1 => do
    if ← accept .flowMappingEnd then return []
    else
      unless first do expect .flowEntry
      if ← accept .flowMappingEnd then return []
      else
        let ends : List Token := [.flowEntry, .flowMappingEnd]
        let entry ←
          if ← accept .key then
            let key ← orEmpty (.value :: ends) node
            let value ← valueOrEmpty ends node
            pure (key, value)
          else
            let key ← node
            pure (key, Node.empty)
        return entry :: (← flowEntries node false fuel)

/-! ### Nodes -/

/-- Where a node stands, which decides what it may be. -/
inductive Place where
  | flow
  | block
  /-- The key or the value of a block mapping, which can be a sequence that is not indented. -/
  | pair
deriving DecidableEq

/-- Reads what a node holds, apart from its properties. With an anchor or a tag it may hold nothing.
The tag `!` tells nothing about a text that is there. -/
def content (place : Place) (anchored : Bool) (tag : Option String) (node : Place → Reader Node) :
    Reader Node := do
  let count := (← remaining) + 1
  match ← next? with
  | some (.scalar text style) =>
    skip
    return .scalar text style (tag.filter (· ≠ "!"))
  | some .flowSequenceStart =>
    skip
    return .sequence (← flowItems (node .flow) true count)
  | some .flowMappingStart =>
    skip
    return .mapping (← flowEntries (node .flow) true count)
  | some .blockEntry =>
    if place = .pair then return .sequence (← indentlessItems (node .block) count)
    else absent
  | some .blockSequenceStart =>
    if place = .flow then absent
    else
      skip
      return .sequence (← blockItems (node .block) count)
  | some .blockMappingStart =>
    if place = .flow then absent
    else
      skip
      return .mapping (← blockEntries (node .pair) count)
  | _ => absent
where
  absent : Reader Node := if anchored || tag.isSome then return .scalar "" .plain tag else refuse

/-- Reads a node; nodes inside it are nested less deep than a bound. -/
def node : Nat → Place → Reader Node
  | 0, _ => refuse
  | depth + 1, place => do
    match ← next? with
    | some (.reference name) =>
      skip
      return .reference (← anchorNumber name)
    | _ =>
      let (anchor, tag) ← properties
      let content ← content place anchor.isSome tag (node depth)
      return match anchor with
        | some number => .anchored number content
        | none => content

/-- Reads a document. Behind directives its start has to be marked. -/
def document : Reader Node := do
  let directed ← directives
  let depth := (← remaining) + 1
  if ← accept .documentStart then
    if (← next?).isNone then return .empty
    else orEmpty [.documentStart, .documentEnd] (node depth .block)
  else if directed then refuse
  else if (← next?).isNone then return .empty
  else node depth .block

/-- Moves past the ends of documents to the end of the tokens. -/
def finish : Reader Unit :=
  modify fun r => { r with tokens := r.tokens.dropWhile (· == Token.documentEnd) }

end Reader

/-- The document that a text writes. Every alias must follow its anchor. -/
def parse? (text : String) : Option Node := do
  let (node, reading) ← (Reader.document <* Reader.finish).run { tokens := ← tokens? text }
  if reading.tokens = [] then return node else none

end Activation.Yaml
