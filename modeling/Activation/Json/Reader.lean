import Activation.Json.Token

/-!
# Reading JSON

A reader takes one token after another and keeps the arrays and objects that are still open. It
accepts a text whose tokens are those of exactly one value.
-/

namespace Activation.Json

/-- An array or object that is still open, with its parts so far in reverse. -/
inductive Container where
  | array (items : List Value)
  | object (members : List (Option String × Value)) (name : Option String)

/-- What the reader is ready for. -/
inductive Expected where
  | value
  /-- The first item of an array, or its end. -/
  | firstItem
  /-- The first name of an object, or its end. -/
  | firstName (members : List (Option String × Value))
  /-- A name, after a comma. -/
  | name (members : List (Option String × Value))
  /-- The colon after a name. -/
  | colon (members : List (Option String × Value)) (name : Option String)
  | separator
  | finished (value : Value)

/-- A reader in the middle of a text: the open containers, the innermost first. -/
structure Reader where
  containers : List Container
  expected : Expected

namespace Reader

def start : Reader := ⟨[], .value⟩

/-- Puts a finished value where it belongs. -/
def supply (value : Value) : List Container → Reader
  | [] => ⟨[], .finished value⟩
  | .array items :: outer => ⟨.array (value :: items) :: outer, .separator⟩
  | .object members name :: outer => ⟨.object ((name, value) :: members) name :: outer, .separator⟩

/-- Starts a value with a token. -/
def begin? (containers : List Container) : Token → Option Reader
  | .null => some (supply .null containers)
  | .bool value => some (supply (.bool value) containers)
  | .number value => some (supply (.number value) containers)
  | .string text => some (supply (.string text) containers)
  | .openBracket => some ⟨.array [] :: containers, .firstItem⟩
  | .openBrace => some ⟨containers, .firstName []⟩
  | _ => none

/-- Takes the next token, or refuses it. -/
def next? (r : Reader) (token : Token) : Option Reader :=
  match r.expected, r.containers, token with
  | .value, containers, token => begin? containers token
  | .firstItem, .array [] :: outer, .closeBracket => some (supply (.array []) outer)
  | .firstItem, containers, token => begin? containers token
  | .firstName _, outer, .closeBrace => some (supply (.object []) outer)
  | .firstName members, outer, .string text => some ⟨outer, .colon members text⟩
  | .name members, outer, .string text => some ⟨outer, .colon members text⟩
  | .colon members name, outer, .colon => some ⟨.object members name :: outer, .value⟩
  | .separator, .array items :: outer, .comma => some ⟨.array items :: outer, .value⟩
  | .separator, .array items :: outer, .closeBracket => some (supply (.array items.reverse) outer)
  | .separator, .object members _ :: outer, .comma => some ⟨outer, .name members⟩
  | .separator, .object members _ :: outer, .closeBrace =>
    some (supply (.object members.reverse) outer)
  | _, _, _ => none

end Reader

/-- The value that a list of tokens writes. -/
def Value.ofTokens? (tokens : List Token) : Option Value := do
  match (← tokens.foldlM Reader.next? Reader.start).expected with
  | .finished value => some value
  | _ => none

/-- The value that a text writes, or nothing where it is no JSON text. -/
def Value.parse? (text : String) : Option Value := do
  Value.ofTokens? (← Token.list? text.toList)

end Activation.Json
