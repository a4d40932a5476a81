import Activation.Json.Token

/-!
# Writing JSON

Values in compact form: no blanks, members and items in their order. What reads as no integer or as
no text is written as the shortest literal that does, so that every value reads back as it was.
-/

namespace Activation.Json

def hexDigit (n : Nat) : Char :=
  if n < 10 then Char.ofNat (48 + n) else Char.ofNat (87 + n)

/-- A character inside a string. Quotes, backslashes and control characters are escaped, the common
control characters by a letter. -/
def escape (c : Char) : List Char :=
  if c = '"' then ['\\', '"']
  else if c = '\\' then ['\\', '\\']
  else if c = '\x08' then ['\\', 'b']
  else if c = '\t' then ['\\', 't']
  else if c = '\n' then ['\\', 'n']
  else if c = '\x0c' then ['\\', 'f']
  else if c = '\r' then ['\\', 'r']
  else if c.toNat < 32 then ['\\', 'u', '0', '0', hexDigit (c.toNat / 16), hexDigit (c.toNat % 16)]
  else [c]

def quote : Option String → List Char
  | some text => '"' :: text.toList.flatMap escape ++ ['"']
  | none => ['"', '\\', 'u', 'd', '8', '0', '0', '"']

def integer : Int → List Char
  | .ofNat n => Nat.toDigits 10 n
  | .negSucc n => '-' :: Nat.toDigits 10 (n + 1)

def Number.render : Number → List Char
  | .integer value => Json.integer value
  | .real => ['-', '0']

namespace Value

mutual

def render : Value → List Char
  | .null => ['n', 'u', 'l', 'l']
  | .bool true => ['t', 'r', 'u', 'e']
  | .bool false => ['f', 'a', 'l', 's', 'e']
  | .number value => value.render
  | .string text => quote text
  | .array [] => ['[', ']']
  | .array (item :: items) => '[' :: item.render ++ renderItems items
  | .object [] => ['{', '}']
  | .object ((name, value) :: members) =>
    '{' :: quote name ++ ':' :: value.render ++ renderMembers members

/-- The items after the first, and the end of the array. -/
def renderItems : List Value → List Char
  | [] => [']']
  | item :: items => ',' :: item.render ++ renderItems items

/-- The members after the first, and the end of the object. -/
def renderMembers : List (Option String × Value) → List Char
  | [] => ['}']
  | (name, value) :: members => ',' :: quote name ++ ':' :: value.render ++ renderMembers members

end

def text (v : Value) : String := String.ofList v.render

end Value

end Activation.Json
