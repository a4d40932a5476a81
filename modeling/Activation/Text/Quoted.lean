import Activation.Text.Visible

/-!
# Quoted text

A text between quotes, as it is shown to someone who must see every character of it.
-/

namespace Activation.Text

/-- How a character is shown between quotes: itself, or an escape that starts with a backslash. A
character without a short escape is written by its code point. -/
def showCharacter (c : Char) : String :=
  match c with
  | '\x00' => "\\0"
  | '\t' => "\\t"
  | '\n' => "\\n"
  | '\r' => "\\r"
  | '"' => "\\\""
  | '\\' => "\\\\"
  | _ =>
    if isVisible c then c.toString
    else "\\u\x7b" ++ String.ofList (Nat.toDigits 16 c.toNat) ++ "\x7d"

def quoted (text : String) : String :=
  "\"" ++ String.join (text.toList.map showCharacter) ++ "\""

end Activation.Text
