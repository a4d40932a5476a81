/-!
# Scanners

A scanner reads something from the front of a text, or refuses. What it read is gone from the text;
an alternative after a refusal starts where the refused scanner started.
-/

namespace Activation.Text

abbrev Scanner (α : Type) := StateT (List Char) Option α

namespace Scanner

variable {α : Type}

/-- What a scanner reads from a text that it uses up. -/
def readAll? (scanner : Scanner α) (text : List Char) : Option α :=
  match scanner.run text with
  | some (value, []) => some value
  | _ => none

def refuse : Scanner α := failure

def peek? : Scanner (Option Char) := do return (← get).head?

def atEnd : Scanner Bool := do return (← get).isEmpty

/-- How many characters are left, which bounds every loop that takes one each time. -/
def remaining : Scanner Nat := do return (← get).length

/-- Takes a character of a class. -/
def satisfy (p : Char → Bool) : Scanner Char := do
  match ← get with
  | c :: rest => if p c then set rest; return c else refuse
  | [] => refuse

def char (c : Char) : Scanner Unit := do discard (satisfy (· == c))

def literal (text : String) : Scanner Unit := do
  let chars := text.toList
  let rest ← get
  if chars.isPrefixOf rest then set (rest.drop chars.length) else refuse

/-- Whether the text goes on with these characters. -/
def ahead (text : String) : Scanner Bool := do return text.toList.isPrefixOf (← get)

/-- The longest run of characters of a class, which may be empty. -/
def run (p : Char → Bool) : Scanner (List Char) := do
  let rest ← get
  set (rest.dropWhile p)
  return rest.takeWhile p

/-- The longest run of characters of a class, which must not be empty. -/
def run1 (p : Char → Bool) : Scanner (List Char) := do
  match ← run p with
  | [] => refuse
  | chars => return chars

def exactly (count : Nat) (p : Char → Bool) : Scanner (List Char) := do
  let rest ← get
  let chars := rest.take count
  if chars.length = count ∧ chars.all p then
    set (rest.drop count)
    return chars
  else refuse

/-- What a scanner reads, or nothing where it refuses. -/
def optional? (scanner : Scanner α) : Scanner (Option α) :=
  (some <$> scanner) <|> pure none

end Scanner

/-! ### Digits -/

def isDecimal (c : Char) : Bool := '0' ≤ c && c ≤ '9'

def isHexadecimal (c : Char) : Bool := isDecimal c || ('a' ≤ c && c ≤ 'f') || ('A' ≤ c && c ≤ 'F')

def digitValue (c : Char) : Nat :=
  if isDecimal c then c.toNat - 48 else if 'a' ≤ c then c.toNat - 87 else c.toNat - 55

def numeral (base : Nat) (digits : List Char) : Nat :=
  digits.foldl (fun value digit => base * value + digitValue digit) 0

/-- The character of a code point, if there is one. -/
def character? (code : Nat) : Option Char :=
  if code < 0xd800 ∨ (0xe000 ≤ code ∧ code < 0x110000) then some (Char.ofNat code) else none

end Activation.Text
