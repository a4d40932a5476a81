import Activation.Text.Scanner
import Activation.Toml.Node

/-!
# TOML strings, numbers and dates
-/

namespace Activation.Toml

open Activation.Text
open Activation.Text.Scanner

def isBlank (c : Char) : Bool := c = ' ' || c = '\t'

/-- A line feed, which may follow a carriage return. -/
def newline : Scanner Unit := literal "\n" <|> literal "\r\n"

/-- The characters that a comment and a literal string may hold. -/
def isPrintable (c : Char) : Bool := c = '\t' || (' ' ≤ c && c ≤ '~') || '\x80' ≤ c

/-! ### Strings -/

def escaped? : Char → Option Char
  | 'b' => some '\x08'
  | 't' => some '\t'
  | 'n' => some '\n'
  | 'f' => some '\x0c'
  | 'r' => some '\r'
  | '"' => some '"'
  | '\\' => some '\\'
  | _ => none

def codePoint (digits : Nat) : Scanner Char := do
  match character? (numeral 16 (← exactly digits isHexadecimal)) with
  | some c => return c
  | none => refuse

def escape : Scanner Char := do
  match ← satisfy fun _ => true with
  | 'u' => codePoint 4
  | 'U' => codePoint 8
  | c =>
    match escaped? c with
    | some c => return c
    | none => refuse

/-- The characters of a basic string that stand for themselves. -/
def isBasic (c : Char) : Bool := isPrintable c && c != '"' && c != '\\'

/-- A basic string after its opening quote. -/
def basicBody : Nat → Scanner (List Char)
  | 0 => refuse
  | fuel + 1 => do
    match ← satisfy fun _ => true with
    | '"' => return []
    | '\\' =>
      let c ← escape
      return c :: (← basicBody fuel)
    | c => if isBasic c then return c :: (← basicBody fuel) else refuse

/-- A line end that a backslash hides, with all blanks and line ends after it. -/
def hiddenLineEnd (fuel : Nat) : Scanner Unit := do
  discard (run isBlank)
  newline
  skip fuel
where
  skip : Nat → Scanner Unit
    | 0 => pure ()
    | fuel + 1 => do
      discard (run isBlank)
      match ← optional? newline with
      | some _ => skip fuel
      | none => pure ()

/-- The quotes at the end of a string of several lines: three end it, up to two more belong to it.
Gives the quotes that belong to the string, and whether it ended. -/
def quotes (quote : Char) : Scanner (List Char × Bool) := do
  let count := (← run (· == quote)).length
  if count < 3 then return (List.replicate count quote, false)
  else if count ≤ 5 then return (List.replicate (count - 3) quote, true)
  else refuse

/-- A basic string of several lines after its opening quotes. -/
def basicLines : Nat → Scanner (List Char)
  | 0 => refuse
  | fuel + 1 => do
    match ← peek? with
    | none => refuse
    | some '"' =>
      let (kept, ended) ← quotes '"'
      if ended then return kept else return kept ++ (← basicLines fuel)
    | some '\\' =>
      char '\\'
      match ← optional? (hiddenLineEnd fuel) with
      | some _ => basicLines fuel
      | none =>
        let c ← escape
        return c :: (← basicLines fuel)
    | some _ =>
      match ← optional? newline with
      | some _ => return '\n' :: (← basicLines fuel)
      | none =>
        let c ← satisfy isBasic
        return c :: (← basicLines fuel)

def isLiteral (c : Char) : Bool := isPrintable c && c != '\''

/-- A literal string of several lines after its opening quotes. -/
def literalLines : Nat → Scanner (List Char)
  | 0 => refuse
  | fuel + 1 => do
    match ← peek? with
    | none => refuse
    | some '\'' =>
      let (kept, ended) ← quotes '\''
      if ended then return kept else return kept ++ (← literalLines fuel)
    | some _ =>
      match ← optional? newline with
      | some _ => return '\n' :: (← literalLines fuel)
      | none =>
        let c ← satisfy isLiteral
        return c :: (← literalLines fuel)

def lineString : Scanner String := do
  match ← satisfy fun c => c = '"' || c = '\'' with
  | '"' => return String.ofList (← basicBody (← remaining))
  | _ =>
    let chars ← run isLiteral
    char '\''
    return String.ofList chars

def string : Scanner String := do
  if ← ahead "\"\"\"" then
    literal "\"\"\""
    discard (optional? newline)
    return String.ofList (← basicLines (← remaining))
  else if ← ahead "'''" then
    literal "'''"
    discard (optional? newline)
    return String.ofList (← literalLines (← remaining))
  else lineString

/-! ### Numbers -/

/-- Whether two underscores stand side by side. -/
def hasDoubleUnderscore : List Char → Bool
  | '_' :: '_' :: _ => true
  | _ :: rest => hasDoubleUnderscore rest
  | [] => false

/-- Digits of a class, where a single underscore may stand between two of them. -/
def digits (p : Char → Bool) : Scanner (List Char) := do
  let chars ← run1 fun c => p c || c == '_'
  if chars.head? = some '_' ∨ chars.getLast? = some '_' ∨ hasDoubleUnderscore chars then refuse
  else return chars.filter p

def sign : Scanner Bool := do
  match ← optional? (satisfy fun c => c = '+' || c = '-') with
  | some c => return c == '-'
  | none => return false

/-- The digits of a decimal integer, which has no leading zero. -/
def wholeDigits : Scanner (List Char) := do
  match ← peek? with
  | some '0' =>
    char '0'
    return ['0']
  | _ => digits isDecimal

/-- The integers that a document can hold are those of 64 bits. -/
def int64? (value : Int) : Scanner Node := do
  if Int64.minValue.toInt ≤ value ∧ value ≤ Int64.maxValue.toInt then return .integer value
  else refuse

/-- An integer. Bases other than ten have a marker and no sign. -/
def integer : Scanner Node := do
  if ← ahead "0x" then
    literal "0x"
    int64? (numeral 16 (← digits isHexadecimal))
  else if ← ahead "0o" then
    literal "0o"
    int64? (numeral 8 (← digits fun c => '0' ≤ c && c ≤ '7'))
  else if ← ahead "0b" then
    literal "0b"
    int64? (numeral 2 (← digits fun c => c == '0' || c == '1'))
  else
    let negative ← sign
    let value : Int := numeral 10 (← wholeDigits)
    int64? (if negative then -value else value)

/-- Whether `mantissa * 10 ^ exponent` is so large that the nearest double is infinite. -/
def isBeyondDoubles (mantissa : Nat) (exponent : Int) : Bool :=
  let limit := Nat.pow 2 1024 - Nat.pow 2 970
  let magnitude := (Nat.toDigits 10 mantissa).length + exponent
  if mantissa = 0 ∨ magnitude < 300 then false
  else if magnitude > 320 then true
  else if exponent < 0 then limit * Nat.pow 10 exponent.natAbs ≤ mantissa
  else limit ≤ mantissa * Nat.pow 10 exponent.natAbs

def exponent : Scanner Int := do
  discard (satisfy fun c => c = 'e' || c = 'E')
  let negative ← sign
  let value : Int := numeral 10 (← digits isDecimal)
  return if negative then -value else value

/-- A number with a fraction, an exponent, or both. One that rounds to infinity is refused. -/
def decimalFloat : Scanner Node := do
  let negative ← sign
  let whole ← wholeDigits
  let fraction ←
    if ← ahead "." then
      char '.'
      digits isDecimal
    else pure []
  let scale ←
    match ← peek? with
    | some 'e' => exponent
    | some 'E' => exponent
    | _ => if fraction = [] then refuse else pure 0
  if !negative && isBeyondDoubles (numeral 10 (whole ++ fraction)) (scale - fraction.length) then
    refuse
  else return .float

/-- An infinity or a value that is no number. -/
def specialFloat : Scanner Node := do
  discard sign
  literal "inf" <|> literal "nan"
  return .float

/-! ### Dates and times -/

def twoDigits (low high : Nat) : Scanner Nat := do
  let value := numeral 10 (← exactly 2 isDecimal)
  if low ≤ value ∧ value ≤ high then return value else refuse

def daysIn (year month : Nat) : Nat :=
  if month = 2 then
    if year % 4 = 0 ∧ (year % 100 ≠ 0 ∨ year % 400 = 0) then 29 else 28
  else if month = 4 ∨ month = 6 ∨ month = 9 ∨ month = 11 then 30
  else 31

def date : Scanner Unit := do
  let year := numeral 10 (← exactly 4 isDecimal)
  char '-'
  let month ← twoDigits 1 12
  char '-'
  discard (twoDigits 1 (daysIn year month))

def time : Scanner Unit := do
  discard (twoDigits 0 23)
  char ':'
  discard (twoDigits 0 59)
  char ':'
  discard (twoDigits 0 60)
  if ← ahead "." then
    char '.'
    discard (run1 isDecimal)

/-- How far a time is from universal time. -/
def offset : Scanner Unit := do
  match ← satisfy fun c => c = 'Z' || c = 'z' || c = '+' || c = '-' with
  | '+' => hoursAndMinutes
  | '-' => hoursAndMinutes
  | _ => return ()
where
  hoursAndMinutes : Scanner Unit := do
    discard (twoDigits 0 23)
    char ':'
    discard (twoDigits 0 59)

def dateTime : Scanner Node := do
  (do
    date
    discard (optional? do
      discard (satisfy fun c => c = 'T' || c = 't' || c = ' ')
      time
      discard (optional? offset))) <|> time
  return .dateTime

def number : Scanner Node := dateTime <|> decimalFloat <|> integer <|> specialFloat

def boolean : Scanner Node := do
  if ← ahead "t" then
    literal "true"
    return .boolean true
  else
    literal "false"
    return .boolean false

end Activation.Toml
