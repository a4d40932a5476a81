import Activation.Json.Value

/-!
# JSON tokens

The tokens of a JSON text: punctuation, literals, numbers and strings, with blanks between them.
Every token takes at least one character, so a text falls into tokens by recursion on its length.
-/

namespace Activation.Json

inductive Token where
  | openBrace
  | closeBrace
  | openBracket
  | closeBracket
  | comma
  | colon
  | null
  | bool (value : Bool)
  | number (value : Number)
  | string (text : Option String)
deriving DecidableEq, Repr

namespace Token

def isBlank (c : Char) : Bool := c = ' ' || c = '\t' || c = '\n' || c = '\r'

def isDigit (c : Char) : Bool := '0' ≤ c && c ≤ '9'

def decimal (digits : List Char) : Nat :=
  digits.foldl (fun value digit => 10 * value + (digit.toNat - 48)) 0

/-! ### Numbers -/

/-- A non-empty run of digits, and what follows it. -/
def digits? (cs : List Char) : Option (List Char × List Char) :=
  match cs.takeWhile isDigit with
  | [] => none
  | digits => some (digits, cs.dropWhile isDigit)

/-- A run of digits without a leading zero, and what follows it. -/
def whole? : List Char → Option (List Char × List Char)
  | '0' :: rest => some (['0'], rest)
  | cs => digits? cs

/-- Whether a fraction follows, and what follows it; nothing where a point has no digits. -/
def fraction? : List Char → Option (Bool × List Char)
  | '.' :: rest => (digits? rest).map fun (_, rest) => (true, rest)
  | cs => some (false, cs)

/-- Whether an exponent follows, and what follows it; nothing where it has no digits. -/
def exponent? : List Char → Option (Bool × List Char)
  | c :: rest =>
    if c = 'e' ∨ c = 'E' then
      match rest with
      | '+' :: rest => (digits? rest).map fun (_, rest) => (true, rest)
      | '-' :: rest => (digits? rest).map fun (_, rest) => (true, rest)
      | rest => (digits? rest).map fun (_, rest) => (true, rest)
    else some (false, c :: rest)
  | [] => some (false, [])

/-- A number whose sign has been read. -/
def number? (negative : Bool) (cs : List Char) : Option (Number × List Char) := do
  let (whole, rest) ← whole? cs
  let (hasFraction, rest) ← fraction? rest
  let (hasExponent, rest) ← exponent? rest
  let value := decimal whole
  if hasFraction || hasExponent || (negative && value == 0) then
    return (.real, rest)
  else
    return (.integer (if negative then -value else value), rest)

/-! ### Strings -/

def hexDigit? (c : Char) : Option Nat :=
  if '0' ≤ c ∧ c ≤ '9' then some (c.toNat - 48)
  else if 'a' ≤ c ∧ c ≤ 'f' then some (c.toNat - 87)
  else if 'A' ≤ c ∧ c ≤ 'F' then some (c.toNat - 55)
  else none

def escaped? : Char → Option Char
  | '"' => some '"'
  | '\\' => some '\\'
  | '/' => some '/'
  | 'b' => some '\x08'
  | 'f' => some '\x0c'
  | 'n' => some '\n'
  | 'r' => some '\r'
  | 't' => some '\t'
  | _ => none

/-- The code points and surrogates of a string up to its closing quote, and what follows it. -/
def codes? : List Char → Option (List Nat × List Char)
  | [] => none
  | '"' :: rest => some ([], rest)
  | '\\' :: 'u' :: a :: b :: c :: d :: rest => do
    let code :=
      4096 * (← hexDigit? a) + 256 * (← hexDigit? b) + 16 * (← hexDigit? c) + (← hexDigit? d)
    let (codes, rest) ← codes? rest
    return (code :: codes, rest)
  | '\\' :: c :: rest => do
    let char ← escaped? c
    let (codes, rest) ← codes? rest
    return (char.toNat :: codes, rest)
  | c :: rest =>
    if c.toNat < 32 ∨ c = '\\' then none
    else do
      let (codes, rest) ← codes? rest
      return (c.toNat :: codes, rest)

def isHighSurrogate (code : Nat) : Bool := 0xd800 ≤ code && code < 0xdc00

def isLowSurrogate (code : Nat) : Bool := 0xdc00 ≤ code && code < 0xe000

/-- Joins surrogate pairs. A half that stands alone names no character. -/
def characters? : List Nat → Option (List Char)
  | [] => some []
  | [code] => if isHighSurrogate code || isLowSurrogate code then none else some [Char.ofNat code]
  | code :: next :: codes =>
    if isHighSurrogate code then
      if isLowSurrogate next then
        (characters? codes).map
          (Char.ofNat (0x10000 + 0x400 * (code - 0xd800) + (next - 0xdc00)) :: ·)
      else none
    else if isLowSurrogate code then none
    else (characters? (next :: codes)).map (Char.ofNat code :: ·)

/-- The text of a string up to its closing quote, and what follows it. -/
def string? (cs : List Char) : Option (Option String × List Char) := do
  let (codes, rest) ← codes? cs
  return ((characters? codes).map String.ofList, rest)

/-! ### All tokens -/

/-- The token that a text without leading blanks starts with, and what follows it. -/
def first? : List Char → Option (Token × List Char)
  | '{' :: rest => some (.openBrace, rest)
  | '}' :: rest => some (.closeBrace, rest)
  | '[' :: rest => some (.openBracket, rest)
  | ']' :: rest => some (.closeBracket, rest)
  | ',' :: rest => some (.comma, rest)
  | ':' :: rest => some (.colon, rest)
  | 'n' :: 'u' :: 'l' :: 'l' :: rest => some (.null, rest)
  | 't' :: 'r' :: 'u' :: 'e' :: rest => some (.bool true, rest)
  | 'f' :: 'a' :: 'l' :: 's' :: 'e' :: rest => some (.bool false, rest)
  | '"' :: rest => (string? rest).map fun (text, rest) => (.string text, rest)
  | '-' :: rest => (number? true rest).map fun (value, rest) => (.number value, rest)
  | cs => (number? false cs).map fun (value, rest) => (.number value, rest)

private theorem digits?_shorter {cs digits rest : List Char}
    (found : digits? cs = some (digits, rest)) : rest.length < cs.length := by
  unfold digits? at found
  split at found
  · cases found
  next shape nonempty =>
    cases found
    have split := congrArg List.length (List.takeWhile_append_dropWhile (p := isDigit) (l := cs))
    have positive : 0 < (cs.takeWhile isDigit).length := by
      cases taken : cs.takeWhile isDigit with
      | nil => exact absurd taken nonempty
      | cons => simp
    rw [List.length_append] at split
    omega

private theorem whole?_shorter {cs whole rest : List Char}
    (found : whole? cs = some (whole, rest)) : rest.length < cs.length := by
  unfold whole? at found
  split at found
  · cases found
    simp
  · exact digits?_shorter found

private theorem fraction?_le {cs rest : List Char} {has : Bool}
    (found : fraction? cs = some (has, rest)) : rest.length ≤ cs.length := by
  unfold fraction? at found
  split at found
  · obtain ⟨⟨digits, after⟩, run, same⟩ := Option.map_eq_some_iff.mp found
    cases same
    have := digits?_shorter run
    simp only [List.length_cons]
    omega
  · cases found
    exact Nat.le_refl _

private theorem exponent?_le {cs rest : List Char} {has : Bool}
    (found : exponent? cs = some (has, rest)) : rest.length ≤ cs.length := by
  unfold exponent? at found
  split at found
  next c after =>
    split at found
    · split at found
      all_goals
        obtain ⟨⟨digits, later⟩, run, same⟩ := Option.map_eq_some_iff.mp found
        cases same
        have := digits?_shorter run
        simp only [List.length_cons]
        omega
    · cases found
      exact Nat.le_refl _
  · cases found
    exact Nat.le_refl _

private theorem number?_shorter {negative : Bool} {cs rest : List Char} {number : Number}
    (found : number? negative cs = some (number, rest)) : rest.length < cs.length := by
  unfold number? at found
  simp only [Option.bind_eq_bind, Option.bind_eq_some_iff] at found
  obtain ⟨⟨whole, afterWhole⟩, first, ⟨hasFraction, afterFraction⟩, second,
    ⟨hasExponent, afterExponent⟩, third, last⟩ := found
  have := whole?_shorter first
  have := fraction?_le second
  have := exponent?_le third
  split at last <;> cases last <;> dsimp only at * <;> omega

private theorem codes?_shorter {cs rest : List Char} {codes : List Nat}
    (found : codes? cs = some (codes, rest)) : rest.length < cs.length := by
  fun_induction codes? cs generalizing codes with
  | case1 => cases found
  | case2 => cases found; simp
  | case3 a b c d later ih =>
    simp only [Option.bind_eq_bind, Option.bind_eq_some_iff] at found
    obtain ⟨_, _, _, _, _, _, _, _, ⟨inner, after⟩, deeper, same⟩ := found
    cases same
    have := ih deeper
    simp only [List.length_cons] at *
    omega
  | case4 c later _ ih =>
    simp only [Option.bind_eq_bind, Option.bind_eq_some_iff] at found
    obtain ⟨_, _, ⟨inner, after⟩, deeper, same⟩ := found
    cases same
    have := ih deeper
    simp only [List.length_cons] at *
    omega
  | case5 => cases found
  | case6 c later _ _ _ _ ih =>
    simp only [Option.bind_eq_bind, Option.bind_eq_some_iff] at found
    obtain ⟨⟨inner, after⟩, deeper, same⟩ := found
    cases same
    have := ih deeper
    simp only [List.length_cons] at *
    omega

theorem first?_shorter {cs rest : List Char} {token : Token}
    (found : first? cs = some (token, rest)) : rest.length < cs.length := by
  unfold first? at found
  split at found
  case h_10 =>
    obtain ⟨⟨text, after⟩, read, same⟩ := Option.map_eq_some_iff.mp found
    cases same
    simp only [string?, Option.bind_eq_bind, Option.bind_eq_some_iff] at read
    obtain ⟨⟨codes, later⟩, run, same⟩ := read
    cases same
    have := codes?_shorter run
    simp only [List.length_cons]
    omega
  case h_11 =>
    obtain ⟨⟨number, after⟩, read, same⟩ := Option.map_eq_some_iff.mp found
    cases same
    have := number?_shorter read
    simp only [List.length_cons]
    omega
  case h_12 =>
    obtain ⟨⟨number, after⟩, read, same⟩ := Option.map_eq_some_iff.mp found
    cases same
    exact number?_shorter read
  all_goals
    cases found
    simp only [List.length_cons]
    omega

private theorem length_dropWhile_le (cs : List Char) :
    (cs.dropWhile isBlank).length ≤ cs.length :=
  (List.dropWhile_suffix isBlank).length_le

/-- The tokens of a text, or nothing where some part of it is no token. -/
def list? (cs : List Char) : Option (List Token) :=
  match cs.dropWhile isBlank, length_dropWhile_le cs with
  | [], _ => some []
  | c :: more, _ =>
    match found : first? (c :: more) with
    | none => none
    | some (token, rest) =>
      have := first?_shorter found
      (list? rest).map (token :: ·)
termination_by cs.length

end Token

end Activation.Json
