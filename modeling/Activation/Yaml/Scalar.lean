import Activation.Yaml.Token

/-!
# YAML scalars

Plain, quoted and block scalars. Plain and quoted scalars fold line breaks: one between two lines
stands for a space, further ones for themselves. Block scalars keep their lines, or fold those that
are not indented further.
-/

namespace Activation.Yaml

open Activation.Text
open Activation.Yaml.Lex

/-- Blanks and line breaks between two words of a scalar. -/
structure Gap where
  blanks : List Char := []
  firstBreak : List Char := []
  moreBreaks : List Char := []
  /-- Whether a line ended in the gap. -/
  broken : Bool := false

namespace Gap

/-- What a gap stands for. -/
def fold (gap : Gap) : List Char :=
  if gap.broken then
    if gap.firstBreak.head? = some '\n' then
      if gap.moreBreaks = [] then [' '] else gap.moreBreaks
    else gap.firstBreak ++ gap.moreBreaks
  else gap.blanks

/-- Reads blanks and line breaks. Where a least column is given, no tab may stand before it on a
later line. -/
def read (least : Option Int) : Nat → Gap → Lex Gap
  | 0, gap => return gap
  | fuel + 1, gap => do
    match ← peek 0 with
    | none => return gap
    | some c =>
      if isBlank c then
        let column ← column
        if gap.broken ∧ c = '\t' ∧ least.any (Int.ofNat column < ·) then refuse
        else
          skip 1
          read least fuel (if gap.broken then gap else { gap with blanks := gap.blanks ++ [c] })
      else if isBreak c then
        let text ← readBreak
        read least fuel
          (if gap.broken then { gap with moreBreaks := gap.moreBreaks ++ text }
          else { firstBreak := text, broken := true })
      else return gap

end Gap

/-! ### Plain scalars -/

/-- Characters of a plain scalar up to a blank, a line break or an indicator that ends it. -/
def plainWord (flow : Bool) : Nat → Lex (List Char)
  | 0 => return []
  | fuel + 1 => do
    match ← peek 0 with
    | none => return []
    | some c =>
      let next ← peek 1
      if isBlank c ∨ isBreak c then return []
      else if flow ∧ c = ':' ∧ next.any (fun c => c == '?' || isFlowIndicator c) then refuse
      else if (c = ':' ∧ endsWord next) ∨ (flow ∧ isFlowIndicator c) then return []
      else
        skip 1
        return c :: (← plainWord flow fuel)

/-- The words of a plain scalar after a gap, and whether a line ended behind the last one. -/
def plainWords (flow : Bool) (least : Int) : Nat → Gap → Lex (List Char × Bool)
  | 0, gap => return ([], gap.broken)
  | fuel + 1, gap => do
    if (← atDocumentMarker) ∨ (← peek 0) = some '#' then return ([], gap.broken)
    else
      let word ← plainWord flow (← remaining)
      if word = [] then return ([], gap.broken)
      else
        let text := gap.fold ++ word
        if (← peek 0).any fun c => isBlank c || isBreak c then
          let gap ← Gap.read (some least) (← remaining) {}
          if !flow && decide ((← column) < least) then return (text, gap.broken)
          else
            let (words, broken) ← plainWords flow least fuel gap
            return (text ++ words, broken)
        else return (text, false)

/-- Reads a plain scalar. A key may start after it if it ended on an earlier line. -/
def plainScalar : Lex Unit := do
  let (text, broken) ← plainWords (← inFlow) ((← indent) + 1) (← remaining) {}
  emit (.scalar (String.ofList text) .plain)
  if broken then allowKey true

/-! ### Quoted scalars -/

def escaped? : Char → Option Char
  | '0' => some '\x00'
  | 'a' => some '\x07'
  | 'b' => some '\x08'
  | 't' => some '\t'
  | '\t' => some '\t'
  | 'n' => some '\n'
  | 'v' => some '\x0b'
  | 'f' => some '\x0c'
  | 'r' => some '\r'
  | 'e' => some '\x1b'
  | ' ' => some ' '
  | '"' => some '"'
  | '/' => some '/'
  | '\\' => some '\\'
  | 'N' => some '\x85'
  | '_' => some '\xa0'
  | 'L' => some '\u2028'
  | 'P' => some '\u2029'
  | _ => none

def codePoint (digits : Nat) : Lex Char := do
  let chars := (← get).rest.take digits
  if chars.length = digits ∧ chars.all isHexadecimal then
    match character? (numeral 16 chars) with
    | some c =>
      skip digits
      return c
    | none => refuse
  else refuse

def escape : Lex Char := do
  let c ← peek 1
  skip 2
  match c with
  | some 'x' => codePoint 2
  | some 'u' => codePoint 4
  | some 'U' => codePoint 8
  | some c =>
    match escaped? c with
    | some c => return c
    | none => refuse
  | none => refuse

/-- Characters of a quoted scalar up to a blank, a line break or the closing quote, and whether a
hidden line break ended them. -/
def quotedWord (quote : Char) : Nat → Lex (List Char × Bool)
  | 0 => return ([], false)
  | fuel + 1 => do
    match ← peek 0 with
    | none => return ([], false)
    | some c =>
      if isBlank c ∨ isBreak c then return ([], false)
      else if quote = '\'' ∧ (← ahead "''") then
        skip 2
        let (word, hidden) ← quotedWord quote fuel
        return ('\'' :: word, hidden)
      else if c = quote then return ([], false)
      else if quote = '"' ∧ c = '\\' then
        if (← peek 1).any isBreak then
          skip 1
          discard readBreak
          return ([], true)
        else
          let c ← escape
          let (word, hidden) ← quotedWord quote fuel
          return (c :: word, hidden)
      else
        skip 1
        let (word, hidden) ← quotedWord quote fuel
        return (c :: word, hidden)

/-- The words of a quoted scalar up to its closing quote. -/
def quotedWords (quote : Char) : Nat → Lex (List Char)
  | 0 => refuse
  | fuel + 1 => do
    if ← atDocumentMarker then refuse
    else if (← peek 0).isNone then refuse
    else
      let (word, hidden) ← quotedWord quote (← remaining)
      if (← peek 0) = some quote then
        skip 1
        return word
      else
        let gap ← Gap.read none (← remaining) { broken := hidden }
        return word ++ gap.fold ++ (← quotedWords quote fuel)

def quotedScalar (quote : Char) : Lex Unit := do
  skip 1
  let text ← quotedWords quote ((← remaining) + 1)
  emit (.scalar (String.ofList text) .quoted)

/-! ### Block scalars -/

/-- What happens to the line breaks at the end of a block scalar. -/
inductive Chomping where
  | strip
  | clip
  | keep
deriving DecidableEq

def chomping? : Lex (Option Chomping) := do
  match ← peek 0 with
  | some '+' =>
    skip 1
    return some .keep
  | some '-' =>
    skip 1
    return some .strip
  | _ => return none

/-- The indentation that a block scalar asks for, which is not zero. -/
def increment? : Lex (Option Nat) := do
  match ← peek 0 with
  | some c =>
    if isDecimal c then
      if c = '0' then refuse
      else
        skip 1
        return some (digitValue c)
    else return none
  | none => return none

/-- What stands in the first line of a block scalar. -/
def blockHeader : Lex (Chomping × Option Nat) := do
  match ← chomping? with
  | some chomping => return (chomping, ← increment?)
  | none =>
    let increment ← increment?
    if increment.isSome then return ((← chomping?).getD .clip, increment)
    else return (.clip, none)

/-- Reads indentation and empty lines. Gives the line breaks and the deepest column. -/
def blockBreaks (indent : Option Nat) : Nat → Lex (List Char × Nat)
  | 0 => return ([], 0)
  | fuel + 1 => do
    let start ← column
    let spaces := ((← get).rest.takeWhile (· == ' ')).length
    skip (match indent with
      | some indent => min spaces (indent - start)
      | none => spaces)
    let column ← column
    match ← peek 0 with
    | some c =>
      if c = '\t' ∧ indent.all (column < ·) then refuse
      else if isBreak c then
        let text ← readBreak
        let (breaks, deepest) ← blockBreaks indent fuel
        return (text ++ breaks, max column deepest)
      else return ([], column)
    | none => return ([], column)

/-- The lines of a block scalar that are indented to a column, the line breaks behind the last one,
and the empty lines behind that. -/
def blockLines (literal : Bool) (indent : Nat) :
    Nat → List Char → List Char → Bool → Lex (List Char × List Char × List Char)
  | 0, lastBreak, breaks, _ => return ([], lastBreak, breaks)
  | fuel + 1, lastBreak, breaks, afterBlank => do
    if (← column) = indent ∧ (← peek 0).isSome then
      let startsBlank := (← peek 0).any isBlank
      let joint :=
        if !literal && lastBreak.head? == some '\n' && !afterBlank && !startsBlank then
          if breaks = [] then [' '] else breaks
        else lastBreak ++ breaks
      let line ← restOfLine
      let lineBreak ← readBreak
      let (breaks, _) ← blockBreaks (some indent) (← remaining)
      let (lines, lastBreak, breaks) ← blockLines literal indent fuel lineBreak breaks startsBlank
      return (joint ++ line ++ lines, lastBreak, breaks)
    else return ([], lastBreak, breaks)

def blockScalar (literal : Bool) : Lex Unit := do
  skip 1
  let (chomping, increment) ← blockHeader
  endLine
  let outer ← indent
  let given := increment.map fun increment => (max outer 0).toNat + increment
  let (breaks, deepest) ← blockBreaks given ((← remaining) + 1)
  let indent := given.getD (max deepest (max (outer + 1).toNat 1))
  let (text, lastBreak, breaks) ← blockLines literal indent ((← remaining) + 1) [] breaks false
  let tail :=
    match chomping with
    | .strip => []
    | .clip => lastBreak
    | .keep => lastBreak ++ breaks
  emit (.scalar (String.ofList (text ++ tail)) (if literal then .literal else .folded))

end Activation.Yaml
