import Activation.Json.Writer
import Mathlib.Tactic.SplitIfs

/-!
# Written JSON, token by token

`Json.Value.tokens` lists the tokens that a value is written with, and `Json.Value.list?_render`
says that the lexer finds just these in the text of the value. The text may go on behind the value
as long as it does not go on with a number (`Json.Token.Delimited`): a number is the only token that
does not show its own end.

Above that stand the two inverses of the format: the decimal digits of a number
(`Json.Token.number?_toDigits`) and the escapes of a string (`Json.Token.string?_flatMap_escape`).
-/

namespace Activation.Json

namespace Token

/-! ### Numbers -/

/-- A text in front of which a number ends. -/
def Delimited (rest : List Char) : Prop :=
  ∀ c, rest.head? = some c → isDigit c = false ∧ c ≠ '.' ∧ c ≠ 'e' ∧ c ≠ 'E'

theorem delimited_nil : Delimited [] := nofun

theorem delimited_cons {c : Char} {cs : List Char}
    (stops : isDigit c = false ∧ c ≠ '.' ∧ c ≠ 'e' ∧ c ≠ 'E') : Delimited (c :: cs) := by
  rintro _ ⟨rfl⟩
  exact stops

theorem isDigit_of_mem_toDigits {n : Nat} {c : Char} (member : c ∈ Nat.toDigits 10 n) :
    isDigit c = true := by
  have digit := Nat.isDigit_of_mem_toDigits (by omega) (by omega) member
  simpa [isDigit, Char.isDigit, Char.le_def] using digit

theorem digitChar_eq_zero : ∀ n < 10, Nat.digitChar n = '0' → n = 0 := by decide

/-- The only number that is written with a leading zero is zero. -/
theorem eq_zero_of_toDigits {n : Nat} {cs : List Char} (digits : Nat.toDigits 10 n = '0' :: cs) :
    n = 0 := by
  induction n using Nat.strongRecOn generalizing cs with
  | ind n ih =>
    rw [Nat.toDigits_eq_if (by omega)] at digits
    split at digits
    next small => exact digitChar_eq_zero n small (List.cons.inj digits).1
    next large =>
      cases front : Nat.toDigits 10 (n / 10) with
      | nil => exact absurd front Nat.toDigits_ne_nil
      | cons c front' =>
        -- The digits of `n` start with those of `n / 10`, which is not zero.
        rw [front, List.cons_append] at digits
        obtain ⟨rfl, -⟩ := List.cons.inj digits
        have smaller := ih (n / 10) (by omega) front
        omega

/-- A run of digits is read to its end. -/
theorem digits?_append {digits rest : List Char} (nonempty : digits ≠ [])
    (all : ∀ c ∈ digits, isDigit c = true) (ends : Delimited rest) :
    digits? (digits ++ rest) = some (digits, rest) := by
  have stops : rest.takeWhile isDigit = [] ∧ rest.dropWhile isDigit = rest := by
    cases rest with
    | nil => exact ⟨rfl, rfl⟩
    | cons c cs => simp [(ends c rfl).1]
  unfold digits?
  rw [List.takeWhile_append_of_pos all, List.dropWhile_append_of_pos all, stops.1, stops.2,
    List.append_nil]
  cases digits with
  | nil => exact absurd rfl nonempty
  | cons => rfl

theorem whole?_toDigits (n : Nat) {rest : List Char} (ends : Delimited rest) :
    whole? (Nat.toDigits 10 n ++ rest) = some (Nat.toDigits 10 n, rest) := by
  unfold whole?
  split
  next after leading =>
    cases digits : Nat.toDigits 10 n with
    | nil => exact absurd digits Nat.toDigits_ne_nil
    | cons c cs =>
      -- The lexer stops behind a leading zero, which is then the whole number.
      rw [digits, List.cons_append] at leading
      obtain ⟨rfl, rfl⟩ := List.cons.inj leading
      obtain rfl := eq_zero_of_toDigits digits
      obtain rfl : [] = cs := (List.cons.inj digits).2
      rfl
  next => exact digits?_append Nat.toDigits_ne_nil (fun _ => isDigit_of_mem_toDigits) ends

theorem fraction?_of_delimited {rest : List Char} (ends : Delimited rest) :
    fraction? rest = some (false, rest) := by
  unfold fraction?
  split
  next => exact absurd rfl (ends '.' rfl).2.1
  next => rfl

theorem exponent?_of_delimited {rest : List Char} (ends : Delimited rest) :
    exponent? rest = some (false, rest) := by
  cases rest with
  | nil => rfl
  | cons c cs =>
    obtain ⟨-, -, lower, upper⟩ := ends c rfl
    simp only [exponent?, lower, upper, or_self, if_false]

theorem decimal_toDigits (n : Nat) : decimal (Nat.toDigits 10 n) = n := by
  have value : decimal (Nat.toDigits 10 n) = Nat.ofDigitChars 10 (Nat.toDigits 10 n) 0 := by
    rw [Nat.ofDigitChars_eq_foldl]
    rfl
  rw [value, Nat.ofDigitChars_ten_toDigits]

/-- The digits of a number are read as that number, but no integer is a negative zero. -/
theorem number?_toDigits (negative : Bool) (n : Nat) {rest : List Char} (ends : Delimited rest) :
    number? negative (Nat.toDigits 10 n ++ rest) =
      some (if negative && n == 0 then .real else .integer (if negative then -n else n), rest) := by
  simp only [number?, whole?_toDigits n ends, fraction?_of_delimited ends,
    exponent?_of_delimited ends, Option.bind_eq_bind, Option.bind_some, decimal_toDigits,
    Bool.false_or]
  split <;> rfl

/-! ### Strings -/

theorem hexDigit?_hexDigit : ∀ n < 16, hexDigit? (hexDigit n) = some n := by decide

/-- A backslash and the letter of a character. -/
theorem codes?_short {c letter : Char} (short : escaped? letter = some c) (rest : List Char) :
    codes? ('\\' :: letter :: rest) =
      (codes? rest).map (Prod.map (c.toNat :: ·) id) := by
  have notCode : letter ≠ 'u' := by
    rintro rfl
    cases short
  rw [codes?]
  · simp only [short, Option.bind_eq_bind, Option.bind_some]
    cases codes? rest <;> rfl
  · rintro a b c d rest rfl
    exact absurd rfl notCode

/-- The two leading digits of a control character's code are zero. -/
theorem codes?_control {c : Char} (control : c.toNat < 32) (rest : List Char) :
    codes? ('\\' :: 'u' :: '0' :: '0' :: hexDigit (c.toNat / 16) :: hexDigit (c.toNat % 16) ::
      rest) = (codes? rest).map (Prod.map (c.toNat :: ·) id) := by
  have high := hexDigit?_hexDigit (c.toNat / 16) (by omega)
  have low := hexDigit?_hexDigit (c.toNat % 16) (by omega)
  have zero : hexDigit? '0' = some 0 := rfl
  have whole : 4096 * 0 + 256 * 0 + 16 * (c.toNat / 16) + c.toNat % 16 = c.toNat := by omega
  rw [codes?]
  simp only [high, low, zero, Option.bind_eq_bind, Option.bind_some, whole]
  cases codes? rest <;> rfl

/-- A character that stands for itself. -/
theorem codes?_plain {c : Char} (noQuote : c ≠ '"') (noBackslash : c ≠ '\\')
    (visible : ¬ c.toNat < 32) (rest : List Char) :
    codes? (c :: rest) = (codes? rest).map (Prod.map (c.toNat :: ·) id) := by
  rw [codes?]
  · simp only [visible, noBackslash, or_self, if_false]
    cases codes? rest <;> rfl
  · exact noQuote
  · exact fun _ _ _ _ _ same _ => noBackslash same
  · exact fun _ _ same _ => noBackslash same

/-- What a character is written as is read as the character. -/
theorem codes?_escape (c : Char) (rest : List Char) :
    codes? (escape c ++ rest) = (codes? rest).map (Prod.map (c.toNat :: ·) id) := by
  unfold escape
  split_ifs with quote backslash backspace tab newline formFeed carriageReturn control
  · subst quote; exact codes?_short rfl rest
  · subst backslash; exact codes?_short rfl rest
  · subst backspace; exact codes?_short rfl rest
  · subst tab; exact codes?_short rfl rest
  · subst newline; exact codes?_short rfl rest
  · subst formFeed; exact codes?_short rfl rest
  · subst carriageReturn; exact codes?_short rfl rest
  · exact codes?_control control rest
  · exact codes?_plain quote backslash control rest

theorem codes?_flatMap_escape (text rest : List Char) :
    codes? (text.flatMap escape ++ '"' :: rest) = some (text.map Char.toNat, rest) := by
  induction text with
  | nil => rfl
  | cons c text ih => rw [List.flatMap_cons, List.append_assoc, codes?_escape, ih]; rfl

/-- No character is half of a surrogate pair, so none is ever joined with its neighbour. -/
theorem not_surrogate (c : Char) :
    isHighSurrogate c.toNat = false ∧ isLowSurrogate c.toNat = false := by
  have valid : c.toNat < 0xd800 ∨ 0xdfff < c.toNat ∧ c.toNat < 0x110000 := c.valid
  simp [isHighSurrogate, isLowSurrogate]
  omega

/-- The codes of a text are joined to the text again. -/
theorem characters?_map_toNat (text : List Char) :
    characters? (text.map Char.toNat) = some text := by
  induction text with
  | nil => rfl
  | cons c text ih =>
    cases text with
    | nil => simp [characters?, not_surrogate]
    | cons d text => simpa [characters?, not_surrogate] using ih

theorem string?_flatMap_escape (text : String) (rest : List Char) :
    string? (text.toList.flatMap escape ++ '"' :: rest) = some (some text, rest) := by
  simp only [string?, codes?_flatMap_escape, characters?_map_toNat, Option.bind_eq_bind,
    Option.bind_some, Option.map_some, String.ofList_toList]
  rfl

/-! ### Texts -/

theorem list?_nil : list? [] = some [] := by
  rw [list?]
  split
  · rfl
  next kept _ => cases kept

/-- One step of the lexer, where no blank comes first. -/
theorem list?_of_first? {c : Char} {cs rest : List Char} {token : Token}
    (visible : isBlank c = false) (found : first? (c :: cs) = some (token, rest)) :
    list? (c :: cs) = (list? rest).map (token :: ·) := by
  have kept : (c :: cs).dropWhile isBlank = c :: cs := by simp [visible]
  -- The lexer matches on the text without its blanks and keeps the equation of the match for its
  -- measure, so the text is put in by cases and not by rewriting.
  rw [list?]
  split
  next empty _ => rw [kept] at empty; cases empty
  next _ _ _ same _ =>
    rw [kept] at same
    cases same
    split
    next missing => rw [missing] at found; cases found
    next token' rest' found' =>
      rw [found] at found'
      cases found'
      rfl

/-- A string is one token, also the literal that names no text. -/
theorem list?_quote (text : Option String) (rest : List Char) :
    list? (quote text ++ rest) = (list? rest).map (.string text :: ·) := by
  cases text with
  | none => exact list?_of_first? rfl rfl
  | some text =>
    have read := string?_flatMap_escape text rest
    simp only [quote, List.cons_append, List.append_assoc]
    apply list?_of_first? rfl
    simp only [first?]
    simp [read]

theorem first?_of_isDigit {c : Char} (digit : isDigit c = true) (cs : List Char) :
    first? (c :: cs) =
      (number? false (c :: cs)).map fun (value, rest) => (.number value, rest) := by
  unfold first?
  split
  case h_12 => rfl
  all_goals
    next same =>
      cases same
      cases digit

theorem not_isBlank_of_isDigit {c : Char} (digit : isDigit c = true) : isBlank c = false := by
  simp only [isBlank, Bool.or_eq_false_iff, decide_eq_false_iff_not]
  refine ⟨⟨⟨?_, ?_⟩, ?_⟩, ?_⟩ <;> rintro rfl <;> cases digit

theorem list?_integer (value : Int) {rest : List Char} (ends : Delimited rest) :
    list? (integer value ++ rest) = (list? rest).map (.number (.integer value) :: ·) := by
  cases value with
  | ofNat n =>
    have read := number?_toDigits false n ends
    cases digits : Nat.toDigits 10 n with
    | nil => exact absurd digits Nat.toDigits_ne_nil
    | cons c cs =>
      have digit : isDigit c = true :=
        isDigit_of_mem_toDigits (n := n) (digits ▸ List.mem_cons_self)
      rw [digits, List.cons_append] at read
      simp only [integer, digits, List.cons_append]
      apply list?_of_first? (not_isBlank_of_isDigit digit)
      rw [first?_of_isDigit digit, read]
      rfl
  | negSucc n =>
    have read := number?_toDigits true (n + 1) ends
    simp only [integer, List.cons_append]
    apply list?_of_first? rfl
    simp only [first?, read]
    rfl

theorem list?_number (value : Number) {rest : List Char} (ends : Delimited rest) :
    list? (value.render ++ rest) = (list? rest).map (.number value :: ·) := by
  cases value with
  | integer value => exact list?_integer value ends
  | real =>
    -- What stands for no integer is written as a negative zero.
    have read : number? true ('0' :: rest) = some (.real, rest) := number?_toDigits true 0 ends
    apply list?_of_first? rfl
    show (number? true ('0' :: rest)).map _ = _
    rw [read]
    rfl

end Token

namespace Value

open Token

mutual

/-- The tokens that a value is written with. -/
def tokens : Value → List Token
  | .null => [.null]
  | .bool value => [.bool value]
  | .number value => [.number value]
  | .string text => [.string text]
  | .array [] => [.openBracket, .closeBracket]
  | .array (item :: items) => .openBracket :: item.tokens ++ itemTokens items
  | .object [] => [.openBrace, .closeBrace]
  | .object ((name, value) :: members) =>
    .openBrace :: .string name :: .colon :: value.tokens ++ memberTokens members

/-- The tokens of the items after the first, and of the end of the array. -/
def itemTokens : List Value → List Token
  | [] => [.closeBracket]
  | item :: items => .comma :: item.tokens ++ itemTokens items

/-- The tokens of the members after the first, and of the end of the object. -/
def memberTokens : List (Option String × Value) → List Token
  | [] => [.closeBrace]
  | (name, value) :: members =>
    .comma :: .string name :: .colon :: value.tokens ++ memberTokens members

end

theorem delimited_renderItems (items : List Value) (rest : List Char) :
    Delimited (renderItems items ++ rest) := by
  cases items <;> exact delimited_cons (by decide)

theorem delimited_renderMembers (members : List (Option String × Value)) (rest : List Char) :
    Delimited (renderMembers members ++ rest) := by
  rcases members with _ | ⟨⟨name, value⟩, members⟩ <;> exact delimited_cons (by decide)

mutual

/-- The text of a value falls into the tokens of the value. -/
theorem list?_render : ∀ (v : Value) {rest : List Char}, Delimited rest →
    list? (v.render ++ rest) = (list? rest).map (v.tokens ++ ·)
  | .null, _, _ => list?_of_first? rfl rfl
  | .bool true, _, _ => list?_of_first? rfl rfl
  | .bool false, _, _ => list?_of_first? rfl rfl
  | .number value, _, ends => list?_number value ends
  | .string text, rest, _ => list?_quote text rest
  | .array [], _, _ => by
    simp only [render, List.cons_append, List.nil_append]
    rw [list?_of_first? rfl rfl, list?_of_first? rfl rfl, Option.map_map]
    rfl
  | .array (item :: items), rest, _ => by
    have first := list?_render item (delimited_renderItems items rest)
    have others := list?_renderItems items rest
    simp only [render, List.cons_append, List.append_assoc]
    rw [list?_of_first? rfl rfl, first, others, Option.map_map, Option.map_map]
    simp [tokens, Function.comp_def]
  | .object [], _, _ => by
    simp only [render, List.cons_append, List.nil_append]
    rw [list?_of_first? rfl rfl, list?_of_first? rfl rfl, Option.map_map]
    rfl
  | .object ((name, value) :: members), rest, _ => by
    have first := list?_render value (delimited_renderMembers members rest)
    have others := list?_renderMembers members rest
    simp only [render, List.cons_append, List.append_assoc]
    rw [list?_of_first? rfl rfl, list?_quote, list?_of_first? rfl rfl, first, others]
    simp [tokens, Function.comp_def]

theorem list?_renderItems : ∀ (items : List Value) (rest : List Char),
    list? (renderItems items ++ rest) = (list? rest).map (itemTokens items ++ ·)
  | [], _ => list?_of_first? rfl rfl
  | item :: items, rest => by
    have first := list?_render item (delimited_renderItems items rest)
    have others := list?_renderItems items rest
    simp only [renderItems, List.cons_append, List.append_assoc]
    rw [list?_of_first? rfl rfl, first, others]
    simp [itemTokens, Function.comp_def]

theorem list?_renderMembers : ∀ (members : List (Option String × Value)) (rest : List Char),
    list? (renderMembers members ++ rest) = (list? rest).map (memberTokens members ++ ·)
  | [], _ => list?_of_first? rfl rfl
  | (name, value) :: members, rest => by
    have first := list?_render value (delimited_renderMembers members rest)
    have others := list?_renderMembers members rest
    simp only [renderMembers, List.cons_append, List.append_assoc]
    rw [list?_of_first? rfl rfl, list?_quote, list?_of_first? rfl rfl, first, others]
    simp [memberTokens, Function.comp_def]

end

end Value
end Activation.Json

