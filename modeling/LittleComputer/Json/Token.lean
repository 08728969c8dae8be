import LittleComputer.Json.Basic

/-! Tokens of JSON text. The text is read one character at a time, and what has been read of
the current token is part of the reader's state, so reading is a fold over the characters. -/
namespace LittleComputer.Json

inductive Token where
  | openArr
  | closeArr
  | openObj
  | closeObj
  | comma
  | colon
  | text (s : String)
  /-- A number or one of the three literal names. -/
  | scalar (v : Json)

/-- Letters, digits and signs, of which numbers and literal names are made. -/
def isWordChar (c : Char) : Bool := c.isAlphanum || c == '-' || c == '+' || c == '.'

def isBlank (c : Char) : Bool := c == ' ' || c == '\n' || c == '\r' || c == '\t'

/-- What follows the whole part of a numeral: a fraction, then an exponent, either left out. -/
def isNumeralTail (cs : List Char) : Bool :=
  match cs with
  | '.' :: cs =>
    cs.head?.any Char.isDigit && isExponent (cs.dropWhile Char.isDigit)
  | cs => isExponent cs
where
  isExponent : List Char → Bool
    | [] => true
    | c :: cs =>
      let digits := match cs with
        | '+' :: ds => ds
        | '-' :: ds => ds
        | ds => ds
      (c == 'e' || c == 'E') && !digits.isEmpty && digits.all Char.isDigit

/-- A numeral without a sign: a whole part with no useless zero in front, and its tail. -/
def isUnsigned (cs : List Char) : Bool :=
  match cs with
  | '0' :: cs => isNumeralTail cs
  | cs => cs.head?.any Char.isDigit && isNumeralTail (cs.dropWhile Char.isDigit)

def isNumeral : List Char → Bool
  | '-' :: cs => isUnsigned cs
  | cs => isUnsigned cs

/-- The value of a word that stands alone. -/
def ofWord? (s : String) : Option Json :=
  if s = "null" then some .null
  else if s = "true" then some (.bool true)
  else if s = "false" then some (.bool false)
  else
    let cs := s.toList
    if !isNumeral cs then none
    else if cs.all Char.isDigit then some (.nat (Nat.ofDigitChars 10 cs 0))
    else some (.numeral s)

/-- The part of a token that has been read. Inside a quoted text, `high` is the first half of
a surrogate pair whose second half must follow at once. -/
inductive Partial where
  | gap
  | word (s : String)
  | quoted (s : String) (high : Option Nat)
  | escaped (s : String) (high : Option Nat)
  /-- After `\u`, with the digits still to come and the value of those read. -/
  | coded (s : String) (high : Option Nat) (missing : Nat) (value : Nat)

structure Lexer where
  state : Partial := .gap
  tokens : Array Token := #[]

namespace Lexer

def hexValue? (c : Char) : Option Nat :=
  if c.isDigit then some (c.toNat - '0'.toNat)
  else if 'a' ≤ c ∧ c ≤ 'f' then some (c.toNat - 'a'.toNat + 10)
  else if 'A' ≤ c ∧ c ≤ 'F' then some (c.toNat - 'A'.toNat + 10)
  else none

/-- The quoted text with one more code unit. A high surrogate waits for its second half, and
a half without its other half is no text. -/
def withUnit (s : String) (high : Option Nat) (unit : Nat) : Option Partial :=
  match high with
  | some h =>
    if 0xDC00 ≤ unit ∧ unit < 0xE000 then
      some (.quoted (s.push (Char.ofNat (0x10000 + (h - 0xD800) * 0x400 + (unit - 0xDC00)))) none)
    else none
  | none =>
    if 0xD800 ≤ unit ∧ unit < 0xDC00 then some (.quoted s (some unit))
    else if 0xDC00 ≤ unit ∧ unit < 0xE000 then none
    else some (.quoted (s.push (Char.ofNat unit)) none)

/-- The character that a one-letter escape stands for. -/
def unescape? : Char → Option Char
  | '"' => some '"'
  | '\\' => some '\\'
  | '/' => some '/'
  | 'b' => some '\x08'
  | 'f' => some '\x0c'
  | 'n' => some '\n'
  | 'r' => some '\r'
  | 't' => some '\t'
  | _ => none

def punctuation? : Char → Option Token
  | '[' => some .openArr
  | ']' => some .closeArr
  | '\x7b' => some .openObj
  | '\x7d' => some .closeObj
  | ',' => some .comma
  | ':' => some .colon
  | _ => none

/-- Begin the next token with the character `c`. -/
def start (tokens : Array Token) (c : Char) : Option Lexer :=
  if isBlank c then some ⟨.gap, tokens⟩
  else if c = '"' then some ⟨.quoted "" none, tokens⟩
  else if isWordChar c then some ⟨.word (String.singleton c), tokens⟩
  else (punctuation? c).map fun t => ⟨.gap, tokens.push t⟩

/-- Read one character. -/
def read (l : Lexer) (c : Char) : Option Lexer :=
  match l with
  | ⟨.gap, tokens⟩ => start tokens c
  | ⟨.word s, tokens⟩ =>
    if isWordChar c then some ⟨.word (s.push c), tokens⟩
    else (ofWord? s).bind fun v => start (tokens.push (.scalar v)) c
  | ⟨.quoted s high, tokens⟩ =>
    if c = '\\' then some ⟨.escaped s high, tokens⟩
    else if high.isSome || c.toNat < 32 then none
    else if c = '"' then some ⟨.gap, tokens.push (.text s)⟩
    else some ⟨.quoted (s.push c) none, tokens⟩
  | ⟨.escaped s high, tokens⟩ =>
    if c = 'u' then some ⟨.coded s high 4 0, tokens⟩
    else if high.isSome then none
    else (unescape? c).map fun c => ⟨.quoted (s.push c) none, tokens⟩
  | ⟨.coded s high missing value, tokens⟩ =>
    (hexValue? c).bind fun d =>
      if missing ≤ 1 then (withUnit s high (16 * value + d)).map (⟨·, tokens⟩)
      else some ⟨.coded s high (missing - 1) (16 * value + d), tokens⟩

/-- The tokens read, if the text may end here. -/
def finish? : Lexer → Option (Array Token)
  | ⟨.gap, tokens⟩ => some tokens
  | ⟨.word s, tokens⟩ => (ofWord? s).map fun v => tokens.push (.scalar v)
  | _ => none

end Lexer

/-- The tokens of a text. -/
def tokens? (text : String) : Option (List Token) := do
  let l ← text.toList.foldlM Lexer.read {}
  return (← l.finish?).toList

end LittleComputer.Json
