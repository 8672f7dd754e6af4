/-
# JSON lexemes

The text of a JSON value cut into lexemes, one character at a time. The lexer is
strict: a string holds no raw control character, a number has no leading zero or
plus sign, and the only words are `true`, `false` and `null`. A string with half
of a surrogate pair is a lexeme without a value, and a number that overflows is
unreadable.

The digits of a number are taken as long as they fit a 64-bit word. Integer
digits behind that count as powers of ten, and the fraction's digits are
dropped.

Key definitions: `Lexeme`, `takeDigits`, `number`, `Lexer.step`, `lexemes`.
-/
import EcmaPrinter.Json.Basic

namespace EcmaPrinter.Json

/-- The units of JSON text: punctuation, strings, and the other scalars. A string
has no value if it holds half of a surrogate pair. -/
inductive Lexeme where
  | openBrace
  | closeBrace
  | openBracket
  | closeBracket
  | colon
  | comma
  | str (value : Option String)
  | scalar (value : Json)

/-! ## Numbers and words -/

/-- The number that a list of decimal digits writes. -/
def ofDigits (digits : List Char) : Nat :=
  digits.foldl (fun n c => 10 * n + (c.toNat - 48)) 0

/-- Appends decimal digits to a number as long as it fits 64 bits, and counts the
digits that are left. -/
def takeDigits (n : Nat) : List Char → Nat × Nat
  | [] => (n, 0)
  | c :: cs =>
    let next := 10 * n + (c.toNat - 48)
    if next < 2 ^ 64 then takeDigits next cs else (n, cs.length + 1)

/-- The double of a decimal. -/
def decimal (negative : Bool) (digits : Nat) (exponent : Int) : Json :=
  match Binary64.ofDecimal? negative digits exponent with
  | some x => .float x
  | none => .unreadable

/-- A whole number: an integer if it fits 64 bits, signed or unsigned. Minus zero
is a double. -/
def wholeNumber (negative : Bool) (digits left : Nat) : Json :=
  if 0 < left then decimal negative digits left
  else if negative then
    if 0 < digits ∧ digits ≤ 2 ^ 63 then .int (-(digits : Int)) else decimal true digits 0
  else .int digits

/-- The value of the exponent part: nothing, or `e`, a sign and digits. -/
def exponentPart : List Char → Option Int
  | [] => some 0
  | e :: rest =>
    let (negative, digits) :=
      match rest with
      | '-' :: ds => (true, ds)
      | '+' :: ds => (false, ds)
      | ds => (false, ds)
    if (e = 'e' ∨ e = 'E') ∧ digits ≠ [] ∧ digits.all Char.isDigit then
      some (if negative then -(ofDigits digits : Int) else ofDigits digits)
    else none

/-- The part of a number behind its integer digits: a fraction, an exponent, or
both, or nothing. Of the integer digits, `digits` were taken and `left` were
not. -/
def behindWhole (negative : Bool) (digits left : Nat) : List Char → Option Json
  | [] => some (wholeNumber negative digits left)
  | '.' :: rest =>
    let places := rest.takeWhile Char.isDigit
    if places.isEmpty then none
    else do
      let exponent ← exponentPart (rest.dropWhile Char.isDigit)
      let (digits, dropped) := takeDigits digits places
      return decimal negative digits (left + dropped - places.length + exponent)
  | rest => do
    let exponent ← exponentPart rest
    return decimal negative digits (left + exponent)

/-- A number without its sign. -/
def unsignedNumber (negative : Bool) (cs : List Char) : Option Json :=
  let whole := cs.takeWhile Char.isDigit
  if whole.isEmpty ∨ (whole.head? = some '0' ∧ 1 < whole.length) then none
  else
    let (digits, left) := takeDigits 0 whole
    behindWhole negative digits left (cs.dropWhile Char.isDigit)

/-- The value of a number's text. -/
def number : List Char → Option Json
  | '-' :: cs => unsignedNumber true cs
  | cs => unsignedNumber false cs

/-- The value of a lexeme that is neither punctuation nor a string. -/
def bare (cs : List Char) : Option Json :=
  if cs = "true".toList then some (.bool true)
  else if cs = "false".toList then some (.bool false)
  else if cs = "null".toList then some .null
  else number cs

/-! ## Strings -/

def isHighHalf (unit : Nat) : Bool := decide (0xD800 ≤ unit) && decide (unit < 0xDC00)

def isLowHalf (unit : Nat) : Bool := decide (0xDC00 ≤ unit) && decide (unit < 0xE000)

/-- The characters of a string, given as code points last first, in front of those
already found. Two halves of a surrogate pair are joined; half a pair has no
character. -/
def joinHalves (found : List Char) : List Nat → Option (List Char)
  | [] => some found
  | [unit] => if isHighHalf unit || isLowHalf unit then none else some (Char.ofNat unit :: found)
  | unit :: other :: rest =>
    if isLowHalf unit then
      if isHighHalf other then
        let c := Char.ofNat (0x10000 + (other - 0xD800) * 0x400 + (unit - 0xDC00))
        joinHalves (c :: found) rest
      else none
    else if isHighHalf unit then none
    else joinHalves (Char.ofNat unit :: found) (other :: rest)

/-! ## The lexer -/

/-- What the lexer is inside of. Characters read so far are kept in reverse, those
of a string as code points. -/
inductive Mode where
  | between
  | bare (read : List Char)
  | string (read : List Nat)
  | escape (read : List Nat)
  | unicode (read : List Nat) (digits : Nat) (value : Nat)

/-- The state of the lexer: its mode, and the lexemes found, last first. -/
structure Lexer where
  mode : Mode
  found : List Lexeme

namespace Lexer

def isBareChar (c : Char) : Bool := c.isAlphanum || c == '-' || c == '+' || c == '.'

/-- A character between lexemes. -/
def between (found : List Lexeme) (c : Char) : Option Lexer :=
  if c = ' ' ∨ c = '\t' ∨ c = '\n' ∨ c = '\r' then some ⟨.between, found⟩
  else if c = '\x7b' then some ⟨.between, .openBrace :: found⟩
  else if c = '\x7d' then some ⟨.between, .closeBrace :: found⟩
  else if c = '[' then some ⟨.between, .openBracket :: found⟩
  else if c = ']' then some ⟨.between, .closeBracket :: found⟩
  else if c = ':' then some ⟨.between, .colon :: found⟩
  else if c = ',' then some ⟨.between, .comma :: found⟩
  else if c = '\x22' then some ⟨.string [], found⟩
  else if isBareChar c then some ⟨.bare [c], found⟩
  else none

/-- The character that a one-letter escape stands for. -/
def escapeValue (c : Char) : Option Char :=
  if c = '\x22' ∨ c = '\\' ∨ c = '/' then some c
  else if c = 'b' then some '\x08'
  else if c = 'f' then some '\x0c'
  else if c = 'n' then some '\n'
  else if c = 'r' then some '\r'
  else if c = 't' then some '\t'
  else none

/-- The value of a hexadecimal digit. -/
def hexValue (c : Char) : Option Nat :=
  if '0' ≤ c ∧ c ≤ '9' then some (c.toNat - 48)
  else if 'a' ≤ c ∧ c ≤ 'f' then some (c.toNat - 87)
  else if 'A' ≤ c ∧ c ≤ 'F' then some (c.toNat - 55)
  else none

/-- The lexer after one more character. -/
def step (l : Lexer) (c : Char) : Option Lexer :=
  match l.mode with
  | .between => between l.found c
  | .bare read =>
    if isBareChar c then some ⟨.bare (c :: read), l.found⟩
    else do
      let value ← Json.bare read.reverse
      between (.scalar value :: l.found) c
  | .string read =>
    if c = '\x22' then
      some ⟨.between, .str ((joinHalves [] read).map String.ofList) :: l.found⟩
    else if c = '\\' then some ⟨.escape read, l.found⟩
    else if c.toNat < 0x20 then none
    else some ⟨.string (c.toNat :: read), l.found⟩
  | .escape read =>
    if c = 'u' then some ⟨.unicode read 0 0, l.found⟩
    else (escapeValue c).map fun value => ⟨.string (value.toNat :: read), l.found⟩
  | .unicode read digits value => do
    let digit ← hexValue c
    let value := 16 * value + digit
    if digits = 3 then return ⟨.string (value :: read), l.found⟩
    else return ⟨.unicode read (digits + 1) value, l.found⟩

/-- The lexemes at the end of the text, unless it ends inside a string. -/
def finish (l : Lexer) : Option (List Lexeme) :=
  match l.mode with
  | .between => some l.found.reverse
  | .bare read => (Json.bare read.reverse).map fun value => (.scalar value :: l.found).reverse
  | _ => none

end Lexer

/-- The lexemes of a text, if it can be cut into lexemes. -/
def lexemes (text : List Char) : Option (List Lexeme) := do
  let l ← text.foldlM Lexer.step (⟨.between, []⟩ : Lexer)
  l.finish

end EcmaPrinter.Json
