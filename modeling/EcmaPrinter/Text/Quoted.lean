/-
# Quoted strings

The text of a string literal. The quote is a single one unless the value holds a
single quote and no double quote. Line ends, the two Unicode line separators,
control characters, backslashes and the chosen quote are escaped; everything
else is written as it is.

Key definitions: `chooseQuote`, `escapeChar`, `escape`, `quoted`.
-/

namespace EcmaPrinter.Text

def singleQuote : Char := '\x27'

def doubleQuote : Char := '\x22'

/-- The quote that needs no escapes if there is one, the single quote otherwise. -/
def chooseQuote (value : List Char) : Char :=
  if value.contains singleQuote && !value.contains doubleQuote then doubleQuote
  else singleQuote

/-- The upper-case hexadecimal digit of `n < 16`. -/
def hexDigit (n : Nat) : Char :=
  if n < 10 then Char.ofNat (48 + n) else Char.ofNat (55 + n)

/-- Four hexadecimal digits of `n < 65536`. -/
def hex4 (n : Nat) : List Char :=
  [hexDigit (n / 4096 % 16), hexDigit (n / 256 % 16), hexDigit (n / 16 % 16), hexDigit (n % 16)]

/-- The written form of `c` in a literal delimited by `quote`, in front of
`next`. A zero in front of a digit is written in hexadecimal, because `\0` and a
digit would read as one octal escape. -/
def escapeChar (quote : Char) (next : Option Char) (c : Char) : List Char :=
  if c = '\n' then ['\\', 'n']
  else if c = '\r' then ['\\', 'r']
  else if c = '\t' then ['\\', 't']
  else if c = '\\' then ['\\', '\\']
  else if c.toNat = 0 then
    if (next.map Char.isDigit).getD false then ['\\', 'x', '0', '0'] else ['\\', '0']
  else if c.toNat = 0x2028 || c.toNat = 0x2029 then '\\' :: 'u' :: hex4 c.toNat
  else if c = quote then ['\\', c]
  else if c.toNat < 0x20 || c.toNat = 0x7F then '\\' :: 'u' :: hex4 c.toNat
  else [c]

/-- The body of a literal delimited by `quote`. -/
def escape (quote : Char) : List Char → List Char
  | [] => []
  | c :: cs => escapeChar quote cs.head? c ++ escape quote cs

/-- The literal of a value, quotes included. -/
def quoted (value : String) : String :=
  let quote := chooseQuote value.toList
  String.ofList (quote :: escape quote value.toList ++ [quote])

end EcmaPrinter.Text
