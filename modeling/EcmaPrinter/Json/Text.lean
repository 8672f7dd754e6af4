/-
# JSON text

The text of a JSON value, without blanks. A double always has a point or an
exponent, so that it is not read as an integer; it is written out from `1e-5` up
to but not including `1e16`. Of two equally near decimals the even one is
written.

Key definitions: `Json.numberFormat`, `Json.quoted`, `Json.text`.
-/
import EcmaPrinter.Json.Basic
import EcmaPrinter.Numeral.Text
import EcmaPrinter.Text.Quoted

namespace EcmaPrinter.Json

/-- Doubles in JSON text. -/
def numberFormat : NumeralFormat := ⟨-5, 15, true, .even⟩

/-- A character inside a string. -/
def escaped (c : Char) : List Char :=
  if c = '\x22' then ['\\', '\x22']
  else if c = '\\' then ['\\', '\\']
  else if c = '\x08' then ['\\', 'b']
  else if c = '\x0c' then ['\\', 'f']
  else if c = '\n' then ['\\', 'n']
  else if c = '\r' then ['\\', 'r']
  else if c = '\t' then ['\\', 't']
  else if c.toNat < 0x20 then '\\' :: 'u' :: Text.hex4 c.toNat
  else [c]

/-- A string in quotes. -/
def quoted (s : String) : List Char := '\x22' :: s.toList.flatMap escaped ++ ['\x22']

/-- Texts with commas between them. -/
def separated : List (List Char) → List Char
  | [] => []
  | [text] => text
  | text :: rest => text ++ ',' :: separated rest

mutual
/-- The characters of a value. What is unreadable has no text and is written as
`null`. -/
def chars : Json → List Char
  | .null | .unreadable => "null".toList
  | .bool true => "true".toList
  | .bool false => "false".toList
  | .int n => (toString n).toList
  | .float x => numberFormat.text x
  | .str s => quoted s
  | .arr items => '[' :: separated (itemChars items) ++ [']']
  | .obj members => '\x7b' :: separated (memberChars members) ++ ['\x7d']

def itemChars : List Json → List (List Char)
  | [] => []
  | item :: rest => item.chars :: itemChars rest

def memberChars : List (String × Json) → List (List Char)
  | [] => []
  | (key, value) :: rest => (quoted key ++ ':' :: value.chars) :: memberChars rest
end

/-- The text of a value. -/
def text (json : Json) : String := String.ofList json.chars

end EcmaPrinter.Json
