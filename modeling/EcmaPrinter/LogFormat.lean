/-
# Log formats

The shapes in which a host can have a log written, and their names. A name is
read without regard to blanks around it and to case; whatever is no name means
plain text.

Key definitions: `LogFormat`, `LogFormat.ofName`.
-/

namespace EcmaPrinter

inductive LogFormat where
  | text
  | tree
  | json
deriving DecidableEq

namespace LogFormat

/-- The Unicode property of being white space. -/
def isWhiteSpace (c : Char) : Bool :=
  let n := c.toNat
  (9 ≤ n && n ≤ 13) || n == 32 || n == 0x85 || n == 0xA0 || n == 0x1680
    || (0x2000 ≤ n && n ≤ 0x200A) || n == 0x2028 || n == 0x2029 || n == 0x202F || n == 0x205F
    || n == 0x3000

/-- A text without the white space around it. -/
def trim (cs : List Char) : List Char :=
  ((cs.dropWhile isWhiteSpace).reverse.dropWhile isWhiteSpace).reverse

/-- The format with a given name. -/
def ofName (name : String) : LogFormat :=
  let plain := (trim name.toList).map Char.toLower
  if plain = "tree".toList then .tree
  else if plain = "json".toList then .json
  else .text

end LogFormat

end EcmaPrinter
