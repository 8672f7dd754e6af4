/-
# Comments in source text

Finds the comments of a source text. The scan knows just enough of the language
not to take a `//` in a string, a template or a regular expression for a
comment: it walks the text character by character in one of five modes, and a
`/` opens a regular expression when the last character that is not blank cannot
end an operand. That last character is taken from the raw text, comments
included.

Offsets are counted in UTF-8 bytes, without a bound. As they are stored, in 32 bits, they
are the same in texts of less than 2^32 bytes (`storedRanges`).

Key definitions: `CommentRange`, `CommentRange.scan`, `commentRanges`,
`CommentRange.text`.
-/

namespace EcmaPrinter

/-- A comment runs to the end of its line or from an opening to a closing mark. -/
inductive CommentKind where
  | line
  | block
deriving DecidableEq

/-- A comment with its text, delimiters included. -/
structure Comment where
  kind : CommentKind
  text : String
deriving DecidableEq

/-- Where a comment stands in a text: bytes `start` (included) to `stop`
(excluded), and whether a line end directly follows it. -/
structure CommentRange where
  start : Nat
  stop : Nat
  isBlock : Bool
  endsLine : Bool
deriving DecidableEq

/-- The blanks of source text: space, tab, line feed, form feed, carriage return. -/
def isBlank (c : Char) : Bool :=
  c == ' ' || c == '\t' || c == '\n' || c == '\x0c' || c == '\r'

/-- The characters that end a line comment or an unfinished regular expression. -/
def isLineEnd (c : Char) : Bool := c == '\n' || c == '\r'

/-- The three characters that open, and close, a string or template. -/
def isQuote (c : Char) : Bool := c == '\x27' || c == '\x22' || c == '\x60'

/-- Characters after which an operand is expected, so that a `/` opens a regular
expression. -/
def operandStarters : List Char := "(,=:[!&|?\x7b\x7d;+-*%<>~^".toList

/-- Whether a `/` after the last significant character `prev` opens a regular
expression rather than a division. -/
def regexAllowed : Option Char → Bool
  | none => true
  | some c => operandStarters.contains c

/-- The last significant character after reading `c`. -/
def significant (prev : Option Char) (c : Char) : Option Char :=
  if isBlank c then prev else some c

namespace CommentRange

/-- What the scan is inside of. A comment remembers the offset of its start. -/
inductive Mode where
  | code
  | quoted (quote : Char)
  | regex (inClass : Bool)
  | lineComment (start : Nat)
  | blockComment (start : Nat)
deriving DecidableEq

/-- The comment ranges found from here on: `pos` is the offset of the next
character and `prev` the last significant character in front of it. A comment
that is still open at the end of the text ends there; so do an open string and
an open regular expression, which yield nothing. -/
def scan : Mode → (pos : Nat) → (prev : Option Char) → List Char → List CommentRange
  | .code, _, _, [] => []
  | .code, pos, _, '/' :: '/' :: rest => scan (.lineComment pos) (pos + 2) (some '/') rest
  | .code, pos, _, '/' :: '*' :: rest => scan (.blockComment pos) (pos + 2) (some '*') rest
  | .code, pos, prev, c :: rest =>
    if c = '/' then
      if regexAllowed prev then scan (.regex false) (pos + 1) (some '/') rest
      else scan .code (pos + 1) (some '/') rest
    else if isQuote c then scan (.quoted c) (pos + 1) (some c) rest
    else scan .code (pos + c.utf8Size) (significant prev c) rest
  | .quoted _, _, _, [] => []
  | .quoted q, pos, prev, '\\' :: c :: rest =>
    scan (.quoted q) (pos + 1 + c.utf8Size) (significant (significant prev '\\') c) rest
  | .quoted q, pos, prev, c :: rest =>
    if c = q then scan .code (pos + c.utf8Size) (significant prev c) rest
    else scan (.quoted q) (pos + c.utf8Size) (significant prev c) rest
  | .regex _, _, _, [] => []
  | .regex inClass, pos, prev, '\\' :: c :: rest =>
    scan (.regex inClass) (pos + 1 + c.utf8Size) (significant (significant prev '\\') c) rest
  | .regex inClass, pos, prev, c :: rest =>
    if isLineEnd c then scan .code (pos + 1) prev rest
    else if c = '[' then scan (.regex true) (pos + 1) (some c) rest
    else if c = ']' then scan (.regex false) (pos + 1) (some c) rest
    else if c = '/' && !inClass then scan .code (pos + 1) (some c) rest
    else scan (.regex inClass) (pos + c.utf8Size) (significant prev c) rest
  | .lineComment start, pos, _, [] => [⟨start, pos, false, false⟩]
  | .lineComment start, pos, prev, c :: rest =>
    if isLineEnd c then ⟨start, pos, false, true⟩ :: scan .code (pos + 1) prev rest
    else scan (.lineComment start) (pos + c.utf8Size) (significant prev c) rest
  | .blockComment start, pos, _, [] => [⟨start, pos, true, false⟩]
  | .blockComment start, pos, _, '*' :: '/' :: rest =>
    ⟨start, pos + 2, true, (rest.head?.map isLineEnd).getD false⟩ ::
      scan .code (pos + 2) (some '/') rest
  | .blockComment start, pos, prev, c :: rest =>
    scan (.blockComment start) (pos + c.utf8Size) (significant prev c) rest

end CommentRange

/-- The comments of a source text, in order. -/
def commentRanges (source : String) : List CommentRange :=
  CommentRange.scan .code 0 none source.toList

/-- The characters after the first `n` bytes, if those end between two characters. -/
def dropBytes : Nat → List Char → Option (List Char)
  | 0, cs => some cs
  | _ + 1, [] => none
  | n + 1, c :: cs => if c.utf8Size ≤ n + 1 then dropBytes (n + 1 - c.utf8Size) cs else none

/-- The characters in the first `n` bytes, if those end between two characters. -/
def takeBytes : Nat → List Char → Option (List Char)
  | 0, _ => some []
  | _ + 1, [] => none
  | n + 1, c :: cs =>
    if c.utf8Size ≤ n + 1 then (takeBytes (n + 1 - c.utf8Size) cs).map (c :: ·) else none

/-- Bytes `start` to `stop` of a text, if both ends lie between two characters
and in order. -/
def sliceBytes (source : List Char) (start stop : Nat) : Option (List Char) :=
  if start ≤ stop then (dropBytes start source).bind (takeBytes (stop - start)) else none

namespace CommentRange

/-- The text of the range, empty where the range does not fit the source. -/
def text (r : CommentRange) (source : String) : String :=
  ((sliceBytes source.toList r.start r.stop).map String.ofList).getD ""

/-- The comment standing at the range. -/
def comment (r : CommentRange) (source : String) : Comment :=
  ⟨if r.isBlock then .block else .line, r.text source⟩

end CommentRange

end EcmaPrinter
