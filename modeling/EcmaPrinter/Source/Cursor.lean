/-
# The comments of a source text by bytes

Finds the comments of a source text with a cursor that moves over its bytes. A
backslash in a string, a template or a regular expression takes the cursor over
the byte behind it, which may be the first of several that spell one character,
and over the end of the text if there is none. A comment is stored with its
offsets in 32 bits.

The bytes are compared with characters through `Char.ofUInt8`, the character
whose code a byte is.

Key definitions: `StoredRange`, `Cursor.skipQuoted`, `Cursor.skipRegex`,
`Cursor.ranges`, `storedRanges`.
-/
import EcmaPrinter.Source.Comment

namespace EcmaPrinter

/-- A comment range as it is stored, with offsets that wrap around at 2^32. -/
structure StoredRange where
  start : UInt32
  stop : UInt32
  isBlock : Bool
  endsLine : Bool
deriving DecidableEq

/-- The range as it is stored. -/
def CommentRange.stored (r : CommentRange) : StoredRange :=
  ⟨UInt32.ofNat r.start, UInt32.ofNat r.stop, r.isBlock, r.endsLine⟩

/-- The range that a stored one stands for. -/
def StoredRange.range (r : StoredRange) : CommentRange :=
  ⟨r.start.toNat, r.stop.toNat, r.isBlock, r.endsLine⟩

namespace Cursor

variable (bytes : List UInt8)

/-- Just past the string or template whose closing quote is looked for from `pos` on. -/
def skipQuoted (quote : UInt8) (pos : Nat) : Nat :=
  if h : pos < bytes.length then
    if bytes[pos] = quote then pos + 1
    else if Char.ofUInt8 bytes[pos] = '\\' then skipQuoted quote (pos + 2)
    else skipQuoted quote (pos + 1)
  else pos + 1
termination_by bytes.length - pos

/-- Just past the body of the regular expression that goes on at `pos`. An unfinished one
stops at the end of its line. -/
def skipRegex (inClass : Bool) (pos : Nat) : Nat :=
  if h : pos < bytes.length then
    if Char.ofUInt8 bytes[pos] = '\\' then skipRegex inClass (pos + 2)
    else if Char.ofUInt8 bytes[pos] = '[' then skipRegex true (pos + 1)
    else if Char.ofUInt8 bytes[pos] = ']' then skipRegex false (pos + 1)
    else if Char.ofUInt8 bytes[pos] = '/' ∧ inClass = false then pos + 1
    else if isLineEnd (Char.ofUInt8 bytes[pos]) then pos
    else skipRegex inClass (pos + 1)
  else pos
termination_by bytes.length - pos

/-- The first line end from `pos` on, or the end of the text. -/
def findLineEnd (pos : Nat) : Nat :=
  if h : pos < bytes.length then
    if isLineEnd (Char.ofUInt8 bytes[pos]) then pos else findLineEnd (pos + 1)
  else bytes.length
termination_by bytes.length - pos

/-- Just past the first closing mark of a comment from `pos` on, or the end of the text. -/
def findClose (pos : Nat) : Nat :=
  if h : pos + 1 < bytes.length then
    if Char.ofUInt8 bytes[pos] = '*' ∧ Char.ofUInt8 bytes[pos + 1] = '/' then pos + 2
    else findClose (pos + 1)
  else bytes.length
termination_by bytes.length - pos

/-- The character at `pos`, if there is one and it takes a single byte. -/
def char? (pos : Nat) : Option Char := bytes[pos]?.map Char.ofUInt8

/-- A line comment that ends at `stop`. -/
def lineComment (start stop : Nat) : CommentRange := ⟨start, stop, false, stop < bytes.length⟩

/-- A block comment that ends at `stop`. -/
def blockComment (start stop : Nat) : CommentRange :=
  ⟨start, stop, true, ((char? bytes stop).map isLineEnd).getD false⟩

/-- Whether a `/` behind the bytes `before` opens a regular expression. -/
def regexAllowedAfter (before : List UInt8) : Bool :=
  regexAllowed ((before.reverse.find? fun b => !isBlank (Char.ofUInt8 b)).map Char.ofUInt8)

theorem le_skipQuoted (quote : UInt8) (pos : Nat) : pos ≤ skipQuoted bytes quote pos := by
  fun_induction skipQuoted bytes quote pos <;> omega

theorem le_skipRegex (inClass : Bool) (pos : Nat) : pos ≤ skipRegex bytes inClass pos := by
  fun_induction skipRegex bytes inClass pos <;> omega

theorem le_findLineEnd (pos : Nat) (h : pos ≤ bytes.length) : pos ≤ findLineEnd bytes pos := by
  fun_induction findLineEnd bytes pos <;> grind

theorem le_findClose (pos : Nat) (h : pos ≤ bytes.length) : pos ≤ findClose bytes pos := by
  fun_induction findClose bytes pos <;> grind

theorem lt_findLineEnd {pos : Nat} (h : pos < bytes.length)
    (hslash : Char.ofUInt8 bytes[pos] = '/') : pos < findLineEnd bytes pos := by
  have hrest := le_findLineEnd bytes (pos + 1) h
  rw [findLineEnd, dif_pos h, if_neg (by rw [hslash]; decide)]
  omega

theorem lt_length_of_char? {pos : Nat} {c : Char} (h : char? bytes pos = some c) :
    pos < bytes.length := by
  obtain ⟨b, hb, -⟩ := Option.map_eq_some_iff.mp h
  exact (List.getElem?_eq_some_iff.mp hb).choose

/-- The comment ranges that the cursor finds from `pos` on. -/
def ranges (pos : Nat) : List StoredRange :=
  if h : pos < bytes.length then
    if isQuote (Char.ofUInt8 bytes[pos]) then ranges (skipQuoted bytes bytes[pos] (pos + 1))
    else if hslash : Char.ofUInt8 bytes[pos] = '/' then
      if char? bytes (pos + 1) = some '/' then
        (lineComment bytes pos (findLineEnd bytes pos)).stored :: ranges (findLineEnd bytes pos)
      else if hstar : char? bytes (pos + 1) = some '*' then
        (blockComment bytes pos (findClose bytes (pos + 2))).stored ::
          ranges (findClose bytes (pos + 2))
      else if regexAllowedAfter (bytes.take pos) then ranges (skipRegex bytes false (pos + 1))
      else ranges (pos + 1)
    else ranges (pos + 1)
  else []
termination_by bytes.length - pos
decreasing_by
  · have := le_skipQuoted bytes bytes[pos] (pos + 1)
    omega
  · have := lt_findLineEnd bytes h hslash
    omega
  · have hlt := lt_length_of_char? bytes hstar
    have := le_findClose bytes (pos + 2) (by omega)
    omega
  · have := le_skipRegex bytes false (pos + 1)
    omega
  · omega
  · omega

end Cursor

/-- The comments of a source text as they are stored, in order. -/
def storedRanges (source : String) : List StoredRange :=
  Cursor.ranges source.toByteArray.data.toList 0

end EcmaPrinter
