/-
# The output of the printer

A writer holds the text produced so far, the depth of indentation, and the line
and column at the end of the text. It has two modes. A compact writer drops
optional blanks, optional line breaks and indentation; a formatted one writes
them. Indentation is written late, by the first text on a line.

Positions are 32-bit words and wrap around like them; so does the width of an
indentation. Columns count UTF-16 units, the unit of source maps: a character beyond
the basic plane is two of them.

Key definitions: `units16`, `Writer`, `Writer.write`, `Writer.position`,
`Writer.increaseWord`.
-/
import EcmaPrinter.Layout.Error

namespace EcmaPrinter

/-- The number of UTF-16 units of a character. -/
def charUnits16 (c : Char) : Nat := if c.toNat < 0x10000 then 1 else 2

/-- The number of UTF-16 units of a text. -/
def units16 : List Char → Nat
  | [] => 0
  | c :: cs => charUnits16 c + units16 cs

/-- A position in generated text: a byte offset, and a line and column that count
from zero, columns in UTF-16 units. -/
structure Position where
  offset : UInt32
  line : UInt32
  column : UInt32
deriving DecidableEq

structure Writer where
  output : String
  isPretty : Bool
  /-- The depth of indentation. The counter behind it is a 32-bit word
  (`increaseWord`), which tells all depths up to its range apart. -/
  indent : Nat
  indentWidth : UInt32
  line : UInt32
  column : UInt32
  atLineStart : Bool
deriving DecidableEq

/-- What becomes of an addition that leaves the range of a word: a checked one stops
the program, a wrapping one goes on from zero. -/
inductive Overflow where
  | checked
  | wrapping
deriving DecidableEq

namespace Writer

def new (isPretty : Bool) (indentWidth : UInt32) : Writer :=
  ⟨"", isPretty, 0, indentWidth, 0, 0, true⟩

def compact : Writer := new false 0

def formatted (indentWidth : UInt32) : Writer := new true indentWidth

def isEmpty (w : Writer) : Bool := w.output.isEmpty

/-- The number of bytes written. -/
def size (w : Writer) : Nat := w.output.utf8ByteSize

def lastChar (w : Writer) : Option Char := w.output.toList.getLast?

/-- The blanks that the next text on this line will be preceded by. -/
def pendingIndent (w : Writer) : UInt32 :=
  if w.isPretty && w.atLineStart then UInt32.ofNat w.indent * w.indentWidth else 0

/-- The position of the next text, behind the indentation that comes with it. -/
def position (w : Writer) : Position :=
  ⟨UInt32.ofNat w.size + w.pendingIndent, w.line, w.column + w.pendingIndent⟩

/-- The line and column after one more character. -/
def advanceChar (here : UInt32 × UInt32) (c : Char) : UInt32 × UInt32 :=
  if c = '\n' then (here.1 + 1, 0) else (here.1, here.2 + UInt32.ofNat (charUnits16 c))

/-- The line and column after a text. -/
def advance (line column : UInt32) (text : String) : UInt32 × UInt32 :=
  text.toList.foldl advanceChar (line, column)

/-- Writes the indentation that is still owed. -/
def flushIndent (w : Writer) : Writer :=
  if w.atLineStart then
    { w with
      output := w.output ++ String.ofList (List.replicate w.pendingIndent.toNat ' ')
      column := w.column + w.pendingIndent
      atLineStart := false }
  else w

/-- Writes a text as it is. Nothing happens for an empty one. -/
def write (w : Writer) (text : String) : Writer :=
  if text.isEmpty then w
  else
    let w := w.flushIndent
    let (line, column) := advance w.line w.column text
    { w with output := w.output ++ text, line := line, column := column }

/-- A blank that both modes need. -/
def space (w : Writer) : Writer := w.write " "

/-- A blank that only a formatted text has. -/
def softSpace (w : Writer) : Writer := if w.isPretty then w.space else w

/-- A line break in both modes. -/
def hardLine (w : Writer) : Writer :=
  { w with output := w.output ++ "\n", line := w.line + 1, column := 0, atLineStart := true }

/-- A line break that only a formatted text has, and not at its very start. -/
def softLine (w : Writer) : Writer :=
  if w.isPretty && !w.isEmpty then w.hardLine else w

def increaseIndent (w : Writer) : Writer := { w with indent := w.indent + 1 }

/-- One level deeper on a counter that is a 32-bit word, where the level after the
last one is an overflow. -/
def increaseWord (o : Overflow) (w : Writer) : Option Writer :=
  if w.indent + 1 < 2 ^ 32 then some w.increaseIndent
  else match o with
    | .checked => none
    | .wrapping => some { w with indent := (w.indent + 1) % 2 ^ 32 }

def decreaseIndent (w : Writer) : Except EmitError Writer :=
  if w.indent = 0 then .error .indentUnderflow else .ok { w with indent := w.indent - 1 }

end Writer

end EcmaPrinter
