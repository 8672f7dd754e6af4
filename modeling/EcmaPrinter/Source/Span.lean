/-
# Source spans

A span says where a node stood in the text it was parsed from: byte offsets of
its two ends, their lines and columns, and a context. Context zero marks a node
taken verbatim from the text; any other context marks a node that a later pass
made up, whose lines say nothing about layout.

Offsets, lines and columns are 32-bit words, the width they have in the tree
format, so that every span can be written out and read back.

Key definitions: `Span`, `Span.dummy`, `Span.synthesized`, `Span.join`.
-/

namespace EcmaPrinter

/-- A line and a column. Parsed trees count lines from one; line zero appears
only in spans that carry no position. -/
structure LineCol where
  line : UInt32
  column : UInt32
deriving DecidableEq, Inhabited

/-- The line and column of both ends of a span. -/
structure Loc where
  start : LineCol
  stop : LineCol
deriving DecidableEq, Inhabited

/-- The position of a node: bytes `start` (included) to `stop` (excluded). -/
structure Span where
  start : UInt32
  stop : UInt32
  loc : Loc
  context : UInt32
deriving DecidableEq, Inhabited

namespace Span

/-- The span of a node without a position. -/
def dummy : Span := ⟨0, 0, ⟨⟨0, 0⟩, ⟨0, 0⟩⟩, 0⟩

/-- The span of a node that a pass made up. -/
def synthesized : Span := ⟨0, 0, ⟨⟨0, 0⟩, ⟨0, 0⟩⟩, 1⟩

/-- A verbatim node at the given offsets and lines, in column zero. -/
def ofLines (start stop startLine stopLine : UInt32) : Span :=
  ⟨start, stop, ⟨⟨startLine, 0⟩, ⟨stopLine, 0⟩⟩, 0⟩

def withContext (s : Span) (context : UInt32) : Span :=
  { s with context := context }

/-- The node was made up by a pass. -/
def isSynthesized (s : Span) : Bool := s.context != 0

def startLine (s : Span) : UInt32 := s.loc.start.line

def stopLine (s : Span) : UInt32 := s.loc.stop.line

/-- Both spans start on the same line. -/
def startsOnLineOf (s t : Span) : Bool := s.startLine == t.startLine

/-- The span starts and ends on one line. -/
def isOnSingleLine (s : Span) : Bool := s.startLine == s.stopLine

/-- From the start of `first` to the end of `last`, for a node that has no span
of its own. It counts as made up if either end does. -/
def join (first last : Span) : Span :=
  { first with
    stop := last.stop
    loc := ⟨first.loc.start, last.loc.stop⟩
    context := max first.context last.context }

/-- The span of `body` moved back to start at the token in front of it, if that
token has a position. -/
def startingAt (body token : Span) : Span :=
  if token = dummy then body
  else { body with start := token.start, loc := ⟨token.loc.start, body.loc.stop⟩ }

end Span

end EcmaPrinter
