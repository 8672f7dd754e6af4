/-
# Running a document

A printer carries the writer, the options, the comments still to be written, and
the marks recorded so far. Running a document on it gives the printer after it
and the error if the document failed; a printer can go on after a failure, with
the text written up to it.

Comments are written only in formatted text, once per position, and never in
front of a node that a pass made up.

Key definitions: `PrintOptions`, `Printer`, `Doc.run`, `Doc.runWord`.
-/
import EcmaPrinter.Json.Record
import EcmaPrinter.Layout.Doc
import EcmaPrinter.Layout.Writer
import EcmaPrinter.Source.CommentTable

namespace EcmaPrinter

open Json

structure PrintOptions where
  /-- Formatted text rather than compact text. -/
  isFormatted : Bool := true
  /-- Blanks for each level of indentation. -/
  indentWidth : UInt32 := 4
  /-- Whether marks are recorded. -/
  recordsPositions : Bool := false
deriving DecidableEq

namespace PrintOptions

def compact : PrintOptions := { isFormatted := false }

def formatted : PrintOptions := {}

def withPositions (o : PrintOptions) : PrintOptions := { o with recordsPositions := true }

def slots : List Slot := [may "formatted", may "indentWidth", may "recordPositions"]

/-- Options are read from a record in which everything has a default. -/
def ofJson? (json : Json) : Option PrintOptions := do
  let ms ← asRecord slots json
  let isFormatted ← defaulted ms "formatted" true asBool
  let indentWidth ← defaulted ms "indentWidth" 4 asWord
  let recordsPositions ← defaulted ms "recordPositions" false asBool
  return ⟨isFormatted, indentWidth, recordsPositions⟩

end PrintOptions

/-- Where a node starts in the generated text. -/
structure Mark where
  span : Span
  generated : Position
deriving DecidableEq

structure Printer where
  writer : Writer
  options : PrintOptions
  comments : Option CommentTable
  /-- Positions whose comments have been written. -/
  commented : List Nat
  marks : Array Mark

/-- A finished text with its marks. -/
structure PrintOutput where
  code : String
  marks : Array Mark

namespace Printer

def new (options : PrintOptions) : Printer :=
  ⟨Writer.new options.isFormatted options.indentWidth, options, none, [], #[]⟩

def withComments (options : PrintOptions) (comments : CommentTable) : Printer :=
  { new options with comments := some comments }

def finish (p : Printer) : PrintOutput := ⟨p.writer.output, p.marks⟩

/-- The text written so far. -/
def output (p : Printer) : String := p.writer.output

def updateWriter (p : Printer) (f : Writer → Writer) : Printer := { p with writer := f p.writer }

/-- Records that the node with this span starts here. -/
def mark (p : Printer) (span : Span) : Printer :=
  if p.options.recordsPositions then { p with marks := p.marks.push ⟨span, p.writer.position⟩ }
  else p

/-- Writes a comment, and what separates it from the code behind it. -/
def writeComment (w : Writer) (c : Comment) : Writer :=
  let w := w.write c.text
  match c.kind with
  | .line => w.softLine
  | .block => w.softSpace

/-- The comments to write in front of the node with this span. -/
def pendingComments (p : Printer) (span : Span) : List Comment :=
  match p.comments with
  | none => []
  | some table =>
    if p.writer.isPretty && !span.isSynthesized && !p.commented.contains span.start.toNat then
      table.leading span.start.toNat
    else []

/-- Writes the comments in front of the node with this span. -/
def writeComments (p : Printer) (span : Span) : Printer :=
  match p.pendingComments span with
  | [] => p
  | cs =>
    { p with
      writer := cs.foldl writeComment p.writer
      commented := span.start.toNat :: p.commented }

/-- Leaves a level, which fails where there is none to leave. -/
def leaveLevel (p : Printer) : Printer × Option EmitError :=
  match p.writer.decreaseIndent with
  | .ok w => ({ p with writer := w }, none)
  | .error e => (p, some e)

end Printer

/-- The printer after a document, and the error if it failed. Where a part that
is one level deeper fails, the level stays. -/
def Doc.run : Doc → Printer → Printer × Option EmitError
  | .empty, p => (p, none)
  | .text s, p => (p.updateWriter fun w => w.write s, none)
  | .softSpace, p => (p.updateWriter Writer.softSpace, none)
  | .softLine, p => (p.updateWriter Writer.softLine, none)
  | .compactLine, p => (if p.writer.isPretty then p else p.updateWriter Writer.hardLine, none)
  | .mark span, p => (p.mark span, none)
  | .comments span, p => (p.writeComments span, none)
  | .nest body, p =>
    if p.writer.isPretty then
      match body.run (p.updateWriter Writer.increaseIndent) with
      | (q, some e) => (q, some e)
      | (q, none) =>
        match q.writer.decreaseIndent with
        | .ok w => ({ q with writer := w }, none)
        | .error e => (q, some e)
    else body.run p
  | .fail e, p => (p, some e)
  | .append first second, p =>
    match first.run p with
    | (q, some e) => (q, some e)
    | (q, none) => second.run q

/-- A run on a depth that is a 32-bit word: what it comes to, or `none` where an
overflow stops it. -/
def Doc.runWord (o : Overflow) : Doc → Printer → Option (Printer × Option EmitError)
  | .nest body, p =>
    if p.writer.isPretty then do
      let w ← p.writer.increaseWord o
      match ← body.runWord o { p with writer := w } with
      | (q, some e) => return (q, some e)
      | (q, none) => return q.leaveLevel
    else body.runWord o p
  | .append first second, p => do
    match ← first.runWord o p with
    | (q, some e) => return (q, some e)
    | (q, none) => second.runWord o q
  | d, p => some (d.run p)

end EcmaPrinter
