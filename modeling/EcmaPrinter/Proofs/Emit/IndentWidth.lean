/-
# Indentation at any width

A formatted text is made of pieces, each of which stands behind an indentation. What the
pieces are, and how deep each of them is indented, does not depend on the width of a level:
`Doc.layOut` finds them from the document alone, and counts the indented lists that are open
around the place where a line starts. Printed at a width, each piece comes behind that many
blanks for each of its levels (`indentation_scales_with_width`).

A text that has line breaks of its own, like a template or a comment, is part of one piece:
behind these breaks nothing is indented.

Key definitions: `Indented`, `Sheet`, `Doc.layOut`, `Program.sheet`, `Sheet.Shows`.
Key theorems: `Sheet.Follows.run`, `Doc.layOut_breaksLines`, `indentation_scales_with_width`.
-/
import EcmaPrinter.Proofs.Emit.Session
import EcmaPrinter.Proofs.Layout.Operations

namespace EcmaPrinter

/-- A piece of text behind an indentation, with the number of its levels. -/
structure Indented where
  depth : Nat
  text : List Char
deriving DecidableEq

/-- The piece behind its indentation, at a width that may be cut to a word. -/
def Indented.chars (width : UInt32) (piece : Indented) : List Char :=
  List.replicate (UInt32.ofNat piece.depth * width).toNat ' ' ++ piece.text

/-- A formatted text in pieces, last first. Marks are kept with the number of line breaks in
front of them, last first as well. -/
structure Sheet where
  pieces : List Indented
  atLineStart : Bool
  commented : List Nat
  marks : List (Span × Nat)

namespace Sheet

def blank : Sheet := ⟨[], true, [], []⟩

/-- The last piece goes on with a text. -/
def extend (text : List Char) : List Indented → List Indented
  | [] => []
  | piece :: pieces => { piece with text := piece.text ++ text } :: pieces

/-- A text starts a piece at the start of a line, and goes on with the last one elsewhere. -/
def write (depth : Nat) (text : String) (s : Sheet) : Sheet :=
  if text.isEmpty then s
  else if s.atLineStart then
    { s with pieces := ⟨depth, text.toList⟩ :: s.pieces, atLineStart := false }
  else { s with pieces := extend text.toList s.pieces }

/-- A line break ends the last piece. There is none in front of all text. -/
def breakLine (s : Sheet) : Sheet :=
  if s.pieces.isEmpty then s else { s with pieces := extend ['\n'] s.pieces, atLineStart := true }

/-- The line breaks so far. -/
def lineBreaks (s : Sheet) : Nat := (s.pieces.flatMap Indented.text).count '\n'

def mark (span : Span) (s : Sheet) : Sheet := { s with marks := (span, s.lineBreaks) :: s.marks }

/-- A comment, and what separates it from the code behind it. -/
def writeComment (depth : Nat) (s : Sheet) (c : Comment) : Sheet :=
  match c.kind with
  | .line => (s.write depth c.text).breakLine
  | .block => (s.write depth c.text).write depth " "

/-- The comments to write in front of the node with this span. -/
def pending (table : Option CommentTable) (span : Span) (s : Sheet) : List Comment :=
  match table with
  | none => []
  | some table =>
    if !span.isSynthesized && !s.commented.contains span.start.toNat then
      table.leading span.start.toNat
    else []

def writeComments (table : Option CommentTable) (depth : Nat) (span : Span) (s : Sheet) : Sheet :=
  match s.pending table span with
  | [] => s
  | cs => { cs.foldl (writeComment depth) s with commented := span.start.toNat :: s.commented }

end Sheet

/-- Lays a document out where `depth` indented lists are open around it. What is nested in a
document are the items of an indented list. -/
def Doc.layOut (table : Option CommentTable) : Doc → (depth : Nat) → Sheet → Sheet
  | .empty, _, s | .compactLine, _, s | .fail _, _, s => s
  | .text t, depth, s => s.write depth t
  | .softSpace, depth, s => s.write depth " "
  | .softLine, _, s => s.breakLine
  | .mark span, _, s => s.mark span
  | .comments span, depth, s => s.writeComments table depth span
  | .nest body, depth, s => body.layOut table (depth + 1) s
  | .append first second, depth, s => second.layOut table depth (first.layOut table depth s)

/-- A program laid out, with a table of comments or without. -/
def Program.sheet (program : Program) (table : Option CommentTable) : Sheet :=
  program.emit.layOut table 0 .blank

/-! ### Sheets and writers -/

namespace Sheet

/-- The text of a sheet at a width. -/
def render (width : UInt32) (s : Sheet) : List Char :=
  s.pieces.reverse.flatMap (Indented.chars width)

theorem flatMap_extend (width : UInt32) (text : List Char) {pieces : List Indented}
    (h : pieces ≠ []) : (extend text pieces).reverse.flatMap (Indented.chars width) =
      pieces.reverse.flatMap (Indented.chars width) ++ text := by
  cases pieces with
  | nil => exact absurd rfl h
  | cons piece pieces => simp [extend, Indented.chars]

theorem extend_eq_nil {text : List Char} {pieces : List Indented} :
    extend text pieces = [] ↔ pieces = [] := by
  cases pieces <;> simp [extend]

theorem count_render (width : UInt32) (s : Sheet) : (s.render width).count '\n' = s.lineBreaks := by
  rw [render, List.count_flatMap, List.map_reverse, List.sum_reverse, lineBreaks,
    List.count_flatMap]
  congr 1
  refine List.map_congr_left fun piece _ => ?_
  rw [Function.comp_apply, Function.comp_apply, Indented.chars, List.count_append,
    List.count_replicate]
  simp

/-! Writing leaves the marks of a sheet alone. -/

@[simp] theorem marks_write (depth : Nat) (text : String) (s : Sheet) :
    (s.write depth text).marks = s.marks := by
  unfold write
  split
  · rfl
  · split <;> rfl

@[simp] theorem commented_write (depth : Nat) (text : String) (s : Sheet) :
    (s.write depth text).commented = s.commented := by
  unfold write
  split
  · rfl
  · split <;> rfl

@[simp] theorem marks_breakLine (s : Sheet) : s.breakLine.marks = s.marks := by
  unfold breakLine
  split <;> rfl

@[simp] theorem commented_breakLine (s : Sheet) : s.breakLine.commented = s.commented := by
  unfold breakLine
  split <;> rfl

theorem marks_writeAll (depth : Nat) : ∀ (cs : List Comment) (s : Sheet),
    (cs.foldl (writeComment depth) s).marks = s.marks
  | [], _ => rfl
  | c :: cs, s => by
    rw [List.foldl_cons, marks_writeAll depth cs, writeComment]
    cases c.kind <;> simp

/-- The sheet is what the writer has written at a width, where `depth` indented lists are
open. -/
structure Shows (s : Sheet) (width : UInt32) (depth : Nat) (w : Writer) : Prop where
  isPretty : w.isPretty = true
  indentWidth : w.indentWidth = width
  indent : w.indent = depth
  output : w.output.toList = s.render width
  isEmpty : w.isEmpty = s.pieces.isEmpty
  atLineStart : w.atLineStart = s.atLineStart
  started : s.pieces = [] → s.atLineStart = true
  isExact : w.IsExact

end Sheet

theorem Writer.write_atLineStart {w : Writer} {text : String} (h : ¬ text.isEmpty = true) :
    (w.write text).atLineStart = false := by
  rw [write, if_neg h]
  unfold flushIndent
  cases hstart : w.atLineStart <;> simp [hstart]

theorem Writer.isEmpty_eq_false {w : Writer} (h : w.output.toList ≠ []) : w.isEmpty = false := by
  unfold isEmpty
  simpa using h

namespace Sheet.Shows

variable {s : Sheet} {width : UInt32} {depth : Nat} {w : Writer}

/-- Only the pieces of a sheet are shown. -/
theorem of_pieces (h : s.Shows width depth w) {t : Sheet} (hpieces : t.pieces = s.pieces)
    (hstart : t.atLineStart = s.atLineStart) : t.Shows width depth w := by
  refine ⟨h.isPretty, h.indentWidth, h.indent, ?_, ?_, h.atLineStart.trans hstart.symm, ?_,
    h.isExact⟩
  · rw [render, hpieces]
    exact h.output
  · rw [hpieces]
    exact h.isEmpty
  · rw [hpieces, hstart]
    exact h.started

/-- What is shown is there at every depth. -/
theorem atDepth (h : s.Shows width depth w) (other : Nat) :
    s.Shows width other { w with indent := other } :=
  ⟨h.isPretty, h.indentWidth, rfl, h.output, h.isEmpty, h.atLineStart, h.started, h.isExact⟩

/-- What is owed at the start of a line. -/
theorem owed (h : s.Shows width depth w) (hstart : s.atLineStart = true) :
    w.owed = List.replicate (UInt32.ofNat depth * width).toNat ' ' := by
  simp [Writer.owed, Writer.pendingIndent, h.isPretty, h.atLineStart, hstart, h.indent,
    h.indentWidth]

theorem write (h : s.Shows width depth w) (text : String) :
    (s.write depth text).Shows width depth (w.write text) := by
  by_cases htext : text.isEmpty = true
  · have hw : w.write text = w := if_pos htext
    rw [hw, Sheet.write, if_pos htext]
    exact h
  have hadded : (w.write text).output.toList = w.output.toList ++ (w.owed ++ text.toList) := by
    rw [Writer.write_toList, Writer.added, if_neg htext]
  have hempty : (w.write text).isEmpty = false := by
    refine Writer.isEmpty_eq_false ?_
    rw [hadded]
    simpa using fun _ _ => htext
  have hline : (w.write text).atLineStart = false := Writer.write_atLineStart htext
  rw [Sheet.write, if_neg htext]
  split
  · rename_i hstart
    refine ⟨by simp [h.isPretty], by simp [h.indentWidth], by simp [h.indent], ?_, hempty, hline,
      fun hnil => absurd hnil (List.cons_ne_nil _ _), h.isExact.write text⟩
    rw [hadded, h.owed hstart, h.output]
    simp [render, Indented.chars]
  · rename_i hstart
    have hpieces : s.pieces ≠ [] := fun hnil => hstart (h.started hnil)
    have howed : w.owed = [] :=
      Writer.owed_of_not_atLineStart (h.atLineStart.trans (by simpa using hstart))
    refine ⟨by simp [h.isPretty], by simp [h.indentWidth], by simp [h.indent], ?_, ?_, ?_, ?_,
      h.isExact.write text⟩
    · rw [hadded, howed, h.output, render, render, flatMap_extend _ _ hpieces]
      simp
    · simpa [hempty, extend_eq_nil] using hpieces
    · rw [hline]
      simpa using hstart
    · exact fun hnil => absurd (extend_eq_nil.mp hnil) hpieces

theorem softSpace (h : s.Shows width depth w) :
    (s.write depth " ").Shows width depth w.softSpace := by
  have hw : w.softSpace = w.write " " := if_pos h.isPretty
  rw [hw]
  exact h.write " "

theorem softLine (h : s.Shows width depth w) : s.breakLine.Shows width depth w.softLine := by
  by_cases hpieces : s.pieces = []
  · have hw : w.softLine = w := by simp [Writer.softLine, h.isEmpty, hpieces]
    have hs : s.breakLine = s := by simp [breakLine, hpieces]
    rw [hw, hs]
    exact h
  · have hw : w.softLine = w.hardLine := by simp [Writer.softLine, h.isPretty, h.isEmpty, hpieces]
    have hs : s.breakLine = { s with pieces := extend ['\n'] s.pieces, atLineStart := true } := by
      simp [breakLine, hpieces]
    have houtput : w.hardLine.output.toList = w.output.toList ++ ['\n'] := String.toList_append
    rw [hw, hs]
    refine ⟨h.isPretty, h.indentWidth, h.indent, ?_, ?_, rfl, fun _ => rfl, h.isExact.hardLine⟩
    · rw [houtput, h.output]
      exact (flatMap_extend width ['\n'] hpieces).symm
    · rw [Writer.isEmpty_eq_false (by simp [houtput])]
      simpa [extend_eq_nil] using hpieces

theorem writeComment (h : s.Shows width depth w) (c : Comment) :
    (s.writeComment depth c).Shows width depth (Printer.writeComment w c) := by
  unfold Sheet.writeComment Printer.writeComment
  cases c.kind with
  | line => exact (h.write c.text).softLine
  | block => exact (h.write c.text).softSpace

theorem writeAll : ∀ {s : Sheet} {w : Writer} (cs : List Comment), s.Shows width depth w →
    (cs.foldl (Sheet.writeComment depth) s).Shows width depth (cs.foldl Printer.writeComment w)
  | _, _, [], h => h
  | _, _, c :: cs, h => writeAll cs (h.writeComment c)

/-- The line that the writer announces. -/
theorem line (h : s.Shows width depth w) : w.line = UInt32.ofNat s.lineBreaks := by
  have hline : w.line = (lineColumn w.output.toList).1 := congrArg Prod.fst h.isExact
  rw [hline, lineColumn, h.output, count_render]

end Sheet.Shows

/-! ### Sheets and printers -/

namespace Sheet

/-- The marks of a sheet, in order. -/
def lines (s : Sheet) : List (Span × UInt32) :=
  s.marks.reverse.map fun m => (m.1, UInt32.ofNat m.2)

/-- The sheet is what the printer has written, and has its marks if these are recorded. -/
structure Follows (s : Sheet) (width : UInt32) (depth : Nat) (p : Printer) : Prop where
  shows : s.Shows width depth p.writer
  commented : p.commented = s.commented
  marks : p.marks.toList.map (fun m => (m.span, m.generated.line)) =
    if p.options.recordsPositions then s.lines else []

namespace Follows

variable {s : Sheet} {width : UInt32} {depth : Nat} {p : Printer}

/-- What is only done to the writer. -/
theorem updateWriter (h : s.Follows width depth p) {t : Sheet} {f : Writer → Writer}
    (hshows : t.Shows width depth (f p.writer)) (hcommented : t.commented = s.commented)
    (hmarks : t.marks = s.marks) : t.Follows width depth (p.updateWriter f) := by
  refine ⟨hshows, h.commented.trans hcommented.symm, ?_⟩
  rw [lines, hmarks]
  exact h.marks

theorem mark (h : s.Follows width depth p) (span : Span) :
    (s.mark span).Follows width depth (p.mark span) := by
  have hshows : (s.mark span).Shows width depth p.writer := h.shows.of_pieces rfl rfl
  have hmarks := h.marks
  unfold Printer.mark
  split
  · rename_i hrecords
    refine ⟨hshows, h.commented, ?_⟩
    rw [if_pos hrecords] at hmarks ⊢
    simp [hmarks, lines, Sheet.mark, Writer.position, h.shows.line]
  · rename_i hrecords
    refine ⟨hshows, h.commented, ?_⟩
    rw [if_neg hrecords] at hmarks ⊢
    exact hmarks

theorem writeComments (h : s.Follows width depth p) (span : Span) :
    (s.writeComments p.comments depth span).Follows width depth (p.writeComments span) := by
  have hpending : p.pendingComments span = s.pending p.comments span := by
    unfold Printer.pendingComments Sheet.pending
    rw [h.shows.isPretty, h.commented]
    rfl
  have hshows := h.shows.writeAll (s.pending p.comments span)
  have hmarks := h.marks
  rw [Sheet.lines, ← marks_writeAll depth (s.pending p.comments span) s] at hmarks
  by_cases hnone : (p.pendingComments span).isEmpty = true
  · rw [Printer.writeComments_of_isEmpty hnone]
    rw [hpending] at hnone
    rw [Sheet.writeComments, List.isEmpty_iff.mp hnone]
    exact h
  · rw [Printer.writeComments_of_not_isEmpty hnone, hpending]
    rw [hpending] at hnone
    rw [Sheet.writeComments]
    cases hcs : s.pending p.comments span with
    | nil => exact absurd (List.isEmpty_iff.mpr hcs) hnone
    | cons c cs =>
      rw [hcs] at hshows hmarks
      exact ⟨hshows.of_pieces rfl rfl, congrArg (span.start.toNat :: ·) h.commented, hmarks⟩

theorem deeper (h : s.Follows width depth p) : s.Follows width (depth + 1) (Doc.deeper p) := by
  have hshows := h.shows.atDepth (depth + 1)
  rw [← h.shows.indent] at hshows ⊢
  exact ⟨hshows, h.commented, h.marks⟩

/-- A level that is left again leaves its pieces. -/
theorem shallower (h : s.Follows width (depth + 1) p) :
    s.Follows width depth (Doc.shallower p) := by
  have hindent : p.writer.indent - 1 = depth := by rw [h.shows.indent, Nat.add_sub_cancel]
  have hshows := h.shows.atDepth depth
  rw [← hindent] at hshows ⊢
  exact ⟨hshows, h.commented, h.marks⟩

/-- **A formatted run writes what the document is laid out to**, whatever the width. -/
theorem run {d : Doc} (hd : d.failure? = none) (h : s.Follows width depth p) :
    (d.layOut p.comments depth s).Follows width depth (d.run p).1 := by
  induction d generalizing s depth p with
  | empty => exact h
  | text t =>
    exact h.updateWriter (f := fun w => w.write t) (h.shows.write t) (commented_write depth t s)
      (marks_write depth t s)
  | softSpace =>
    exact h.updateWriter h.shows.softSpace (commented_write depth " " s) (marks_write depth " " s)
  | softLine =>
    exact h.updateWriter h.shows.softLine (commented_breakLine s) (marks_breakLine s)
  | compactLine =>
    rw [Doc.run, if_pos h.shows.isPretty]
    exact h
  | mark span => exact h.mark span
  | comments span => exact h.writeComments span
  | nest body ih =>
    have hbody := ih hd h.deeper
    have hindent : 0 < (body.run (Doc.deeper p)).1.writer.indent := by
      rw [hbody.shows.indent]
      exact Nat.succ_pos depth
    rw [Doc.run_nest_done h.shows.isPretty ((Doc.run_failure body _).trans hd) hindent]
    exact hbody.shallower
  | fail e => cases hd
  | append a b iha ihb =>
    obtain ⟨ha, hb⟩ := Option.or_eq_none_iff.mp hd
    have hrest := ihb hb (iha ha h)
    rw [(Doc.run_sameSetup a p).comments] at hrest
    rw [show Doc.append a b = a ++ b from rfl, Doc.run_append_done b ha]
    exact hrest

end Follows

end Sheet

/-! ### Where pieces start -/

/-- The text ends in a line break. -/
def Indented.EndsLine (piece : Indented) : Prop := piece.text.getLast? = some '\n'

namespace Sheet

/-- Each piece in front of the last one ends in a line break, and the last one does so at the
start of a line. -/
structure BreaksLines (s : Sheet) : Prop where
  tail : ∀ piece ∈ s.pieces.tail, piece.EndsLine
  head : s.atLineStart = true → ∀ piece ∈ s.pieces.head?, piece.EndsLine

namespace BreaksLines

variable {s : Sheet}

theorem of_blank : Sheet.blank.BreaksLines where
  tail _ hpiece := absurd hpiece List.not_mem_nil
  head _ _ hpiece := by cases hpiece

theorem all (h : s.BreaksLines) (hstart : s.atLineStart = true) :
    ∀ piece ∈ s.pieces, piece.EndsLine := by
  intro piece hpiece
  have hhead := h.head hstart
  have htail := h.tail
  cases hs : s.pieces with
  | nil =>
    rw [hs] at hpiece
    cases hpiece
  | cons first pieces =>
    rw [hs] at hpiece hhead htail
    rcases List.mem_cons.mp hpiece with rfl | hpiece
    · exact hhead _ rfl
    · exact htail piece hpiece

theorem tail_extend (text : List Char) (pieces : List Indented) :
    (extend text pieces).tail = pieces.tail := by
  cases pieces <;> rfl

theorem write (h : s.BreaksLines) (depth : Nat) (text : String) :
    (s.write depth text).BreaksLines := by
  unfold Sheet.write
  split
  · exact h
  · split
    · rename_i hstart
      exact ⟨h.all hstart, fun hstart' => absurd hstart' Bool.false_ne_true⟩
    · rename_i hstart
      refine ⟨?_, fun hstart' => absurd hstart' hstart⟩
      rw [tail_extend]
      exact h.tail

theorem breakLine (h : s.BreaksLines) : s.breakLine.BreaksLines := by
  unfold Sheet.breakLine
  split
  · exact h
  · refine ⟨?_, fun _ piece hpiece => ?_⟩
    · rw [tail_extend]
      exact h.tail
    · cases hs : s.pieces with
      | nil => simp [hs, extend] at hpiece
      | cons first pieces =>
        simp only [hs, extend, List.head?_cons, Option.mem_def, Option.some.injEq] at hpiece
        subst hpiece
        simp [Indented.EndsLine]

theorem writeComments (h : s.BreaksLines) (table : Option CommentTable) (depth : Nat)
    (span : Span) : (s.writeComments table depth span).BreaksLines := by
  have hall : ∀ (cs : List Comment) {s : Sheet}, s.BreaksLines →
      (cs.foldl (writeComment depth) s).BreaksLines := by
    intro cs
    induction cs with
    | nil => exact id
    | cons c cs ih =>
      intro s h
      refine ih ?_
      unfold writeComment
      cases c.kind with
      | line => exact (h.write depth c.text).breakLine
      | block => exact (h.write depth c.text).write depth " "
  unfold Sheet.writeComments
  split
  · exact h
  · exact ⟨(hall _ h).tail, (hall _ h).head⟩

end BreaksLines

end Sheet

/-- **A piece starts at the start of a line.** -/
theorem Doc.layOut_breaksLines (table : Option CommentTable) :
    ∀ (d : Doc) (depth : Nat) {s : Sheet}, s.BreaksLines → (d.layOut table depth s).BreaksLines
  | .empty, _, _, h | .compactLine, _, _, h | .fail _, _, _, h => h
  | .text t, depth, _, h => h.write depth t
  | .softSpace, depth, _, h => h.write depth " "
  | .softLine, _, _, h => h.breakLine
  | .mark _, _, _, h => ⟨h.tail, h.head⟩
  | .comments span, depth, _, h => h.writeComments table depth span
  | .nest body, depth, _, h => body.layOut_breaksLines table (depth + 1) h
  | .append a b, depth, _, h =>
    b.layOut_breaksLines table depth (a.layOut_breaksLines table depth h)

/-! ### Programs -/

/-- A program that prints at some width prints what it is laid out to, at any width. -/
theorem Program.sheet_follows {program : Program} (h : program.emit.failure? = none)
    (table : Option CommentTable) (records : Bool) (width : UInt32) :
    (program.sheet table).Follows width 0
      (program.emit.run (Printer.start ⟨true, width, records⟩ table)).1 := by
  have hblank : Sheet.blank.Follows width 0 (Printer.start ⟨true, width, records⟩ table) := by
    refine ⟨⟨rfl, rfl, rfl, rfl, rfl, rfl, fun _ => rfl, rfl⟩, rfl, ?_⟩
    cases records <;> rfl
  exact Sheet.Follows.run h hblank

/-- **The width of indentation scales indentation, and nothing else.** A program prints as
formatted text, with a table of comments or without. Laid out once, it is made of pieces, of
which each but the last ends its line, each with the number of indented lists that are open
where its line starts. At every width at which no indentation outgrows a word, the program
prints, its text is that of the pieces in order, each behind as many blanks as the width times
its depth, and the marks are on the lines on which they are laid out. -/
theorem indentation_scales_with_width (program : Program) (table : Option CommentTable)
    (records : Bool) {width₀ : UInt32} {output₀ : PrintOutput}
    (hprint : printWith program table ⟨true, width₀, records⟩ = .ok output₀) :
    (∀ piece ∈ (program.sheet table).pieces.reverse.dropLast, piece.EndsLine) ∧
    ∀ width : UInt32,
      (∀ piece ∈ (program.sheet table).pieces, piece.depth * width.toNat < 2 ^ 32) →
      ∃ output, printWith program table ⟨true, width, records⟩ = .ok output ∧
        output.code.toList = (program.sheet table).pieces.reverse.flatMap
          (fun piece => List.replicate (piece.depth * width.toNat) ' ' ++ piece.text) ∧
        output.marks.toList.map (fun m => (m.span, m.generated.line)) =
          if records then (program.sheet table).lines else [] := by
  have hdone : program.emit.failure? = none := by
    rw [printWith_eq, Printer.complete_eq] at hprint
    cases hf : program.emit.failure? with
    | none => rfl
    | some e =>
      rw [hf] at hprint
      cases hprint
  constructor
  · have hbreaks := program.emit.layOut_breaksLines table 0 Sheet.BreaksLines.of_blank
    intro piece hpiece
    rw [List.dropLast_reverse, List.mem_reverse] at hpiece
    exact hbreaks.tail piece hpiece
  · intro width hfits
    have hfollows := Program.sheet_follows hdone table records width
    have hsetup := Doc.run_sameSetup program.emit (Printer.start ⟨true, width, records⟩ table)
    have hok : printWith program table ⟨true, width, records⟩ =
        .ok (program.emit.run (Printer.start ⟨true, width, records⟩ table)).1.finish := by
      rw [printWith_eq, Printer.complete_eq, hdone]
    refine ⟨_, hok, ?_, ?_⟩
    · refine hfollows.shows.output.trans (List.flatMap_congr fun piece hpiece => ?_)
      have hpiece := hfits piece (List.mem_reverse.mp hpiece)
      rw [Indented.chars, UInt32.toNat_mul, UInt32.toNat_ofNat', Nat.mod_mul_mod,
        Nat.mod_eq_of_lt hpiece]
    · have hmarks := hfollows.marks
      rw [hsetup.options] at hmarks
      exact hmarks

/-- A text over two lines, two blocks deep. -/
def deepTemplate : Program :=
  let block (s : Stmt) : Stmt := .blockStmt (.block Span.dummy (.cons s .nil))
  let template : Expr := .template Span.dummy .nil [Quasi.ofRaw "a\nb"]
  .script Span.dummy [block (block (.exprStmt template))] none

/-- A comment in front of everything, over two lines as well. -/
def headComment : Option CommentTable := some (CommentTable.empty.add 0 ⟨.block, "/*c\nd*/"⟩)

theorem deepTemplate_scales :
    (printWith deepTemplate headComment ⟨true, 4, false⟩).toOption.map PrintOutput.code =
        some "/*c\nd*/ \x7b\n    \x7b\n        `a\nb`;\n    \x7d\n\x7d" ∧
      (deepTemplate.sheet headComment).pieces.reverse =
        [⟨0, "/*c\nd*/ \x7b\n".toList⟩, ⟨1, "\x7b\n".toList⟩, ⟨2, "`a\nb`;\n".toList⟩,
          ⟨1, "\x7d\n".toList⟩, ⟨0, "\x7d".toList⟩] ∧
      ∃ output, printWith deepTemplate headComment ⟨true, 1, false⟩ = .ok output ∧
        output.code.toList = "/*c\nd*/ \x7b\n \x7b\n  `a\nb`;\n \x7d\n\x7d".toList := by
  have hpieces : (deepTemplate.sheet headComment).pieces.reverse =
      [⟨0, "/*c\nd*/ \x7b\n".toList⟩, ⟨1, "\x7b\n".toList⟩, ⟨2, "`a\nb`;\n".toList⟩,
        ⟨1, "\x7d\n".toList⟩, ⟨0, "\x7d".toList⟩] := by decide
  have hprint : printWith deepTemplate headComment ⟨true, 4, false⟩ = .ok _ := rfl
  obtain ⟨-, hall⟩ := indentation_scales_with_width deepTemplate headComment false hprint
  obtain ⟨output, hprint, hcode, -⟩ := hall 1 (by decide)
  refine ⟨by decide, hpieces, output, hprint, ?_⟩
  rw [hcode, hpieces]
  decide

end EcmaPrinter
