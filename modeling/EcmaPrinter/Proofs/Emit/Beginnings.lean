/-
# Expressions begin with their leftmost expression

Three recursions go down the left edge of an expression: one finds the leftmost expression
(`Node.leftmost`), one tells whether the text starts with a word (`Node.startsWord`), and
the third is the emitter itself. All take the same way, from an expression to its first
part (`Node.left?`). So the leftmost expression is its own leftmost expression, it starts
with a word exactly if the whole does, and wherever the whole prints it prints as well,
and its text is a prefix of the text of the whole.

The last of these is about formatted text too, blanks and indentation included, so the
first part has to find the writer as the whole has found it. Marks may have been recorded
in between, but where no comments are written, the writer after some steps depends on the
writer before them alone (`Printer.perform_writer`).

Key definitions: `Writer.step`, `Printer.IsUncommented`.
Key theorems: `Printer.perform_writer`, `Node.startsWord_leftmost`,
`Node.emit_steps_leftmost`, `expressions_begin_with_leftmost`.
-/
import EcmaPrinter.Proofs.Emit.Spine

namespace EcmaPrinter

/-! ### The writer on its own -/

namespace Writer

/-- The writer after a step that writes no comments. -/
def step (w : Writer) : Step → Writer
  | .text s => w.write s
  | .softSpace => w.softSpace
  | .softLine => w.softLine
  | .compactLine => if w.isPretty then w else w.hardLine
  | .enter => if w.isPretty then w.increaseIndent else w
  | .leave => if w.isPretty then { w with indent := w.indent - 1 } else w
  | .mark _ | .comments _ | .fail _ => w

theorem step_of_isIdle (w : Writer) {s : Step} (h : s.isIdle = true) : w.step s = w := by
  cases s with
  | text s => exact if_pos h
  | mark _ | comments _ | fail _ => rfl
  | softSpace | softLine | compactLine | enter | leave => cases h

/-- **Idle steps leave the writer as it is**, with the indentation that it owes. -/
theorem foldl_step_of_isIdle : ∀ {ss : List Step} (w : Writer),
    ss.all Step.isIdle = true → ss.foldl step w = w
  | [], _, _ => rfl
  | s :: ss, w, h => by
    rw [List.all_cons, Bool.and_eq_true] at h
    rw [List.foldl_cons, step_of_isIdle w h.1, foldl_step_of_isIdle w h.2]

end Writer

namespace Printer

variable {p q : Printer}

/-- No comments are written: there is no table of them, or the text is compact. -/
def IsUncommented (p : Printer) : Prop := p.comments = none ∨ p.writer.isPretty = false

theorem SameSetup.isUncommented (h : SameSetup p q) (hp : p.IsUncommented) : q.IsUncommented :=
  hp.imp h.comments.trans h.isPretty.trans

theorem step_writer (h : p.IsUncommented) (s : Step) : (p.step s).writer = p.writer.step s := by
  cases s with
  | text _ | softSpace | softLine | fail _ => rfl
  | mark span => exact mark_writer p span
  | comments span => exact congrArg writer (writeComments_eq h span)
  | compactLine | enter | leave =>
    dsimp only [step, Writer.step]
    split <;> rfl

/-- **Where no comments are written, the writer goes its own way**: it does not see the
marks or the options of its printer. -/
theorem perform_writer : ∀ (ss : List Step) {p : Printer}, p.IsUncommented →
    (p.perform ss).writer = ss.foldl Writer.step p.writer
  | [], _, _ => rfl
  | s :: ss, p, h => by
    rw [perform_cons, perform_writer ss ((step_sameSetup p s).isUncommented h), step_writer h,
      List.foldl_cons]

end Printer

namespace Doc

theorem run_writer {d : Doc} (hd : d.failure? = none) {p : Printer} (hp : p.IsUncommented) :
    (d.run p).1.writer = d.steps.foldl Writer.step p.writer := by
  rw [run_steps_done hd, Printer.perform_writer _ hp]

/-- A document that is another one with nothing written in front goes on where the other one
ends. -/
theorem run_writer_of_steps {d inner : Doc} {before after : List Step}
    (hsteps : d.steps = before ++ inner.steps ++ after)
    (hbefore : before.all Step.isIdle = true) (hd : d.failure? = none)
    (hinner : inner.failure? = none) {p : Printer} (hp : p.IsUncommented) :
    (d.run p).1.writer = ((inner.run p).1.perform after).writer := by
  have hq : (inner.run p).1.IsUncommented := (run_sameSetup inner p).isUncommented hp
  calc (d.run p).1.writer
      = (before ++ inner.steps ++ after).foldl Writer.step p.writer := by
        rw [run_writer hd hp, hsteps]
    _ = after.foldl Writer.step (inner.steps.foldl Writer.step p.writer) := by
        rw [List.foldl_append, List.foldl_append, Writer.foldl_step_of_isIdle _ hbefore]
    _ = ((inner.run p).1.perform after).writer := by
        rw [Printer.perform_writer _ hq, run_writer hinner hp]

end Doc

/-! ### The left edge -/

namespace Node

theorem leftmost_leftmost (e : Expr) : e.leftmost.leftmost = e.leftmost :=
  leftmost_of_left?_none (left?_leftmost e)

theorem startsWord_left {e left : Expr} (h : e.left? = some left) :
    e.startsWord = left.startsWord := by
  cases isLeft_of_left? h <;> rfl

/-- **An expression starts with a word if its leftmost expression does.** -/
theorem startsWord_leftmost (e : Expr) : e.leftmost.startsWord = e.startsWord :=
  @leftmost_of_step (fun inner => inner.startsWord = e.startsWord)
    (fun hleft h => (startsWord_left hleft).symm.trans h) e rfl

/-- **An expression is its leftmost expression with nothing written in front** and some
steps behind. -/
theorem emit_steps_leftmost {e : Expr} (hf : e.emit.failure? = none) :
    ∃ before after, before.all Step.isIdle = true ∧
      e.emit.steps = before ++ e.leftmost.emit.steps ++ after := by
  let inside (inner : Expr) : Prop := inner.emit.failure? = none ∧
    ∃ before after, before.all Step.isIdle = true ∧
      e.emit.steps = before ++ inner.emit.steps ++ after
  have hinside : inside e.leftmost := by
    refine leftmost_of_step ?_ e ⟨hf, [], [], rfl, (List.append_nil _).symm⟩
    rintro inner left hleft ⟨hinner, before, after, hbefore, hsteps⟩
    obtain ⟨outer, houter, hinnerSteps⟩ := emit_steps_left hleft hinner
    refine ⟨failure?_left hleft hinner, before ++ outer, inner.behindLeft.steps ++ after, ?_, ?_⟩
    · rw [List.all_append, hbefore, houter]
      rfl
    · rw [hsteps, hinnerSteps]
      simp only [List.append_assoc]
  exact hinside.2

/-- Wherever an expression prints, its leftmost expression prints a prefix of its text. -/
theorem run_leftmost {e : Expr} {p : Printer} (hp : p.IsUncommented)
    (hf : e.emit.failure? = none) :
    (e.leftmost.emit.run p).1.output.toList <+: (e.emit.run p).1.output.toList := by
  obtain ⟨before, after, hbefore, hsteps⟩ := emit_steps_leftmost hf
  -- the printers differ in the marks of the expressions further out, their writers do not
  have houtput : (e.emit.run p).1.output = ((e.leftmost.emit.run p).1.perform after).output :=
    congrArg Writer.output
      (Doc.run_writer_of_steps hsteps hbefore hf (failure?_leftmost hf) hp)
  rw [houtput, Printer.perform_output]
  exact List.prefix_append ..

end Node

/-- **The looks at the left edge of an expression agree**, with each other and with the
emitter. The leftmost expression has no first part, so that looking for it again finds it
again, and an expression starts with a word exactly if its leftmost expression does. Where
no comments are written and an expression prints, in either mode and behind anything, its
leftmost expression prints as well, and what it writes is a prefix of what the whole
writes. -/
theorem expressions_begin_with_leftmost (e : Expr) :
    e.leftmost.left? = none ∧ e.leftmost.leftmost = e.leftmost ∧
      e.startsWord = e.leftmost.startsWord ∧
      ∀ p : Printer, p.IsUncommented → (e.emit.run p).2 = none →
        (e.leftmost.emit.run p).2 = none ∧
          ∃ text rest, (e.leftmost.emit.run p).1.output.toList = p.output.toList ++ text ∧
            (e.emit.run p).1.output.toList = p.output.toList ++ (text ++ rest) := by
  refine ⟨e.left?_leftmost, e.leftmost_leftmost, e.startsWord_leftmost.symm,
    fun p hp hprints => ?_⟩
  have hf : e.emit.failure? = none := (Doc.run_failure _ p).symm.trans hprints
  have hleftmost : e.leftmost.emit.failure? = none := Node.failure?_leftmost hf
  have htext : (e.leftmost.emit.run p).1.output.toList =
      p.output.toList ++ (p.pieces e.leftmost.emit.steps).flatMap Piece.text := by
    rw [Doc.run_steps_done hleftmost, Printer.perform_output]
  obtain ⟨rest, hrest⟩ := Node.run_leftmost hp hf
  refine ⟨(Doc.run_failure _ p).trans hleftmost, _, rest, htext, ?_⟩
  rw [← hrest, htext, List.append_assoc]

/-- A sequence that starts with an assignment to `new F().p‹t›()++ + y ? y : y`, where `‹t›`
is a template. Every expression down to `new F()` is the first part of the one around it. -/
def longEdge : Expr :=
  let y : Expr := .ident ⟨.dummy, "y", false, none⟩
  let object : Expr := .new .dummy (.ident ⟨.dummy, "F", false, none⟩) .nil none
  let property : Expr := .member .dummy object (.ident ⟨.dummy, "p", false, none⟩) false
  let tagged : Expr := .taggedTemplate .dummy property .nil [.ofRaw "t"] none
  let counter : Expr := .update .dummy .increment false (.call .dummy tagged .nil none)
  let choice : Expr := .conditional .dummy (.binary .dummy .add counter y) y y
  .sequence .dummy (.cons (.assign .dummy .set (.exprPattern choice) y) (.cons y .nil))

theorem longEdge_begins_with_leftmost :
    longEdge.leftmost.leftmost = longEdge.leftmost ∧ longEdge.startsWord = true ∧
      longEdge.leftmost.startsWord = true ∧
      (∃ rest, (longEdge.emit.run (.new .compact)).1.output.toList = "new F()".toList ++ rest) ∧
      ∃ rest, (longEdge.emit.run (Doc.deeper (.new .formatted))).1.output.toList =
        "    new F()".toList ++ rest := by
  obtain ⟨-, hagain, hword, hrun⟩ := expressions_begin_with_leftmost longEdge
  obtain ⟨-, text, rest, htext, hwhole⟩ := hrun (.new .compact) (.inl rfl) rfl
  obtain ⟨-, text', rest', htext', hwhole'⟩ := hrun (Doc.deeper (.new .formatted)) (.inl rfl) rfl
  have hcompact : text = "new F()".toList := htext.symm.trans rfl
  have hformatted : text' = "    new F()".toList := htext'.symm.trans rfl
  subst hcompact hformatted
  exact ⟨hagain, hword.trans rfl, rfl, ⟨rest, hwhole⟩, rest', hwhole'⟩

end EcmaPrinter
