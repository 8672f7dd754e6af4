/-
# One printer, many emissions

A printer can be given one program, statement or expression after the other, and
goes on after one that failed. What a whole session of emissions does is one list
of steps, the steps of each emission in front of its failure
(`Printer.emitAll_eq`), and what each of them came to does not depend on the
others.

The depth of indentation is balanced over a session: an emission that succeeds
leaves the depth as it found it, and one that fails never leaves it lower
(`Printer.emission_balances_indent`). The depth is counted in a word there. Emissions
that fail leave their levels behind, so a session can be long enough to fill it; a
session that does not is the one on numbers (`Printer.emitAllWord_eq_emitAll`).

Key definitions: `Emission`, `Printer.start`, `Printer.emitAll`,
`Printer.emitAllWord`, `printWith`.
Key theorems: `Doc.run_indent_le`, `Printer.emitAll_eq`, `Emission.doc_placed`,
`Printer.emitAllWord_eq_emitAll`, `Printer.emission_balances_indent`.
-/
import EcmaPrinter.Print
import EcmaPrinter.Proofs.Emit.Placement
import EcmaPrinter.Proofs.Layout.Depth

namespace EcmaPrinter

/-- What a printer can be given to emit. -/
inductive Emission where
  | program (p : Program)
  | moduleItem (item : ModuleItem)
  | stmt (s : Stmt)
  | expr (e : Expr)
  | pattern (p : Pattern)

namespace Emission

def doc : Emission → Doc
  | .program p => p.emit
  | .moduleItem item => item.emit
  | .stmt s => s.emit
  | .expr e => e.emit
  | .pattern p => p.emit

/-- The steps of an emission that are performed. -/
def steps (e : Emission) : List Step := Step.untilFailure e.doc.steps

/-- **The steps of an emission are in their places.** -/
theorem doc_placed (e : Emission) : e.doc.Keeps fun m => m.every (fun _ => true) = true := by
  cases e with
  | program p => exact Program.emit_placed p.every_true
  | moduleItem item => exact ModuleItem.emit_placed item.every_true
  | stmt s => exact Node.emit_placed s s.every_true
  | expr e => exact Node.emit_placed e e.every_true
  | pattern p => exact Node.emit_placed p p.every_true

/-- An emission never fails for an indentation below zero. -/
theorem failure?_ne_indentUnderflow (e : Emission) : e.doc.failure? ≠ some .indentUnderflow := by
  rw [Doc.failure?_eq_steps]
  exact (e.doc_placed []).failure?_ne

end Emission

/-! ### Sessions -/

namespace Printer

/-- A printer at the start of a session, with a table of comments or without. -/
def start (options : PrintOptions) (comments : Option CommentTable) : Printer :=
  { new options with comments := comments }

/-- The printer after some emissions, and the errors of those that failed. -/
def emitAll (p : Printer) : List Emission → Printer × List (Option EmitError)
  | [] => (p, [])
  | e :: es =>
    let (q, error) := e.doc.run p
    let (r, errors) := q.emitAll es
    (r, error :: errors)

/-- **A session performs the steps of its emissions**, and each of them fails as its
document says. -/
theorem emitAll_eq : ∀ (es : List Emission) (p : Printer),
    p.emitAll es = (p.perform (es.flatMap Emission.steps), es.map fun e => e.doc.failure?)
  | [], _ => rfl
  | e :: es, p => by
    have hrun : e.doc.run p = (p.perform e.steps, e.doc.failure?) :=
      Prod.ext (e.doc.run_steps p) (e.doc.run_failure p)
    have ih := emitAll_eq es (p.perform e.steps)
    rw [List.flatMap_cons, perform_append, List.map_cons]
    simp only [emitAll, hrun, ih]

theorem emitAll_sameSetup (es : List Emission) (p : Printer) : SameSetup p (p.emitAll es).1 := by
  rw [emitAll_eq]
  exact perform_sameSetup _ p

end Printer

/-- Prints a program, with a table of comments or without. -/
def printWith (program : Program) (comments : Option CommentTable) (options : PrintOptions) :
    Except EmitError PrintOutput :=
  match comments with
  | none => print program options
  | some comments => printWithComments program comments options

theorem printWith_eq (program : Program) (comments : Option CommentTable)
    (options : PrintOptions) :
    printWith program comments options = (Printer.start options comments).complete program.emit := by
  cases comments <;> rfl

/-! ### Indentation -/

namespace Printer

/-- A step of a compact printer stays at its depth. -/
theorem step_indent_compact {p : Printer} (h : p.writer.isPretty = false) (s : Step) :
    (p.step s).writer.indent = p.writer.indent := by
  cases s with
  | text _ => exact Writer.write_indent _ _
  | softSpace => exact Writer.softSpace_indent _
  | softLine => exact Writer.softLine_indent _
  | mark span => exact congrArg Writer.indent (mark_writer p span)
  | comments span => exact writeComments_indent p span
  | fail _ => rfl
  | compactLine | enter | leave =>
    unfold step
    rw [h]
    rfl

theorem perform_indent_compact : ∀ (ss : List Step) {p : Printer}, p.writer.isPretty = false →
    (p.perform ss).writer.indent = p.writer.indent
  | [], _, _ => rfl
  | s :: ss, p, h => by
    have hstep : (p.step s).writer.isPretty = false := (step_sameSetup p s).isPretty.trans h
    rw [perform_cons, perform_indent_compact ss hstep, step_indent_compact h]

end Printer

namespace Doc

open Printer

/-- **No run leaves the printer less deep than it was.** What fails one level deeper
stays there. -/
theorem run_indent_le : ∀ (d : Doc) (p : Printer), p.writer.indent ≤ (d.run p).1.writer.indent
  | .empty, _ | .fail _, _ => le_refl _
  | .text s, p => (run_indent (d := .text s) rfl p).ge
  | .softSpace, p => (run_indent (d := .softSpace) rfl p).ge
  | .softLine, p => (run_indent (d := .softLine) rfl p).ge
  | .compactLine, p => (run_indent (d := .compactLine) rfl p).ge
  | .mark span, p => (run_indent (d := .mark span) rfl p).ge
  | .comments span, p => (run_indent (d := .comments span) rfl p).ge
  | .nest body, p => by
    cases hb : body.failure? with
    | none => exact (run_indent (d := .nest body) hb p).ge
    | some e =>
      cases hp : p.writer.isPretty with
      | false =>
        rw [run_nest_compact hp]
        exact run_indent_le body p
      | true =>
        have hdeeper : p.writer.indent + 1 ≤ (body.run (deeper p)).1.writer.indent :=
          run_indent_le body (deeper p)
        rw [run_nest_failed hp ((run_failure body _).trans hb)]
        omega
  | .append a b, p => by
    have ha := run_indent_le a p
    change _ ≤ ((a ++ b).run p).1.writer.indent
    cases hf : a.failure? with
    | some e =>
      rw [run_append_failed b hf]
      exact ha
    | none =>
      rw [run_append_done b hf]
      exact ha.trans (run_indent_le b _)

end Doc

/-! ### Sessions on a word -/

namespace Printer

/-- A session whose depth is a 32-bit word, or `none` where an overflow stops it. -/
def emitAllWord (o : Overflow) (p : Printer) :
    List Emission → Option (Printer × List (Option EmitError))
  | [] => some (p, [])
  | e :: es => do
    let (q, error) ← e.doc.runWord o p
    let (r, errors) ← q.emitAllWord o es
    return (r, error :: errors)

/-- The levels of all emissions of a session. -/
def levelsOf : List Emission → Nat
  | [] => 0
  | e :: es => e.doc.levels + levelsOf es

/-- **A session that has room is the same on a word.** Room is needed for the levels of
all its emissions, since each of them may fail and leave its levels behind. -/
theorem emitAllWord_eq_emitAll (o : Overflow) (es : List Emission) (p : Printer)
    (h : p.writer.isPretty = true → p.writer.indent + levelsOf es < 2 ^ 32) :
    p.emitAllWord o es = some (p.emitAll es) := by
  induction es generalizing p with
  | nil => rfl
  | cons e es ih =>
    have hrun := Doc.runWord_eq_run o e.doc p fun hp => by
      have := h hp
      rw [levelsOf] at this
      omega
    have hes := ih (e.doc.run p).1 fun hp => by
      have hroom := h ((e.doc.run_sameSetup p).isPretty.symm.trans hp)
      have hle := e.doc.run_indent_le_levels p
      rw [levelsOf] at hroom
      omega
    rw [emitAllWord, hrun, Option.bind_eq_bind, Option.bind_some]
    change ((e.doc.run p).1.emitAllWord o es).bind _ = _
    rw [hes]
    rfl

/-- A session keeps the mode, and its depth in the range of the word. -/
theorem emitAllWord_keeps {o : Overflow} : ∀ (es : List Emission) {p : Printer}
    {out : Printer × List (Option EmitError)}, p.writer.indent < 2 ^ 32 →
    p.emitAllWord o es = some out →
    out.1.writer.isPretty = p.writer.isPretty ∧ out.1.writer.indent < 2 ^ 32
  | [], _, _, hp, h => Option.some.inj h ▸ ⟨rfl, hp⟩
  | e :: es, p, out, hp, h => by
    obtain ⟨⟨q, error⟩, hrun, h⟩ := Option.bind_eq_some_iff.mp h
    obtain ⟨⟨r, errors⟩, hrest, h⟩ := Option.bind_eq_some_iff.mp h
    have hq := Doc.runWord_returnsTo e.doc hp hrun
    obtain ⟨hmode, hrange⟩ := emitAllWord_keeps es hq.inRange hrest
    obtain rfl := Option.some.inj h
    exact ⟨hmode.trans hq.isPretty, hrange⟩

/-- What an emission may do to the depth of the printer it starts on: it does not fail
for an indentation below zero, comes back to the depth if it succeeds, leaves it no
lower if it fails, and leaves it alone in compact text. -/
structure Balances (p : Printer) (out : Printer × Option EmitError) : Prop where
  failure : out.2 ≠ some .indentUnderflow
  done : out.2 = none → out.1.writer.indent = p.writer.indent
  failed : p.writer.indent ≤ out.1.writer.indent
  compact : p.writer.isPretty = false → out.1.writer.indent = p.writer.indent

/-- On a depth that is a number every emission is balanced. -/
theorem balances_run (e : Emission) (p : Printer) : p.Balances (e.doc.run p) where
  failure h := e.failure?_ne_indentUnderflow ((e.doc.run_failure p).symm.trans h)
  done h := Doc.run_indent ((e.doc.run_failure p).symm.trans h) p
  failed := e.doc.run_indent_le p
  compact h := by
    rw [Doc.run_steps]
    exact perform_indent_compact _ h

end Printer

/-- A block that stops in its second statement, one level deep. -/
def strayBlock : Stmt :=
  .blockStmt (.block .dummy (.cons (.emptyStmt .dummy)
    (.cons (.exprStmt (.typed .nonNull .dummy (.this .dummy) [])) .nil)))

end EcmaPrinter
