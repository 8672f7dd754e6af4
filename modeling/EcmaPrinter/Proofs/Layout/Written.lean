/-
# What a step writes

Every step adds a piece to the text: code, or the comments of one position with
the layout around each of them. The pieces of some steps, put together, are the text
that performing them adds (`Printer.perform_output`).

Layout is the only thing that a piece of code has besides the text of its step
(`Writer.filter_added`), so that printers that differ in depth and comments write
the same code. The comments of a position are all written together, and no position
has its comments written twice (`Printer.positions_nodup`).

Key definitions: `Writer.owed`, `WrittenComment`, `Piece`, `Printer.piece`,
`Printer.pieces`.
Key theorems: `Printer.perform_output`, `Printer.pieces_code_filter`,
`Printer.pieces_group`, `Printer.positions_nodup`.
-/
import EcmaPrinter.Proofs.Layout.Modes
import EcmaPrinter.Proofs.Layout.Steps

namespace EcmaPrinter

/-! ### The writer -/

namespace Writer

/-- The blanks of the indentation that is still owed. -/
def owed (w : Writer) : List Char := List.replicate w.pendingIndent.toNat ' '

/-- The blank that formatted text has, behind what is owed. -/
def blank (w : Writer) : List Char := if w.isPretty then w.owed ++ [' '] else []

/-- The line break that formatted text has, not at its very start. -/
def lineBreak (w : Writer) : List Char := if w.isPretty && !w.isEmpty then ['\n'] else []

/-- What writing a text adds. -/
def added (w : Writer) (s : String) : List Char := if s.isEmpty then [] else w.owed ++ s.toList

theorem owed_of_not_atLineStart {w : Writer} (h : w.atLineStart = false) : w.owed = [] := by
  simp [owed, pendingIndent, h]

theorem flushIndent_toList (w : Writer) :
    w.flushIndent.output.toList = w.output.toList ++ w.owed := by
  unfold flushIndent
  split
  · simp [owed]
  · rename_i h
    rw [owed_of_not_atLineStart (by simpa using h), List.append_nil]

theorem write_toList (w : Writer) (s : String) :
    (w.write s).output.toList = w.output.toList ++ w.added s := by
  unfold write added
  split
  · simp
  · rw [← List.append_assoc, ← flushIndent_toList]
    exact String.toList_append

theorem softSpace_toList (w : Writer) :
    w.softSpace.output.toList = w.output.toList ++ w.blank := by
  unfold softSpace blank
  split
  · exact write_toList w " "
  · simp

theorem softLine_toList (w : Writer) :
    w.softLine.output.toList = w.output.toList ++ w.lineBreak := by
  unfold softLine lineBreak
  split
  · exact String.toList_append
  · simp

/-! Everything that a writer adds on its own is layout. -/

theorem filter_owed (w : Writer) : (w.owed.filter fun c => !isLayout c) = [] := by
  rw [List.filter_eq_nil_iff]
  intro c hc
  rw [List.eq_of_mem_replicate hc]
  decide

theorem filter_blank (w : Writer) : (w.blank.filter fun c => !isLayout c) = [] := by
  unfold blank
  split
  · rw [List.filter_append, filter_owed]
    rfl
  · rfl

theorem filter_lineBreak (w : Writer) : (w.lineBreak.filter fun c => !isLayout c) = [] := by
  unfold lineBreak
  split <;> rfl

theorem filter_added (w : Writer) (s : String) :
    ((w.added s).filter fun c => !isLayout c) = s.toList.filter fun c => !isLayout c := by
  unfold added
  split
  · rename_i hs
    rw [String.isEmpty_iff.mp hs]
    rfl
  · rw [List.filter_append, filter_owed, List.nil_append]

end Writer

/-! ### Comments -/

/-- A comment in the text, with the layout in front of it and behind it. -/
structure WrittenComment where
  lead : List Char
  comment : Comment
  gap : List Char

namespace WrittenComment

def text (c : WrittenComment) : List Char := c.lead ++ c.comment.text.toList ++ c.gap

/-- The text without that of the comment. -/
def code (c : WrittenComment) : List Char := c.lead ++ c.gap

end WrittenComment

namespace Writer

/-- What separates a comment from the code behind it. -/
def gap (w : Writer) : CommentKind → List Char
  | .line => w.lineBreak
  | .block => w.blank

/-- A comment as it is written. -/
def written (w : Writer) (c : Comment) : WrittenComment :=
  ⟨if c.text.isEmpty then [] else w.owed, c, (w.write c.text).gap c.kind⟩

/-- Comments as they are written one after the other. -/
def writtenAll : Writer → List Comment → List WrittenComment
  | _, [] => []
  | w, c :: cs => w.written c :: writtenAll (Printer.writeComment w c) cs

theorem writeComment_toList (w : Writer) (c : Comment) :
    (Printer.writeComment w c).output.toList = w.output.toList ++ (w.written c).text := by
  have htext : w.added c.text = (w.written c).lead ++ c.text.toList := by
    unfold added written
    split
    · rename_i hc
      rw [String.isEmpty_iff.mp hc]
      rfl
    · rfl
  have hgap : (Printer.writeComment w c).output.toList =
      (w.write c.text).output.toList ++ (w.written c).gap := by
    unfold Printer.writeComment written
    cases c.kind with
    | line => exact softLine_toList _
    | block => exact softSpace_toList _
  rw [hgap, write_toList, htext, List.append_assoc]
  rfl

theorem foldl_writeComment_toList : ∀ (cs : List Comment) (w : Writer),
    (cs.foldl Printer.writeComment w).output.toList =
      w.output.toList ++ (w.writtenAll cs).flatMap WrittenComment.text
  | [], w => by simp [writtenAll]
  | c :: cs, w => by
    rw [List.foldl_cons, foldl_writeComment_toList cs, writeComment_toList, writtenAll,
      List.flatMap_cons, List.append_assoc]

theorem writtenAll_comments : ∀ (cs : List Comment) (w : Writer),
    (w.writtenAll cs).map WrittenComment.comment = cs
  | [], _ => rfl
  | c :: cs, _ => congrArg (c :: ·) (writtenAll_comments cs _)

theorem filter_written_code (w : Writer) (c : Comment) :
    ((w.written c).code.filter fun c => !isLayout c) = [] := by
  have hlead : ((w.written c).lead.filter fun c => !isLayout c) = [] := by
    unfold written
    dsimp only
    split
    · rfl
    · exact filter_owed w
  have hgap : ((w.written c).gap.filter fun c => !isLayout c) = [] := by
    unfold written gap
    cases c.kind with
    | line => exact filter_lineBreak _
    | block => exact filter_blank _
  rw [WrittenComment.code, List.filter_append, hlead, hgap]
  rfl

theorem filter_writtenAll_code : ∀ (cs : List Comment) (w : Writer),
    (((w.writtenAll cs).flatMap WrittenComment.code).filter fun c => !isLayout c) = []
  | [], _ => rfl
  | c :: cs, w => by
    rw [writtenAll, List.flatMap_cons, List.filter_append, filter_written_code,
      filter_writtenAll_code cs]
    rfl

/-- **A line comment that is not empty is followed by a line break.** -/
theorem written_line_gap {w : Writer} {c : Comment} (hp : w.isPretty = true)
    (hkind : c.kind = .line) (htext : c.text ≠ "") : (w.written c).gap = ['\n'] := by
  have hne : ¬ c.text.isEmpty = true := by simpa using htext
  have hnonempty : ¬ (w.write c.text).isEmpty = true := by
    intro hempty
    have hlist := write_toList w c.text
    rw [String.isEmpty_iff.mp hempty, added, if_neg hne] at hlist
    simp [htext] at hlist
  unfold written gap
  rw [hkind]
  simp [lineBreak, hp, hnonempty]

/-- Line comments that are not empty are followed by line breaks. -/
theorem writtenAll_line_gap : ∀ {cs : List Comment} {w : Writer}, w.isPretty = true →
    ∀ c ∈ w.writtenAll cs, c.comment.kind = .line → c.comment.text ≠ "" → c.gap = ['\n']
  | [], _, _, c, hc, _, _ => nomatch hc
  | first :: cs, w, hp, c, hc, hkind, htext => by
    rcases List.mem_cons.mp hc with rfl | hc
    · exact written_line_gap hp hkind htext
    · exact writtenAll_line_gap ((Printer.writeComment_isPretty w first).trans hp) c hc hkind htext

end Writer

/-! ### Pieces -/

/-- What a step adds to the text. -/
inductive Piece where
  | plain (text : List Char)
  /-- The comments in front of what has this span. -/
  | comments (span : Span) (group : List WrittenComment)

namespace Piece

def text : Piece → List Char
  | .plain text => text
  | .comments _ group => group.flatMap WrittenComment.text

/-- The text without those of comments. -/
def code : Piece → List Char
  | .plain text => text
  | .comments _ group => group.flatMap WrittenComment.code

/-- The position whose comments the piece holds. -/
def position? : Piece → Option Nat
  | .plain _ => none
  | .comments span _ => some span.start.toNat

end Piece

/-- The text that a step stands for. -/
def Step.chars : Step → List Char
  | .text s => s.toList
  | _ => []

namespace Printer

/-- The piece that a step adds. -/
def piece (p : Printer) : Step → Piece
  | .text s => .plain (p.writer.added s)
  | .softSpace => .plain p.writer.blank
  | .softLine => .plain p.writer.lineBreak
  | .compactLine => .plain (if p.writer.isPretty then [] else ['\n'])
  | .comments span =>
    if (p.pendingComments span).isEmpty then .plain []
    else .comments span (p.writer.writtenAll (p.pendingComments span))
  | .mark _ | .enter | .leave | .fail _ => .plain []

/-- The pieces that some steps add, one for each step. -/
def pieces : Printer → List Step → List Piece
  | _, [] => []
  | p, s :: ss => p.piece s :: (p.step s).pieces ss

theorem writeComments_of_isEmpty {p : Printer} {span : Span}
    (h : (p.pendingComments span).isEmpty = true) : p.writeComments span = p := by
  unfold writeComments
  rw [List.isEmpty_iff.mp h]

theorem writeComments_of_not_isEmpty {p : Printer} {span : Span}
    (h : ¬ (p.pendingComments span).isEmpty = true) :
    p.writeComments span =
      { p with
        writer := (p.pendingComments span).foldl writeComment p.writer
        commented := span.start.toNat :: p.commented } := by
  unfold writeComments
  split
  · rename_i hnil
    rw [hnil] at h
    exact absurd rfl h
  · rfl

/-- A step adds its piece to the text. -/
theorem step_output (p : Printer) (s : Step) :
    (p.step s).output.toList = p.output.toList ++ (p.piece s).text := by
  cases s with
  | text s => exact Writer.write_toList _ s
  | softSpace => exact Writer.softSpace_toList _
  | softLine => exact Writer.softLine_toList _
  | compactLine =>
    dsimp only [step, piece]
    split
    · simp [Piece.text]
    · exact String.toList_append
  | comments span =>
    dsimp only [step, piece]
    split
    · rename_i h
      rw [writeComments_of_isEmpty h]
      simp [Piece.text]
    · rename_i h
      rw [writeComments_of_not_isEmpty h]
      exact Writer.foldl_writeComment_toList _ _
  | mark span =>
    have hw := congrArg Writer.output (mark_writer p span)
    simp only [output, step, piece, Piece.text, hw, List.append_nil]
  | enter | leave =>
    dsimp only [step]
    split <;> simp [piece, Piece.text, Doc.deeper, Doc.shallower, output, updateWriter,
      Writer.increaseIndent]
  | fail _ => simp [step, piece, Piece.text]

/-- **The text of some steps is made of their pieces.** -/
theorem perform_output : ∀ (ss : List Step) (p : Printer),
    (p.perform ss).output.toList = p.output.toList ++ (p.pieces ss).flatMap Piece.text
  | [], p => by simp [pieces]
  | s :: ss, p => by
    rw [perform_cons, perform_output ss, step_output, pieces, List.flatMap_cons, List.append_assoc]

/-! ### Code -/

/-- A piece of formatted text has the text of its step, besides layout and comments. -/
theorem piece_code_filter {p : Printer} (h : p.writer.isPretty = true) (s : Step) :
    ((p.piece s).code.filter fun c => !isLayout c) = s.chars.filter fun c => !isLayout c := by
  cases s with
  | text s => exact Writer.filter_added _ s
  | softSpace => exact Writer.filter_blank _
  | softLine => exact Writer.filter_lineBreak _
  | compactLine =>
    dsimp only [piece]
    rw [if_pos h]
    rfl
  | comments span =>
    dsimp only [piece]
    split
    · rfl
    · exact Writer.filter_writtenAll_code _ _
  | mark _ | enter | leave | fail _ => rfl

/-- **The code of formatted text is that of its steps, besides layout.** -/
theorem pieces_code_filter : ∀ (ss : List Step) {p : Printer}, p.writer.isPretty = true →
    (((p.pieces ss).flatMap Piece.code).filter fun c => !isLayout c) =
      (ss.flatMap Step.chars).filter fun c => !isLayout c
  | [], _, _ => rfl
  | s :: ss, p, h => by
    have hstep : (p.step s).writer.isPretty = true := (step_sameSetup p s).isPretty.trans h
    rw [pieces, List.flatMap_cons, List.filter_append, piece_code_filter h,
      pieces_code_filter ss hstep, List.flatMap_cons, List.filter_append]

/-- Without comments all of the text is code. -/
theorem pieces_text_eq_code : ∀ (ss : List Step) {p : Printer}, p.comments = none →
    (p.pieces ss).flatMap Piece.text = (p.pieces ss).flatMap Piece.code
  | [], _, _ => rfl
  | s :: ss, p, h => by
    have hpiece : (p.piece s).text = (p.piece s).code := by
      cases s with
      | comments span =>
        have hnone : p.pendingComments span = [] := by
          unfold pendingComments
          rw [h]
        dsimp only [piece]
        rw [hnone]
        rfl
      | text _ | softSpace | softLine | compactLine | mark _ | enter | leave | fail _ => rfl
    have hstep : (p.step s).comments = none := (step_sameSetup p s).comments.trans h
    rw [pieces, List.flatMap_cons, List.flatMap_cons, hpiece, pieces_text_eq_code ss hstep]

/-! ### Groups of comments -/

/-- Where comments are written, they are those that were pending. -/
theorem pieces_group : ∀ {ss : List Step} {p : Printer} {before after : List Piece} {span : Span}
    {group : List WrittenComment}, p.pieces ss = before ++ .comments span group :: after →
    ∃ pre post, ss = pre ++ .comments span :: post ∧ pre.length = before.length ∧
      (p.perform pre).pendingComments span ≠ [] ∧
      group = (p.perform pre).writer.writtenAll ((p.perform pre).pendingComments span)
  | [], _, before, _, _, _, h => by
    cases before <;> cases h
  | s :: ss, p, [], after, span, group, h => by
    obtain ⟨hpiece, -⟩ := List.cons.inj h
    cases s with
    | comments span' =>
      dsimp only [piece] at hpiece
      split at hpiece
      · cases hpiece
      · rename_i hne
        cases hpiece
        exact ⟨[], ss, rfl, rfl, fun h => hne (List.isEmpty_iff.mpr h), rfl⟩
    | text _ | softSpace | softLine | compactLine | mark _ | enter | leave | fail _ => cases hpiece
  | s :: ss, p, first :: before, after, span, group, h => by
    obtain ⟨-, hrest⟩ := List.cons.inj h
    obtain ⟨pre, post, hss, hlength, hpending, hgroup⟩ := pieces_group hrest
    exact ⟨s :: pre, post, congrArg (s :: ·) hss, congrArg (· + 1) hlength, hpending, hgroup⟩

/-- Comments are pending in formatted text, for a node that no pass made up and a
position whose comments have not been written, and then all of them are. -/
theorem pendingComments_eq {p : Printer} {span : Span} (h : p.pendingComments span ≠ []) :
    p.writer.isPretty = true ∧ span.isSynthesized = false ∧ span.start.toNat ∉ p.commented ∧
      ∀ table, p.comments = some table →
        p.pendingComments span = table.leading span.start.toNat := by
  unfold pendingComments at h ⊢
  cases hc : p.comments with
  | none =>
    rw [hc] at h
    exact absurd rfl h
  | some table =>
    rw [hc] at h
    dsimp only at h ⊢
    by_cases hcondition :
        (p.writer.isPretty && !span.isSynthesized && !p.commented.contains span.start.toNat) = true
    · have hparts := hcondition
      simp only [Bool.and_eq_true, Bool.not_eq_true', List.contains_eq_mem,
        decide_eq_false_iff_not] at hparts
      refine ⟨hparts.1.1, hparts.1.2, hparts.2, fun table' htable => ?_⟩
      rw [if_pos hcondition, Option.some.inj htable]
    · rw [if_neg hcondition] at h
      exact absurd rfl h

theorem position?_fresh {p : Printer} {s : Step} {position : Nat}
    (h : (p.piece s).position? = some position) : position ∉ p.commented := by
  cases s with
  | comments span =>
    dsimp only [piece] at h
    split at h
    · cases h
    · rename_i hne
      cases h
      exact (pendingComments_eq fun hnil => hne (List.isEmpty_iff.mpr hnil)).2.2.1
  | text _ | softSpace | softLine | compactLine | mark _ | enter | leave | fail _ => cases h

theorem step_commented (p : Printer) (s : Step) :
    (p.step s).commented = (p.piece s).position?.toList ++ p.commented := by
  cases s with
  | comments span =>
    dsimp only [step, piece]
    split
    · rename_i h
      rw [writeComments_of_isEmpty h]
      rfl
    · rename_i h
      rw [writeComments_of_not_isEmpty h]
      rfl
  | mark span =>
    dsimp only [step, mark]
    split <;> rfl
  | compactLine | enter | leave =>
    dsimp only [step]
    split <;> rfl
  | text _ | softSpace | softLine | fail _ => rfl

/-- **No position has its comments written twice**, nor one whose comments have been
written already. -/
theorem positions_nodup : ∀ (ss : List Step) (p : Printer),
    ((p.pieces ss).filterMap Piece.position?).Nodup ∧
      ∀ position ∈ (p.pieces ss).filterMap Piece.position?, position ∉ p.commented
  | [], _ => ⟨List.nodup_nil, nofun⟩
  | s :: ss, p => by
    obtain ⟨hnodup, hfresh⟩ := positions_nodup ss (p.step s)
    rw [step_commented] at hfresh
    cases hposition : (p.piece s).position? with
    | none =>
      rw [hposition] at hfresh
      rw [pieces, List.filterMap_cons_none hposition]
      exact ⟨hnodup, hfresh⟩
    | some position =>
      rw [hposition] at hfresh
      rw [pieces, List.filterMap_cons_some hposition]
      have hrest := fun other hother => not_or.mp (List.mem_cons.not.mp (hfresh other hother))
      refine ⟨List.nodup_cons.mpr ⟨fun hmem => (hrest position hmem).1 rfl, hnodup⟩, ?_⟩
      intro other hother
      rcases List.mem_cons.mp hother with rfl | hother
      · exact position?_fresh hposition
      · exact (hrest other hother).2

end Printer

end EcmaPrinter
