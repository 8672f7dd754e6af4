/-
# Positions in the text

A writer counts lines and columns as it writes. They always are those at the end of
the text written so far (`Printer.perform_isExact`), in 32-bit words, so that the
position it announces is the one behind the text and the indentation still owed
(`Writer.IsExact.position_eq`).

A mark takes that position before anything of its node is written. If a text is the
first thing that the steps behind it write, comments apart, the text is written there
(`Printer.perform_startsText`).

Key definitions: `lastLine`, `Position.IsBehind`, `Writer.ahead`, `Writer.IsExact`,
`Step.startsText`, `Printer.marked`.
Key theorems: `Writer.IsExact.position_eq`, `Printer.perform_isExact`,
`Printer.perform_marks`, `Printer.marked_eq_some`, `Printer.perform_startsText`.
-/
import EcmaPrinter.Proofs.Layout.Written
import EcmaPrinter.Proofs.Source.Ranges
import Mathlib.Data.List.DropRight

namespace EcmaPrinter

/-! ### Lines and columns -/

/-- The characters behind the last line feed. -/
def lastLine (cs : List Char) : List Char := cs.rtakeWhile (· != '\n')

theorem units16_append : ∀ cs ds : List Char, units16 (cs ++ ds) = units16 cs + units16 ds
  | [], ds => by simp [units16]
  | c :: cs, ds => by
    rw [List.cons_append, units16, units16_append cs ds, units16]
    omega

/-- The line and column behind some text, in words. -/
def lineColumn (cs : List Char) : UInt32 × UInt32 :=
  (UInt32.ofNat (cs.count '\n'), UInt32.ofNat (units16 (lastLine cs)))

/-- The writer counts characters as they are. -/
theorem advanceChar_lineColumn (cs : List Char) (c : Char) :
    Writer.advanceChar (lineColumn cs) c = lineColumn (cs ++ [c]) := by
  unfold Writer.advanceChar
  split
  · rename_i hc
    have hline : lastLine (cs ++ [c]) = [] := List.rtakeWhile_concat_neg _ _ _ (by simp [hc])
    rw [lineColumn, lineColumn, hline]
    simp [hc, units16, UInt32.ofNat_add]
  · rename_i hc
    have hline : lastLine (cs ++ [c]) = lastLine cs ++ [c] :=
      List.rtakeWhile_concat_pos _ _ _ (by simpa using hc)
    rw [lineColumn, lineColumn, hline, units16_append]
    simp [hc, units16, UInt32.ofNat_add]

theorem foldl_advanceChar_lineColumn : ∀ text cs : List Char,
    text.foldl Writer.advanceChar (lineColumn cs) = lineColumn (cs ++ text)
  | [], cs => by simp
  | c :: text, cs => by
    rw [List.foldl_cons, advanceChar_lineColumn, foldl_advanceChar_lineColumn text]
    simp

theorem lineColumn_blanks (cs : List Char) (n : Nat) :
    lineColumn (cs ++ List.replicate n ' ') =
      ((lineColumn cs).1, (lineColumn cs).2 + UInt32.ofNat n) := by
  induction n with
  | zero => simp
  | succ n ih =>
    rw [List.replicate_succ', ← List.append_assoc, ← advanceChar_lineColumn, ih, UInt32.ofNat_add,
      ← UInt32.add_assoc]
    rfl

/-! ### Positions -/

namespace Position

/-- The position is the one behind some text. -/
structure IsBehind (here : Position) (cs : List Char) : Prop where
  offset : here.offset.toNat = byteLength cs
  line : here.line.toNat = cs.count '\n'
  column : here.column.toNat = units16 (lastLine cs)

/-- The position behind some text, in words. -/
def behind (cs : List Char) : Position :=
  ⟨UInt32.ofNat (byteLength cs), (lineColumn cs).1, (lineColumn cs).2⟩

theorem charUnits16_le (c : Char) : charUnits16 c ≤ c.utf8Size := by
  unfold charUnits16
  split
  · exact c.utf8Size_pos
  · rename_i hc
    have hval : ¬ c.val.toNat < 0x10000 := hc
    unfold Char.utf8Size
    simp only [UInt32.le_iff_toNat_le]
    grind

theorem units16_le : ∀ cs : List Char, units16 cs ≤ byteLength cs
  | [] => le_refl _
  | c :: cs => by
    have := charUnits16_le c
    have := units16_le cs
    rw [units16, byteLength_cons]
    omega

/-- No number of a position is larger than the number of bytes. -/
theorem behind_isBehind {cs : List Char} (h : byteLength cs < 2 ^ 32) : (behind cs).IsBehind cs := by
  have hcount : cs.count '\n' ≤ byteLength cs := List.count_le_length.trans (length_le_byteLength cs)
  have hunits : units16 (lastLine cs) ≤ byteLength cs := by
    obtain ⟨front, hfront⟩ : lastLine cs <:+ cs := List.rtakeWhile_suffix _ _
    calc units16 (lastLine cs) ≤ byteLength (lastLine cs) := units16_le _
      _ ≤ byteLength (front ++ lastLine cs) := by simp
      _ = byteLength cs := by rw [hfront]
  exact ⟨UInt32.toNat_ofNat_of_lt' h, UInt32.toNat_ofNat_of_lt' (hcount.trans_lt h),
    UInt32.toNat_ofNat_of_lt' (hunits.trans_lt h)⟩

end Position

/-! ### The writer -/

namespace Writer

/-- The text in front of what is written next. -/
def ahead (w : Writer) : List Char := w.output.toList ++ w.owed

/-- The line and column of the writer are those at the end of its text. -/
def IsExact (w : Writer) : Prop := (w.line, w.column) = lineColumn w.output.toList

theorem new_isExact (isPretty : Bool) (indentWidth : UInt32) : (new isPretty indentWidth).IsExact := rfl

namespace IsExact

variable {w : Writer}

theorem ahead_lineColumn (h : w.IsExact) :
    lineColumn w.ahead = (w.line, w.column + w.pendingIndent) := by
  rw [ahead, owed, lineColumn_blanks, ← h, UInt32.ofNat_toNat]

/-- **The announced position is that of what is written next.** -/
theorem position_eq (h : w.IsExact) : w.position = .behind w.ahead := by
  have hoffset : UInt32.ofNat (byteLength w.ahead) = UInt32.ofNat w.size + w.pendingIndent := by
    rw [ahead, owed, byteLength_append, byteLength_toList, byteLength_blanks, UInt32.ofNat_add,
      UInt32.ofNat_toNat]
    rfl
  rw [Position.behind, h.ahead_lineColumn, hoffset]
  rfl

theorem flushIndent (h : w.IsExact) : w.flushIndent.IsExact := by
  have hahead := h.ahead_lineColumn
  unfold IsExact
  rw [flushIndent_toList, ← ahead, hahead]
  unfold Writer.flushIndent
  split
  · rfl
  · rename_i hstart
    simp [pendingIndent, hstart]

theorem write (h : w.IsExact) (s : String) : (w.write s).IsExact := by
  unfold Writer.write
  split
  · exact h
  · have hflush := h.flushIndent
    change advance _ _ s = lineColumn (_ ++ s).toList
    rw [String.toList_append, ← foldl_advanceChar_lineColumn, ← hflush]
    rfl

theorem hardLine (h : w.IsExact) : w.hardLine.IsExact := by
  change (w.line + 1, 0) = lineColumn (w.output ++ "\n").toList
  have hadvance := advanceChar_lineColumn w.output.toList '\n'
  rw [← h] at hadvance
  rw [String.toList_append]
  exact hadvance

theorem softSpace (h : w.IsExact) : w.softSpace.IsExact := by
  unfold Writer.softSpace
  split
  · exact h.write " "
  · exact h

theorem softLine (h : w.IsExact) : w.softLine.IsExact := by
  unfold Writer.softLine
  split
  · exact h.hardLine
  · exact h

theorem writeComment (h : w.IsExact) (c : Comment) : (Printer.writeComment w c).IsExact := by
  unfold Printer.writeComment
  cases c.kind with
  | line => exact (h.write c.text).softLine
  | block => exact (h.write c.text).softSpace

theorem foldl_writeComment : ∀ {w : Writer} (cs : List Comment), w.IsExact →
    (cs.foldl Printer.writeComment w).IsExact
  | _, [], h => h
  | _, c :: cs, h => foldl_writeComment cs (h.writeComment c)

end IsExact

end Writer

/-! ### The printer -/

namespace Printer

/-- A step keeps lines and columns exact. -/
theorem step_isExact {p : Printer} (h : p.writer.IsExact) (s : Step) :
    (p.step s).writer.IsExact := by
  cases s with
  | text s => exact h.write s
  | softSpace => exact h.softSpace
  | softLine => exact h.softLine
  | compactLine =>
    dsimp only [step]
    split
    · exact h
    · exact h.hardLine
  | mark span =>
    rw [step, mark_writer]
    exact h
  | comments span =>
    dsimp only [step]
    by_cases hempty : (p.pendingComments span).isEmpty = true
    · rw [writeComments_of_isEmpty hempty]
      exact h
    · rw [writeComments_of_not_isEmpty hempty]
      exact h.foldl_writeComment _
  | enter | leave =>
    dsimp only [step]
    split <;> exact h
  | fail _ => exact h

/-- **Lines and columns stay exact.** -/
theorem perform_isExact : ∀ (ss : List Step) {p : Printer}, p.writer.IsExact →
    (p.perform ss).writer.IsExact
  | [], _, h => h
  | s :: ss, _, h => perform_isExact ss (step_isExact h s)

end Printer

/-! ### Marks -/

namespace Step

/-- The step records a mark. -/
def isMark : Step → Bool
  | .mark _ => true
  | _ => false

/-- A text is the first thing that some steps write, comments apart, or they fail
before that. -/
def startsText : List Step → Bool
  | [] => false
  | .text s :: ss => !s.isEmpty || startsText ss
  | .mark _ :: ss | .comments _ :: ss => startsText ss
  | .fail _ :: _ => true
  | .softSpace :: _ | .softLine :: _ | .compactLine :: _ | .enter :: _ | .leave :: _ => false

variable {ss ts : List Step}

@[simp] theorem startsText_mark {span : Span} : startsText (.mark span :: ss) = startsText ss := rfl

@[simp] theorem startsText_comments {span : Span} :
    startsText (.comments span :: ss) = startsText ss := rfl

@[simp] theorem startsText_text {s : String} :
    startsText (.text s :: ss) = (!s.isEmpty || startsText ss) := rfl

@[simp] theorem startsText_fail {e : EmitError} : startsText (.fail e :: ss) = true := rfl

@[simp] theorem startsText_append (h : startsText ss = true) : startsText (ss ++ ts) = true := by
  induction ss with
  | nil => cases h
  | cons s ss ih =>
    cases s with
    | text s =>
      rw [startsText_text, Bool.or_eq_true] at h
      rw [List.cons_append, startsText_text, Bool.or_eq_true]
      exact h.imp_right ih
    | mark _ | comments _ => exact ih h
    | fail _ => rfl
    | softSpace | softLine | compactLine | enter | leave => cases h

end Step

namespace Printer

/-- The mark that a step records. -/
def newMarks (p : Printer) : Step → List Mark
  | .mark span => [⟨span, p.writer.position⟩]
  | _ => []

/-- The marks that some steps record. -/
def marked : Printer → List Step → List Mark
  | _, [] => []
  | p, s :: ss => p.newMarks s ++ (p.step s).marked ss

theorem step_marks {p : Printer} (h : p.options.recordsPositions = true) (s : Step) :
    (p.step s).marks.toList = p.marks.toList ++ p.newMarks s := by
  cases s with
  | mark span =>
    rw [step, mark, if_pos h]
    exact Array.toList_push
  | comments span =>
    dsimp only [newMarks, step]
    rw [List.append_nil]
    by_cases hempty : (p.pendingComments span).isEmpty = true
    · rw [writeComments_of_isEmpty hempty]
    · rw [writeComments_of_not_isEmpty hempty]
  | compactLine | enter | leave =>
    dsimp only [newMarks, step]
    rw [List.append_nil]
    split <;> rfl
  | text _ | softSpace | softLine | fail _ => exact (List.append_nil _).symm

theorem perform_marks : ∀ (ss : List Step) {p : Printer}, p.options.recordsPositions = true →
    (p.perform ss).marks.toList = p.marks.toList ++ p.marked ss
  | [], p, _ => by simp [marked]
  | s :: ss, p, h => by
    have hstep : (p.step s).options.recordsPositions = true := by
      rw [(step_sameSetup p s).options, h]
    rw [perform_cons, perform_marks ss hstep, step_marks h, marked, List.append_assoc]

/-- **Each mark has the position at which its step was performed.** -/
theorem marked_eq_some : ∀ {ss : List Step} {p : Printer} {i : Nat} {m : Mark},
    (p.marked ss)[i]? = some m →
    ∃ pre post, ss = pre ++ .mark m.span :: post ∧ pre.countP Step.isMark = i ∧
      m.generated = (p.perform pre).writer.position
  | [], _, _, _, h => by cases h
  | s :: ss, p, i, m, h => by
    rw [marked] at h
    cases hs : s.isMark with
    | false =>
      have hnew : p.newMarks s = [] := by
        cases s with
        | mark _ => cases hs
        | _ => rfl
      rw [hnew, List.nil_append] at h
      obtain ⟨pre, post, rfl, hcount, hm⟩ := marked_eq_some h
      exact ⟨s :: pre, post, rfl, by rw [List.countP_cons_of_neg (by simp [hs]), hcount], hm⟩
    | true =>
      obtain ⟨span, rfl⟩ : ∃ span, s = .mark span := by
        cases s with
        | mark span => exact ⟨span, rfl⟩
        | _ => cases hs
      cases i with
      | zero =>
        cases h
        exact ⟨[], ss, rfl, rfl, rfl⟩
      | succ i =>
        obtain ⟨pre, post, rfl, hcount, hm⟩ := marked_eq_some (i := i) h
        exact ⟨.mark span :: pre, post, rfl, by rw [List.countP_cons_of_pos rfl, hcount], hm⟩

end Printer

/-- The first of some comments that are not empty is written behind what is owed. -/
theorem Writer.writtenAll_text (w : Writer) {cs : List Comment} (htexts : ∀ c ∈ cs, c.text ≠ "")
    (h : ¬ cs.isEmpty = true) :
    ∃ own, own ≠ [] ∧ (w.writtenAll cs).flatMap WrittenComment.text = w.owed ++ own := by
  cases cs with
  | nil => exact absurd rfl h
  | cons c cs =>
    have hc : c.text ≠ "" := htexts c (List.mem_cons_self ..)
    have hlead : (w.written c).lead = w.owed := if_neg (by simpa using hc)
    rw [writtenAll, List.flatMap_cons, WrittenComment.text, hlead, List.append_assoc,
      List.append_assoc]
    exact ⟨_, by simp [written, hc], rfl⟩

namespace Printer

/-- No comment of the printer is empty. -/
def HasInkedComments (p : Printer) : Prop := ∀ table, p.comments = some table → table.IsInked

theorem HasInkedComments.step {p : Printer} (h : p.HasInkedComments) (s : Step) :
    (p.step s).HasInkedComments := by
  unfold HasInkedComments
  rw [(step_sameSetup p s).comments]
  exact h

theorem HasInkedComments.pending {p : Printer} (h : p.HasInkedComments) (span : Span) :
    ∀ c ∈ p.pendingComments span, c.text ≠ "" := by
  unfold pendingComments
  split
  · nofun
  · rename_i table htable
    split
    · exact (h table htable).leading _
    · nofun

/-- **Steps that write a text first write it behind what is ahead of it.** Until then
the writer stays as it is. -/
theorem perform_startsText : ∀ (ss : List Step) {rest : List Step} {p : Printer},
    p.HasInkedComments → Step.startsText (ss ++ rest) = true → Step.failure? (ss ++ rest) = none →
    ((p.perform ss).writer = p.writer ∧ Step.startsText rest = true) ∨
      ∃ own, own ≠ [] ∧ (p.perform ss).output.toList = p.writer.ahead ++ own
  | [], _, _, _, hstarts, _ => .inl ⟨rfl, hstarts⟩
  | s :: ss, rest, p, hinked, hstarts, hfail => by
    -- a step that leaves the writer alone
    have hsilent (hwriter : (p.step s).writer = p.writer)
        (hstarts : Step.startsText (ss ++ rest) = true)
        (hfail : Step.failure? (ss ++ rest) = none) := by
      have ih := perform_startsText ss (hinked.step s) hstarts hfail
      rw [hwriter] at ih
      exact ih
    -- a step that writes something behind what is owed
    have hwrites (own : List Char) (hne : own ≠ [])
        (houtput : (p.piece s).text = p.writer.owed ++ own) :
        ∃ own, own ≠ [] ∧ (p.perform (s :: ss)).output.toList = p.writer.ahead ++ own := by
      refine ⟨own ++ ((p.step s).pieces ss).flatMap Piece.text, by simp [hne], ?_⟩
      rw [perform_cons, perform_output, step_output, houtput, Writer.ahead]
      simp [output]
    cases s with
    | text s =>
      by_cases hs : s.isEmpty = true
      · rw [List.cons_append, Step.startsText_text, hs] at hstarts
        refine hsilent ?_ hstarts hfail
        rw [step, updateWriter, Writer.write, if_pos hs]
      · refine .inr (hwrites s.toList ?_ ?_)
        · simpa using hs
        · rw [piece, Piece.text, Writer.added, if_neg hs]
    | mark span => exact hsilent (mark_writer p span) hstarts hfail
    | comments span =>
      by_cases hempty : (p.pendingComments span).isEmpty = true
      · refine hsilent ?_ hstarts hfail
        rw [step, writeComments_of_isEmpty hempty]
      · obtain ⟨own, hne, hown⟩ := Writer.writtenAll_text p.writer (hinked.pending span) hempty
        refine .inr (hwrites own hne ?_)
        rw [piece, if_neg hempty]
        exact hown
    | fail e => cases hfail
    | softSpace | softLine | compactLine | enter | leave => cases hstarts

end Printer

end EcmaPrinter
