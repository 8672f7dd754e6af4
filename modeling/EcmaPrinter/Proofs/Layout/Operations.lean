/-
# A writer announces where it writes

A writer is given texts, blanks, line breaks and changes of depth in any order, and a
decrease at depth zero fails and changes nothing. It does not look at its output again:
line and column are counted as it goes, and the indentation of a line is owed until
something is written on it, by the depth at that time.

After any operations the position that the writer announces is that of the end of its
text with the blanks it owes, and there the next text begins
(`position_tracks_output`). Positions are words of 32 bits, so the text and what is owed
have to be shorter than that.

Key definitions: `WriterOp`, `Writer.applyAll`, `Writer.owedWidth`.
Key theorems: `Writer.applyAll_isExact`, `Writer.applyAll_indent`,
`Writer.IsExact.isBehind`, `position_tracks_output`.
-/
import EcmaPrinter.Proofs.Layout.Positions

namespace EcmaPrinter

/-- What a writer can be told to do. -/
inductive WriterOp where
  | write (text : String)
  | space
  | softSpace
  | softLine
  | hardLine
  | increaseIndent
  | decreaseIndent
deriving DecidableEq

/-- The depth behind an operation. -/
def WriterOp.depthBehind (depth : Nat) : WriterOp → Nat
  | .increaseIndent => depth + 1
  | .decreaseIndent => depth - 1
  | _ => depth

namespace Writer

/-- The writer after an operation, and the error if that failed. -/
def apply (w : Writer) : WriterOp → Writer × Option EmitError
  | .write text => (w.write text, none)
  | .space => (w.space, none)
  | .softSpace => (w.softSpace, none)
  | .softLine => (w.softLine, none)
  | .hardLine => (w.hardLine, none)
  | .increaseIndent => (w.increaseIndent, none)
  | .decreaseIndent =>
    match w.decreaseIndent with
    | .ok w' => (w', none)
    | .error e => (w, some e)

/-- The writer after some operations, those that fail included. -/
def applyAll (w : Writer) (ops : List WriterOp) : Writer :=
  ops.foldl (fun w op => (w.apply op).1) w

/-- How many blanks the writer owes to its line, if that is not too many for a word. -/
def owedWidth (w : Writer) : Nat :=
  if w.isPretty && w.atLineStart then w.indent * w.indentWidth.toNat else 0

/-! ### One operation -/

/-- Only a decrease at depth zero fails, and it changes nothing. -/
theorem apply_error (w : Writer) (op : WriterOp) {e : EmitError} (h : (w.apply op).2 = some e) :
    op = .decreaseIndent ∧ w.indent = 0 ∧ w.apply op = (w, some .indentUnderflow) := by
  cases op with
  | decreaseIndent =>
    by_cases hzero : w.indent = 0
    · exact ⟨rfl, hzero, by simp [apply, decreaseIndent, hzero]⟩
    · simp [apply, decreaseIndent, hzero] at h
  | _ => cases h

theorem apply_indent (w : Writer) (op : WriterOp) :
    (w.apply op).1.indent = op.depthBehind w.indent := by
  cases op with
  | write text => exact w.write_indent text
  | space => exact w.write_indent " "
  | softSpace => exact w.softSpace_indent
  | softLine => exact w.softLine_indent
  | hardLine | increaseIndent => rfl
  | decreaseIndent =>
    by_cases hzero : w.indent = 0
    · simp [apply, decreaseIndent, hzero, WriterOp.depthBehind]
    · simp [apply, decreaseIndent, hzero, WriterOp.depthBehind]

theorem apply_isExact {w : Writer} (h : w.IsExact) (op : WriterOp) : (w.apply op).1.IsExact := by
  cases op with
  | write text => exact h.write text
  | space => exact h.write " "
  | softSpace => exact h.softSpace
  | softLine => exact h.softLine
  | hardLine => exact h.hardLine
  | increaseIndent => exact h
  | decreaseIndent =>
    -- what differs, if anything does, is the depth, which line and column do not tell of
    by_cases hzero : w.indent = 0
    · have hsame : (w.apply .decreaseIndent).1 = w := by simp [apply, decreaseIndent, hzero]
      rw [hsame]
      exact h
    · have hless : (w.apply .decreaseIndent).1 = { w with indent := w.indent - 1 } := by
        simp [apply, decreaseIndent, hzero]
      rw [hless]
      exact h

/-! ### All of them -/

theorem applyAll_indent : ∀ (ops : List WriterOp) (w : Writer),
    (w.applyAll ops).indent = ops.foldl WriterOp.depthBehind w.indent
  | [], _ => rfl
  | op :: ops, w => by
    have ih := applyAll_indent ops (w.apply op).1
    rw [apply_indent] at ih
    exact ih

/-- **Lines and columns stay exact** whatever the writer is told. -/
theorem applyAll_isExact : ∀ (ops : List WriterOp) {w : Writer}, w.IsExact →
    (w.applyAll ops).IsExact
  | [], _, h => h
  | op :: ops, _, h => applyAll_isExact ops (apply_isExact h op)

/-! ### Announced positions -/

/-- Indentation that fits into a word is not cut. -/
theorem toNat_pendingIndent {w : Writer} (h : w.owedWidth < 2 ^ 32) :
    w.pendingIndent.toNat = w.owedWidth := by
  unfold pendingIndent owedWidth at *
  split at h
  · rename_i howed
    rw [if_pos howed, if_pos howed, UInt32.toNat_mul, UInt32.toNat_ofNat', Nat.mod_mul_mod,
      Nat.mod_eq_of_lt h]
  · rename_i howed
    rw [if_neg howed, if_neg howed]
    rfl

theorem owed_eq {w : Writer} (h : w.owedWidth < 2 ^ 32) :
    w.owed = List.replicate w.owedWidth ' ' := by
  rw [owed, toNat_pendingIndent h]

theorem byteLength_ahead {w : Writer} (h : w.owedWidth < 2 ^ 32) :
    byteLength w.ahead = w.size + w.owedWidth := by
  rw [ahead, owed_eq h, byteLength_append, byteLength_toList, byteLength_blanks]
  rfl

/-- Blanks lengthen the last line. -/
theorem lastLine_blanks (cs : List Char) : ∀ n : Nat,
    lastLine (cs ++ List.replicate n ' ') = lastLine cs ++ List.replicate n ' '
  | 0 => by simp
  | n + 1 => by
    rw [List.replicate_succ', ← List.append_assoc, ← List.append_assoc, ← lastLine_blanks cs n]
    exact List.rtakeWhile_concat_pos _ _ _ (by decide)

theorem units16_blanks (n : Nat) : units16 (List.replicate n ' ') = n := by
  induction n with
  | zero => rfl
  | succ n ih =>
    rw [List.replicate_succ, units16, ih]
    exact Nat.add_comm 1 n

/-- **An exact writer announces the place behind its text and what it owes.** -/
theorem IsExact.isBehind {w : Writer} (h : w.IsExact) (hfits : w.size + w.owedWidth < 2 ^ 32) :
    w.position.IsBehind w.ahead := by
  rw [h.position_eq]
  apply Position.behind_isBehind
  rw [byteLength_ahead (by omega)]
  exact hfits

end Writer

open Writer

/-- **A writer announces where it writes.** After any operations on a new writer, in either
mode and at any width of indentation, its depth is that of the increases and decreases
without those that fail, which change nothing, and the announced position is that of the end
of its text and of the blanks it owes. The next text that is not empty begins there. -/
theorem position_tracks_output (isPretty : Bool) (width : UInt32) (ops : List WriterOp)
    {w : Writer} (hw : w = (new isPretty width).applyAll ops)
    (hfits : w.output.utf8ByteSize + w.owedWidth < 2 ^ 32) :
    w.indent = ops.foldl WriterOp.depthBehind 0 ∧
    (∀ op e, (w.apply op).2 = some e → w.apply op = (w, some .indentUnderflow)) ∧
    w.position.offset.toNat = w.output.utf8ByteSize + w.owedWidth ∧
    w.position.line.toNat = w.output.toList.count '\n' ∧
    w.position.column.toNat = units16 (lastLine w.output.toList) + w.owedWidth ∧
    ∀ text : String, text ≠ "" → ∃ front,
      (w.write text).output.toList = front ++ text.toList ∧ w.position.IsBehind front := by
  have hexact : w.IsExact := by
    rw [hw]
    exact applyAll_isExact ops (new_isExact isPretty width)
  have howed : w.owedWidth < 2 ^ 32 := by omega
  have hbehind := hexact.isBehind hfits
  have hahead : w.ahead = w.output.toList ++ List.replicate w.owedWidth ' ' := by
    rw [ahead, owed_eq howed]
  refine ⟨?_, fun op e herror => (w.apply_error op herror).2.2, ?_, ?_, ?_,
    fun text htext => ⟨w.ahead, ?_, hbehind⟩⟩
  · rw [hw]
    exact applyAll_indent ops (new isPretty width)
  · rw [hbehind.offset, byteLength_ahead howed]
    rfl
  · have hblanks : (List.replicate w.owedWidth ' ').count '\n' = 0 :=
      List.count_eq_zero_of_not_mem fun hmem =>
        absurd (List.eq_of_mem_replicate hmem) (by decide)
    rw [hbehind.line, hahead, List.count_append, hblanks, Nat.add_zero]
  · rw [hbehind.column, hahead, lastLine_blanks, units16_append, units16_blanks]
  · have hwritten : w.added text = w.owed ++ text.toList := if_neg (by simpa using htext)
    rw [write_toList, hwritten, ahead, List.append_assoc]

/-- Two levels deeper behind a line that is not ASCII, and one back before anything is
written there. -/
def indentedOps : List WriterOp :=
  [.decreaseIndent, .write "a😀\nb", .increaseIndent, .increaseIndent, .softLine, .decreaseIndent]

theorem indentedOps_position :
    ((new true 4).applyAll indentedOps).position = ⟨12, 2, 4⟩ ∧
      ∃ front, (((new true 4).applyAll indentedOps).write "c").output.toList =
          front ++ "c".toList ∧ (⟨12, 2, 4⟩ : Position).IsBehind front := by
  obtain ⟨-, -, -, -, -, hnext⟩ := position_tracks_output true 4 indentedOps rfl (by decide)
  have hposition : ((new true 4).applyAll indentedOps).position = ⟨12, 2, 4⟩ := by decide
  rw [hposition] at hnext
  exact ⟨hposition, hnext "c" (by decide)⟩

end EcmaPrinter
