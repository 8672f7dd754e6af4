/-
# What a run of a document does

A document decides by itself whether and how it fails and which spans it marks,
whatever the printer it runs on (`Doc.failure?`, `Doc.spans`). A run follows that
decision (`run_failure`, `run_spans`), keeps the set-up of the printer
(`run_sameSetup`) and, if it does not fail, the depth of indentation
(`run_indent`), so that the indentation never goes below zero.

What is written depends on the mode. Compact text is `Doc.chars false`, for every
document (`run_compact`). A document that stays on one line at no depth has its
text in either mode, `Doc.inline` (`run_flat`).

Key definitions: `Doc.failure?`, `Doc.spans`, `Doc.chars`, `Doc.IsFlat`,
`Doc.inline`.
Key theorems: `Doc.run_failure`, `Doc.run_indent`, `Doc.run_spans`,
`Doc.run_compact`, `Doc.run_flat`.
-/
import EcmaPrinter.Print

namespace EcmaPrinter

namespace Doc

/-- The error that a document fails with, if it fails. -/
def failure? : Doc → Option EmitError
  | .fail e => some e
  | .nest body => body.failure?
  | .append first second => first.failure?.or second.failure?
  | _ => none

@[simp] theorem failure?_append (a b : Doc) : (a ++ b).failure? = a.failure?.or b.failure? := rfl

@[simp] theorem failure?_text (s : String) : (Doc.text s).failure? = none := rfl

/-- The spans that a document marks in front of its failure. -/
def spans : Doc → List Span
  | .mark span => [span]
  | .nest body => body.spans
  | .append first second =>
    first.spans ++ if first.failure?.isSome then [] else second.spans
  | _ => []

/-- The text of a document in front of its failure, indentation left out. -/
def chars (isPretty : Bool) : Doc → List Char
  | .text s => s.toList
  | .softSpace => if isPretty then [' '] else []
  | .softLine => if isPretty then ['\n'] else []
  | .compactLine => if isPretty then [] else ['\n']
  | .nest body => body.chars isPretty
  | .append first second =>
    first.chars isPretty ++ if first.failure?.isSome then [] else second.chars isPretty
  | _ => []

end Doc

/-! ### The writer -/

namespace Writer

theorem flushIndent_output (w : Writer) :
    ∃ n, w.flushIndent.output.toList = w.output.toList ++ List.replicate n ' ' := by
  unfold flushIndent
  split
  · exact ⟨w.pendingIndent.toNat, by simp⟩
  · exact ⟨0, by simp⟩

/-- Where no indentation is owed, a text is written as it is. -/
theorem write_output (w : Writer) (s : String) (h : w.pendingIndent = 0) :
    (w.write s).output.toList = w.output.toList ++ s.toList := by
  unfold write
  split
  · rename_i hs
    have : s = "" := by simpa using hs
    simp [this]
  · unfold flushIndent
    split <;> simp [h]

@[simp] theorem write_isPretty (w : Writer) (s : String) : (w.write s).isPretty = w.isPretty := by
  unfold write flushIndent
  split
  · rfl
  · split <;> rfl

@[simp] theorem write_indent (w : Writer) (s : String) : (w.write s).indent = w.indent := by
  unfold write flushIndent
  split
  · rfl
  · split <;> rfl

@[simp] theorem write_indentWidth (w : Writer) (s : String) :
    (w.write s).indentWidth = w.indentWidth := by
  unfold write flushIndent
  split
  · rfl
  · split <;> rfl

theorem pendingIndent_eq_zero {w : Writer} (h : w.isPretty = false ∨ w.indent = 0) :
    w.pendingIndent = 0 := by
  unfold pendingIndent
  rcases h with h | h
  · simp [h]
  · split <;> simp [h]

@[simp] theorem softSpace_isPretty (w : Writer) : w.softSpace.isPretty = w.isPretty := by
  unfold softSpace
  split <;> simp [space]

@[simp] theorem softSpace_indent (w : Writer) : w.softSpace.indent = w.indent := by
  unfold softSpace
  split <;> simp [space]

@[simp] theorem softLine_isPretty (w : Writer) : w.softLine.isPretty = w.isPretty := by
  unfold softLine
  split <;> rfl

@[simp] theorem softLine_indent (w : Writer) : w.softLine.indent = w.indent := by
  unfold softLine
  split <;> rfl

end Writer

/-! ### Comments -/

namespace Printer

theorem writeComment_isPretty (w : Writer) (c : Comment) :
    (writeComment w c).isPretty = w.isPretty := by
  unfold writeComment
  cases c.kind <;> simp

theorem writeComment_indent (w : Writer) (c : Comment) :
    (writeComment w c).indent = w.indent := by
  unfold writeComment
  cases c.kind <;> simp

theorem foldl_writeComment_frame : ∀ (cs : List Comment) (w : Writer),
    (cs.foldl writeComment w).isPretty = w.isPretty ∧ (cs.foldl writeComment w).indent = w.indent
  | [], _ => ⟨rfl, rfl⟩
  | c :: cs, w => by
    have h := foldl_writeComment_frame cs (writeComment w c)
    rw [writeComment_isPretty, writeComment_indent] at h
    exact h

/-- The parts of a printer that a run only reads. -/
structure SameSetup (p q : Printer) : Prop where
  isPretty : q.writer.isPretty = p.writer.isPretty
  options : q.options = p.options
  comments : q.comments = p.comments

theorem SameSetup.refl (p : Printer) : SameSetup p p := ⟨rfl, rfl, rfl⟩

theorem SameSetup.trans {p q r : Printer} (h : SameSetup p q) (h' : SameSetup q r) :
    SameSetup p r :=
  ⟨h'.isPretty.trans h.isPretty, h'.options.trans h.options, h'.comments.trans h.comments⟩

theorem mark_writer (p : Printer) (span : Span) : (p.mark span).writer = p.writer := by
  unfold mark
  split <;> rfl

theorem mark_sameSetup (p : Printer) (span : Span) : SameSetup p (p.mark span) := by
  unfold mark
  split <;> exact ⟨rfl, rfl, rfl⟩

theorem writeComments_sameSetup (p : Printer) (span : Span) :
    SameSetup p (p.writeComments span) := by
  unfold writeComments
  split
  · exact .refl p
  · exact ⟨(foldl_writeComment_frame _ _).1, rfl, rfl⟩

theorem writeComments_indent (p : Printer) (span : Span) :
    (p.writeComments span).writer.indent = p.writer.indent := by
  unfold writeComments
  split
  · rfl
  · exact (foldl_writeComment_frame _ _).2

theorem writeComments_marks (p : Printer) (span : Span) :
    (p.writeComments span).marks = p.marks := by
  unfold writeComments
  split <;> rfl

/-- Without a table, or in compact text, there is nothing to write. -/
theorem writeComments_eq {p : Printer} (h : p.comments = none ∨ p.writer.isPretty = false)
    (span : Span) : p.writeComments span = p := by
  have hp : p.pendingComments span = [] := by
    unfold pendingComments
    rcases h with h | h
    · rw [h]
    · split
      · rfl
      · simp [h]
  unfold writeComments
  rw [hp]

end Printer

/-! ### Runs -/

namespace Doc

open Printer

theorem run_append (a b : Doc) (p : Printer) :
    (a ++ b).run p =
      match a.run p with
      | (q, some e) => (q, some e)
      | (q, none) => b.run q := rfl

theorem run_append_of_failure {a : Doc} {p : Printer} {e : EmitError} (b : Doc)
    (h : (a.run p).2 = some e) : (a ++ b).run p = a.run p := by
  rw [run_append]
  generalize a.run p = r at h
  obtain ⟨q, o⟩ := r
  simp only at h
  subst h
  rfl

theorem run_append_of_none {a : Doc} {p : Printer} (b : Doc) (h : (a.run p).2 = none) :
    (a ++ b).run p = b.run (a.run p).1 := by
  rw [run_append]
  generalize a.run p = r at h
  obtain ⟨q, o⟩ := r
  simp only at h
  subst h
  rfl

/-- **A run keeps the set-up of the printer.** -/
theorem run_sameSetup : ∀ (d : Doc) (p : Printer), SameSetup p (d.run p).1
  | .empty, p | .fail _, p => .refl p
  | .text _, p => ⟨by simp [run, updateWriter], rfl, rfl⟩
  | .softSpace, p => ⟨by simp [run, updateWriter], rfl, rfl⟩
  | .softLine, p => ⟨by simp [run, updateWriter], rfl, rfl⟩
  | .compactLine, p => by
    unfold run
    split
    · exact .refl p
    · exact ⟨rfl, rfl, rfl⟩
  | .mark span, p => mark_sameSetup p span
  | .comments span, p => writeComments_sameSetup p span
  | .nest body, p => by
    unfold run
    split
    · have h : SameSetup p (p.updateWriter Writer.increaseIndent) := ⟨rfl, rfl, rfl⟩
      have hb := h.trans (run_sameSetup body (p.updateWriter Writer.increaseIndent))
      split
      · rename_i q e hq
        rwa [hq] at hb
      · rename_i q hq
        rw [hq] at hb
        unfold Writer.decreaseIndent
        split
        · rename_i w hw
          split at hw
          · cases hw
          · cases hw
            exact ⟨hb.isPretty, hb.options, hb.comments⟩
        · exact hb
    · exact run_sameSetup body p
  | .append a b, p => by
    have ha := run_sameSetup a p
    cases h : (a.run p).2 with
    | some e =>
      have := run_append_of_failure b h
      rw [show Doc.append a b = a ++ b from rfl, this]
      exact ha
    | none =>
      rw [show Doc.append a b = a ++ b from rfl, run_append_of_none b h]
      exact ha.trans (run_sameSetup b _)

/-- A printer one level deeper. -/
def deeper (p : Printer) : Printer := p.updateWriter Writer.increaseIndent

/-- A printer one level less deep. -/
def shallower (p : Printer) : Printer :=
  p.updateWriter fun w => { w with indent := w.indent - 1 }

theorem run_nest_compact {p : Printer} (h : p.writer.isPretty = false) (body : Doc) :
    (nest body).run p = body.run p := by
  rw [run]
  simp [h]

theorem run_nest_failed {p : Printer} {body : Doc} {e : EmitError}
    (h : p.writer.isPretty = true) (hb : (body.run (deeper p)).2 = some e) :
    (nest body).run p = body.run (deeper p) := by
  rw [run]
  simp only [h, ↓reduceIte]
  change (match body.run (deeper p) with | (q, some e) => _ | (q, none) => _) = _
  generalize body.run (deeper p) = r at hb
  obtain ⟨q, o⟩ := r
  simp only at hb
  subst hb
  rfl

theorem run_nest_done {p : Printer} {body : Doc} (h : p.writer.isPretty = true)
    (hb : (body.run (deeper p)).2 = none) (hi : 0 < (body.run (deeper p)).1.writer.indent) :
    (nest body).run p = (shallower (body.run (deeper p)).1, none) := by
  rw [run]
  simp only [h, ↓reduceIte]
  change (match body.run (deeper p) with | (q, some e) => _ | (q, none) => _) = _
  generalize body.run (deeper p) = r at hb hi
  obtain ⟨q, o⟩ := r
  simp only at hb hi
  subst hb
  have hne : q.writer.indent ≠ 0 := by omega
  simp [Writer.decreaseIndent, hne, shallower, updateWriter]

/-- A run fails as the document says, and keeps the depth if it does not fail: a
level that was entered is there to be left. -/
theorem run_failure_indent : ∀ (d : Doc) (p : Printer), (d.run p).2 = d.failure? ∧
    (d.failure? = none → (d.run p).1.writer.indent = p.writer.indent)
  | .empty, _ => ⟨rfl, fun _ => rfl⟩
  | .fail _, _ => ⟨rfl, fun h => by cases h⟩
  | .text _, _ => ⟨rfl, fun _ => by simp [run, updateWriter]⟩
  | .softSpace, _ => ⟨rfl, fun _ => by simp [run, updateWriter]⟩
  | .softLine, _ => ⟨rfl, fun _ => by simp [run, updateWriter]⟩
  | .compactLine, p => ⟨rfl, fun _ => by
      unfold run
      split <;> rfl⟩
  | .mark span, p => ⟨rfl, fun _ => congrArg Writer.indent (mark_writer p span)⟩
  | .comments span, p => ⟨rfl, fun _ => writeComments_indent p span⟩
  | .nest body, p => by
    cases hp : p.writer.isPretty with
    | false =>
      rw [run_nest_compact hp]
      exact run_failure_indent body p
    | true =>
      obtain ⟨hf, hi⟩ := run_failure_indent body (deeper p)
      change _ = body.failure? ∧ (body.failure? = none → _)
      cases hb : body.failure? with
      | some e =>
        rw [run_nest_failed hp (hf.trans hb)]
        exact ⟨hf.trans hb, fun h => by cases h⟩
      | none =>
        have hd : (body.run (deeper p)).1.writer.indent = p.writer.indent + 1 := hi hb
        rw [run_nest_done hp (hf.trans hb) (by omega)]
        refine ⟨rfl, fun _ => ?_⟩
        change (body.run (deeper p)).1.writer.indent - 1 = _
        omega
  | .append a b, p => by
    obtain ⟨hfa, hia⟩ := run_failure_indent a p
    rw [show Doc.append a b = a ++ b from rfl, failure?_append]
    cases ha : a.failure? with
    | some e =>
      rw [run_append_of_failure b (hfa.trans ha)]
      exact ⟨hfa.trans ha, fun h => by cases h⟩
    | none =>
      rw [run_append_of_none b (hfa.trans ha)]
      obtain ⟨hfb, hib⟩ := run_failure_indent b (a.run p).1
      exact ⟨hfb, fun h => (hib h).trans (hia ha)⟩

/-- **A run fails exactly as the document says.** -/
theorem run_failure (d : Doc) (p : Printer) : (d.run p).2 = d.failure? := (run_failure_indent d p).1

/-- **A run that does not fail keeps the depth of indentation.** -/
theorem run_indent {d : Doc} (h : d.failure? = none) (p : Printer) :
    (d.run p).1.writer.indent = p.writer.indent := (run_failure_indent d p).2 h

theorem run_append_failed {a : Doc} {e : EmitError} (b : Doc) (h : a.failure? = some e)
    (p : Printer) : (a ++ b).run p = a.run p :=
  run_append_of_failure b ((run_failure a p).trans h)

theorem run_append_done {a : Doc} (b : Doc) (h : a.failure? = none) (p : Printer) :
    (a ++ b).run p = b.run (a.run p).1 :=
  run_append_of_none b ((run_failure a p).trans h)

/-- A part one level deeper runs in the writer of that level; whether the level is
left again is seen in the depth only. -/
theorem run_nest (body : Doc) {p : Printer} (h : p.writer.isPretty = true) :
    ((nest body).run p).1 = (body.run (deeper p)).1 ∨
      ((nest body).run p).1 = shallower (body.run (deeper p)).1 := by
  cases hb : body.failure? with
  | some e =>
    left
    rw [run_nest_failed h ((run_failure body _).trans hb)]
  | none =>
    right
    have hi : (body.run (deeper p)).1.writer.indent = p.writer.indent + 1 :=
      run_indent hb (deeper p)
    rw [run_nest_done h ((run_failure body _).trans hb) (by omega)]

/-! ### Marks -/

/-- The spans that a printer marks for a document: none if it does not record
positions. -/
def marked (p : Printer) (d : Doc) : List Span :=
  if p.options.recordsPositions then d.spans else []

theorem marked_of_options {p q : Printer} (h : q.options = p.options) (d : Doc) :
    marked q d = marked p d := by
  unfold marked
  rw [h]

theorem marked_append_failed {a : Doc} {e : EmitError} (b : Doc) (h : a.failure? = some e)
    (p : Printer) : marked p (a ++ b) = marked p a := by
  unfold marked
  change (if _ then a.spans ++ _ else _) = _
  simp [h]

theorem marked_append_done {a : Doc} (b : Doc) (h : a.failure? = none) (p : Printer) :
    marked p (a ++ b) = marked p a ++ marked p b := by
  unfold marked
  change (if _ then a.spans ++ _ else _) = _
  split <;> simp [h]

/-- **A run marks the spans of the document in order.** -/
theorem run_spans : ∀ (d : Doc) (p : Printer),
    (d.run p).1.marks.toList.map Mark.span = p.marks.toList.map Mark.span ++ marked p d
  | .empty, _ | .fail _, _ | .text _, _ | .softSpace, _ | .softLine, _ => by
    simp [run, marked, spans, updateWriter]
  | .compactLine, p => by
    unfold run
    split <;> simp [marked, spans, updateWriter]
  | .mark span, p => by
    unfold run Printer.mark marked
    split <;> simp [spans]
  | .comments span, p => by
    simp [run, marked, spans, writeComments_marks]
  | .nest body, p => by
    change _ = _ ++ marked p body
    cases hp : p.writer.isPretty with
    | false =>
      rw [run_nest_compact hp]
      exact run_spans body p
    | true =>
      have hb := run_spans body (deeper p)
      rcases run_nest body hp with hq | hq
      · rw [hq]
        exact hb
      · rw [hq]
        exact hb
  | .append a b, p => by
    have ha := run_spans a p
    rw [show Doc.append a b = a ++ b from rfl]
    cases hf : a.failure? with
    | some e => rw [run_append_failed b hf, marked_append_failed b hf, ha]
    | none =>
      rw [run_append_done b hf, marked_append_done b hf, run_spans b, ha,
        marked_of_options (run_sameSetup a p).options, List.append_assoc]

/-! ### Compact text -/

theorem chars_append_done {a : Doc} (b : Doc) (h : a.failure? = none) (isPretty : Bool) :
    (a ++ b).chars isPretty = a.chars isPretty ++ b.chars isPretty := by
  change a.chars isPretty ++ _ = _
  simp [h]

theorem chars_append_failed {a : Doc} {e : EmitError} (b : Doc) (h : a.failure? = some e)
    (isPretty : Bool) : (a ++ b).chars isPretty = a.chars isPretty := by
  change a.chars isPretty ++ _ = _
  simp [h]

/-- **A compact printer writes the characters of the document**, those in front of
its failure. -/
theorem run_compact : ∀ (d : Doc) (p : Printer), p.writer.isPretty = false →
    (d.run p).1.output.toList = p.output.toList ++ d.chars false
  | .empty, _, _ | .fail _, _, _ => by simp [run, chars]
  | .text s, p, h => Writer.write_output _ s (Writer.pendingIndent_eq_zero (.inl h))
  | .softSpace, p, h => by
    simp [run, chars, updateWriter, Printer.output, Writer.softSpace, h]
  | .softLine, p, h => by
    simp [run, chars, updateWriter, Printer.output, Writer.softLine, h]
  | .compactLine, p, h => by
    simp [run, chars, updateWriter, Printer.output, Writer.hardLine, h]
  | .mark span, p, _ => by
    simp [run, chars, Printer.output, mark_writer]
  | .comments span, p, h => by
    simp [run, chars, writeComments_eq (.inr h)]
  | .nest body, p, h => by
    rw [run_nest_compact h]
    exact run_compact body p h
  | .append a b, p, h => by
    rw [show Doc.append a b = a ++ b from rfl]
    cases hf : a.failure? with
    | some e => rw [run_append_failed b hf, chars_append_failed b hf, run_compact a p h]
    | none =>
      have hp : (a.run p).1.writer.isPretty = false := by
        rw [(run_sameSetup a p).isPretty]
        exact h
      rw [run_append_done b hf, chars_append_done b hf, run_compact b _ hp, run_compact a p h,
        List.append_assoc]

/-! ### Text on one line -/

/-- A document that neither breaks a line nor goes deeper nor fails. -/
def IsFlat : Doc → Bool
  | .softLine | .compactLine | .nest _ | .fail _ => false
  | .append first second => first.IsFlat && second.IsFlat
  | _ => true

/-- The text of a flat document. -/
def inline (isPretty : Bool) : Doc → List Char
  | .text s => s.toList
  | .softSpace => if isPretty then [' '] else []
  | .append first second => first.inline isPretty ++ second.inline isPretty
  | _ => []

theorem failure?_of_isFlat : ∀ {d : Doc}, d.IsFlat = true → d.failure? = none
  | .empty, _ | .text _, _ | .softSpace, _ | .mark _, _ | .comments _, _ => rfl
  | .append a b, h => by
    obtain ⟨ha, hb⟩ := Bool.and_eq_true_iff.mp h
    change a.failure?.or b.failure? = none
    rw [failure?_of_isFlat ha, failure?_of_isFlat hb]
    rfl

/-- **A flat document is written as its text in either mode**, on a printer that
owes no indentation and has no comments. -/
theorem run_flat (d : Doc) (p : Printer) (hd : d.IsFlat = true) (hi : p.writer.indent = 0)
    (hc : p.comments = none) :
    (d.run p).1.output.toList = p.output.toList ++ d.inline p.writer.isPretty := by
  induction d generalizing p with
  | empty => simp [run, inline]
  | text s => exact Writer.write_output _ s (Writer.pendingIndent_eq_zero (.inr hi))
  | softSpace =>
    simp only [run, inline, updateWriter, Printer.output, Writer.softSpace, Writer.space]
    split
    · exact Writer.write_output _ " " (Writer.pendingIndent_eq_zero (.inr hi))
    · simp
  | mark span => simp [run, inline, Printer.output, mark_writer]
  | comments span => simp [run, inline, writeComments_eq (.inl hc)]
  | softLine | compactLine | nest _ _ | fail _ => cases hd
  | append a b iha ihb =>
    obtain ⟨ha, hb⟩ := Bool.and_eq_true_iff.mp hd
    have hf := failure?_of_isFlat ha
    have hs := run_sameSetup a p
    rw [show Doc.append a b = a ++ b from rfl, run_append_done b hf,
      ihb _ hb ((run_indent hf p).trans hi) (hs.comments.trans hc), iha p ha hi hc,
      hs.isPretty, List.append_assoc]
    rfl

end Doc

theorem Printer.complete_eq (p : Printer) (d : Doc) :
    p.complete d =
      match d.failure? with
      | none => .ok (d.run p).1.finish
      | some e => .error e := by
  have h := Doc.run_failure d p
  unfold complete
  generalize d.run p = r at h ⊢
  obtain ⟨q, o⟩ := r
  simp only at h
  subst h
  cases d.failure? <;> rfl

end EcmaPrinter
