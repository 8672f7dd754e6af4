/-
# Compact and formatted text agree

The two modes print the same tokens. For every program, statement and expression
they fail alike, with the same error; if they do not fail, the compact text is
the formatted text with some blanks and line breaks deleted, and both mark the
same spans in the same order (`compact_agrees_with_formatted`).

A document runs the same way in both modes, atom by atom: what only a formatted
printer writes is a blank, a line break or indentation (`Doc.reconciles`). The one
atom that only a compact printer writes, the line break behind the name of an
interpreter, stands in front of the line break with which a formatted program
starts its items (`Program.emit_reconciles`).

A compact printer breaks no lines and knows no depth, so it writes every list as the
format collapsed to one line says (`Doc.run_list_collapsed`).

Key definitions: `DeletesBlanks`, `Doc.Reconciles`, `Doc.SameCompact`, `SameOutcome`.
Key theorems: `Doc.reconciles`, `Doc.run_list_collapsed`, `Program.emit_reconciles`,
`compact_agrees_with_formatted`.
-/
import EcmaPrinter.Print
import EcmaPrinter.Proofs.Emit.Atoms

namespace EcmaPrinter

/-! ### Deleting blanks -/

/-- Blanks and line breaks. -/
def isLayout (c : Char) : Bool := c == ' ' || c == '\n'

/-- The second text is the first one with some blanks and line breaks deleted. -/
inductive DeletesBlanks : List Char → List Char → Prop where
  | nil : DeletesBlanks [] []
  | keep (c : Char) {long short : List Char} :
      DeletesBlanks long short → DeletesBlanks (c :: long) (c :: short)
  | drop {c : Char} {long short : List Char} :
      isLayout c = true → DeletesBlanks long short → DeletesBlanks (c :: long) short

namespace DeletesBlanks

theorem refl : ∀ s : List Char, DeletesBlanks s s
  | [] => .nil
  | c :: s => .keep c (refl s)

theorem append {a b a' b' : List Char} (h : DeletesBlanks a a') (h' : DeletesBlanks b b') :
    DeletesBlanks (a ++ b) (a' ++ b') := by
  induction h with
  | nil => exact h'
  | keep c _ ih => exact .keep c ih
  | drop hc _ ih => exact .drop hc ih

theorem trans {a b c : List Char} (h : DeletesBlanks a b) (h' : DeletesBlanks b c) :
    DeletesBlanks a c := by
  induction h generalizing c with
  | nil => exact h'
  | keep x _ ih =>
    cases h' with
    | keep _ h' => exact .keep x (ih h')
    | drop hx h' => exact .drop hx (ih h')
  | drop hx _ ih => exact .drop hx (ih h')

theorem single {c : Char} (h : isLayout c = true) : DeletesBlanks [c] [] := .drop h .nil

theorem replicate : ∀ n : Nat, DeletesBlanks (List.replicate n ' ') []
  | 0 => .nil
  | n + 1 => .drop rfl (replicate n)

theorem sublist {a b : List Char} (h : DeletesBlanks a b) : b.Sublist a := by
  induction h with
  | nil => exact .slnil
  | keep c _ ih => exact ih.cons_cons c
  | drop _ _ ih => exact ih.cons _

/-- Nothing but blanks and line breaks is deleted. -/
theorem filter_eq {a b : List Char} (h : DeletesBlanks a b) :
    a.filter (fun c => !isLayout c) = b.filter fun c => !isLayout c := by
  induction h with
  | nil => rfl
  | keep c _ ih => rw [List.filter_cons, List.filter_cons, ih]
  | drop hc _ ih => rw [List.filter_cons, ih]; simp [hc]

end DeletesBlanks

/-! ### A formatted writer -/

/-- A text comes behind the indentation that is owed. -/
theorem Writer.write_deletesBlanks (w : Writer) (s : String) :
    ∃ written, (w.write s).output.toList = w.output.toList ++ written ∧
      DeletesBlanks written s.toList := by
  unfold write
  split
  · rename_i hs
    have : s = "" := by simpa using hs
    exact ⟨[], by simp, by simpa [this] using DeletesBlanks.nil⟩
  · obtain ⟨n, hn⟩ := w.flushIndent_output
    refine ⟨List.replicate n ' ' ++ s.toList, ?_, ?_⟩
    · simp [hn]
    · exact (DeletesBlanks.replicate n).append (.refl s.toList)

namespace Doc

open Printer

/-- What a printer writes for a document gives its compact text when blanks are
deleted. -/
def Reconciles (d : Doc) (p : Printer) : Prop :=
  ∃ written, (d.run p).1.output.toList = p.output.toList ++ written ∧
    DeletesBlanks written (d.chars false)

theorem Reconciles.append {a b : Doc} {p : Printer} (ha : a.Reconciles p)
    (hb : a.failure? = none → b.Reconciles (a.run p).1) : (a ++ b).Reconciles p := by
  obtain ⟨wa, ha, hda⟩ := ha
  cases hf : a.failure? with
  | some e => exact ⟨wa, by rw [run_append_failed b hf, ha], by rwa [chars_append_failed b hf]⟩
  | none =>
    obtain ⟨wb, hb, hdb⟩ := hb hf
    refine ⟨wa ++ wb, ?_, ?_⟩
    · rw [run_append_done b hf, hb, ha, List.append_assoc]
    · rw [chars_append_done b hf]
      exact hda.append hdb

/-- **A document without compact line breaks reconciles on every formatted printer
without comments.** -/
theorem reconciles (d : Doc) {p : Printer} (hd : d.all isModeFree = true)
    (hp : p.writer.isPretty = true) (hc : p.comments = none) : d.Reconciles p := by
  induction d generalizing p with
  | empty => exact ⟨[], by simp [run], .nil⟩
  | fail e => exact ⟨[], by simp [run], .nil⟩
  | text s => exact p.writer.write_deletesBlanks s
  | softSpace =>
    obtain ⟨written, hw, hd⟩ := p.writer.write_deletesBlanks " "
    refine ⟨written, ?_, ?_⟩
    · simpa [run, updateWriter, Printer.output, Writer.softSpace, hp, Writer.space] using hw
    · exact hd.trans (.single rfl)
  | softLine =>
    simp only [Reconciles, run, chars, updateWriter, Printer.output, Writer.softLine]
    split
    · exact ⟨['\n'], by simp [Writer.hardLine], .single rfl⟩
    · exact ⟨[], by simp, .nil⟩
  | compactLine => cases hd
  | mark span => exact ⟨[], by simp [run, Printer.output, mark_writer], .nil⟩
  | comments span => exact ⟨[], by simp [run, writeComments_eq (.inl hc)], .nil⟩
  | nest body ih =>
    obtain ⟨written, hw, hd⟩ : body.Reconciles (deeper p) := ih hd hp hc
    refine ⟨written, ?_, hd⟩
    rcases run_nest body hp with hq | hq
    · rw [hq]
      exact hw
    · rw [hq]
      exact hw
  | append a b iha ihb =>
    obtain ⟨hda, hdb⟩ := Bool.and_eq_true_iff.mp hd
    have hs := run_sameSetup a p
    exact .append (iha hda hp hc) fun _ =>
      ihb hdb (hs.isPretty.trans hp) (hs.comments.trans hc)

/-! ### Lists in compact text -/

/-- Two documents that every compact printer runs alike. -/
def SameCompact (a b : Doc) : Prop :=
  ∀ p : Printer, p.writer.isPretty = false → a.run p = b.run p

theorem SameCompact.append {a b a' b' : Doc} (h : SameCompact a b) (h' : SameCompact a' b') :
    SameCompact (a ++ a') (b ++ b') := by
  intro p hp
  rw [run_append, run_append, ← h p hp]
  have hpretty : (a.run p).1.writer.isPretty = false := (a.run_sameSetup p).isPretty.trans hp
  rcases hrun : a.run p with ⟨q, _ | e⟩
  · rw [hrun] at hpretty
    exact h' q hpretty
  · rfl

/-- Compact text has no line breaks and no blanks to choose from. -/
theorem sameCompact_breakOr (isBroken isSpaced isBroken' isSpaced' : Bool) :
    SameCompact (breakOr isBroken isSpaced) (breakOr isBroken' isSpaced') := by
  have hnone (isBroken isSpaced : Bool) (p : Printer) (hp : p.writer.isPretty = false) :
      (breakOr isBroken isSpaced).run p = (p, none) := by
    cases isBroken <;> cases isSpaced <;>
      simp [breakOr, run, Printer.updateWriter, Writer.softLine, Writer.softSpace, hp]
  intro p hp
  rw [hnone isBroken isSpaced p hp, hnone isBroken' isSpaced' p hp]

theorem sameCompact_listTail (f : ListFormat) (previous : Span) (items : List Item) :
    SameCompact (listTail f previous items) (listTail f.collapsed previous items) := by
  induction items generalizing previous with
  | nil => exact fun _ _ => rfl
  | cons item rest ih =>
    have hbreak := sameCompact_breakOr (f.breaksBetween previous item.span)
      f.spaceBetweenSiblings (f.collapsed.breaksBetween previous item.span)
      f.collapsed.spaceBetweenSiblings
    have htext : SameCompact (.text f.delimiter.text) (.text f.collapsed.delimiter.text) :=
      fun _ _ => rfl
    have hitem : SameCompact (listItem f item) (listItem f.collapsed item) := fun _ _ => rfl
    exact ((htext.append hbreak).append hitem).append (ih item.span)

theorem sameCompact_listBody (parent : Span) (f : ListFormat) (items : List Item) :
    SameCompact (listBody parent f items) (listBody parent f.collapsed items) := by
  cases items with
  | nil =>
    intro p hp
    rw [listBody, listBody]
    cases f.isMultiLine <;> cases f.collapsed.isMultiLine <;>
      cases (f.spaceBetweenBraces && !f.noSpaceIfEmpty) <;>
      cases (f.collapsed.spaceBetweenBraces && !f.collapsed.noSpaceIfEmpty) <;>
      simp [when, run, Printer.updateWriter, Writer.softLine, Writer.softSpace, hp]
  | cons first rest =>
    have hitem : SameCompact (listItem f first) (listItem f.collapsed first) := fun _ _ => rfl
    have hitems := hitem.append (sameCompact_listTail f first.span rest)
    have hnest (d : Doc) (isIndented : Bool) :
        SameCompact (if isIndented then .nest d else d) d := by
      cases isIndented with
      | false => exact fun _ _ => rfl
      | true => exact fun _ hp => run_nest_compact hp d
    have hbody : SameCompact _ _ :=
      fun p hp => (hnest _ f.isIndented p hp).trans (hitems p hp)
    exact ((sameCompact_breakOr _ _ _ _).append hbody).append (sameCompact_breakOr _ _ _ _)

/-- **A compact printer writes a list as its collapsed format says.** -/
theorem run_list_collapsed (parent : Span) (f : ListFormat) (items : List Item) {p : Printer}
    (hp : p.writer.isPretty = false) :
    (list parent f items).run p = (list parent f.collapsed items).run p := by
  have hbody := sameCompact_listBody parent f items
  have htext (s : String) : SameCompact (.text s) (.text s) := fun _ _ => rfl
  have hlist := ((htext (f.brackets.opening.getD "")).append hbody).append
    (htext (f.brackets.closing.getD ""))
  by_cases hempty : (items.isEmpty && f.isOptionalIfEmpty) = true
  · have hempty' : (items.isEmpty && f.collapsed.isOptionalIfEmpty) = true := hempty
    rw [list, list, if_pos hempty, if_pos hempty']
  · have hempty' : ¬(items.isEmpty && f.collapsed.isOptionalIfEmpty) = true := hempty
    rw [list, list, if_neg hempty, if_neg hempty']
    exact hlist p hp

/-- The same of a list that may be absent. -/
theorem run_listIfAny_collapsed (parent : Span) (f : ListFormat) (items : Option (List Item))
    {p : Printer} (hp : p.writer.isPretty = false) :
    (listIfAny parent f items).run p = (listIfAny parent f.collapsed items).run p := by
  by_cases habsent : (items.isNone && f.isOptionalIfAbsent) = true
  · have habsent' : (items.isNone && f.collapsed.isOptionalIfAbsent) = true := habsent
    rw [listIfAny, listIfAny, if_pos habsent, if_pos habsent']
  · have habsent' : ¬(items.isNone && f.collapsed.isOptionalIfAbsent) = true := habsent
    rw [listIfAny, listIfAny, if_neg habsent, if_neg habsent']
    exact run_list_collapsed parent f _ hp

/-! ### The first line of a program -/

theorem run_assoc (a b c : Doc) (p : Printer) : (a ++ b ++ c).run p = (a ++ (b ++ c)).run p := by
  cases ha : a.failure? with
  | some e =>
    have hab : (a ++ b).failure? = some e := by simp [ha]
    rw [run_append_failed _ hab, run_append_failed _ ha, run_append_failed _ ha]
  | none =>
    rw [run_append_done _ ha]
    cases hb : b.failure? with
    | some e =>
      have hab : (a ++ b).failure? = some e := by simp [ha, hb]
      rw [run_append_failed _ hab, run_append_done _ ha, run_append_failed _ hb]
    | none =>
      have hab : (a ++ b).failure? = none := by simp [ha, hb]
      rw [run_append_done _ hab, run_append_done _ ha, run_append_done _ hb]

/-- Documents that run alike reconcile alike. -/
theorem Reconciles.of_run_eq {a b : Doc} {p : Printer} (h : ∀ q, a.run q = b.run q)
    (hb : b.Reconciles p) : a.Reconciles p := by
  have hchars : a.chars false = b.chars false := by
    have ha := run_compact a (Printer.new .compact) rfl
    rw [h, run_compact b (Printer.new .compact) rfl] at ha
    exact (List.append_cancel_left ha).symm
  obtain ⟨written, hw, hd⟩ := hb
  exact ⟨written, by rw [h, hw], by rwa [hchars]⟩

/-- A document with a compact text leaves no text empty. -/
theorem Reconciles.isEmpty_eq_false {d : Doc} {p : Printer} (h : d.Reconciles p)
    (hd : d.chars false ≠ []) : (d.run p).1.writer.isEmpty = false := by
  obtain ⟨written, hw, hdel⟩ := h
  have hne : (d.run p).1.output ≠ "" := by
    intro he
    rw [he] at hw
    obtain ⟨-, rfl⟩ := List.append_eq_nil_iff.mp hw.symm
    exact hd (List.eq_nil_of_sublist_nil hdel.sublist)
  simpa [Writer.isEmpty, Printer.output] using hne

/-- The items of a program start on a line of their own. -/
theorem sourceFile_run_eq (span : Span) (items : List Item)
    (h : (items.all fun item => item.doc.all isModeFree) = true) :
    ∃ rest : Doc, rest.all isModeFree = true ∧
      ∀ p, (list span ListFormat.sourceFileStatements items).run p = (softLine ++ rest).run p := by
  cases items with
  | nil => exact ⟨.text "", rfl, fun p => rfl⟩
  | cons first items =>
    let body : Doc := listItem ListFormat.sourceFileStatements first
      ++ listTail ListFormat.sourceFileStatements first.span items
    refine ⟨body ++ (.empty ++ .text ""), ?_, fun p => ?_⟩
    · rw [List.all_cons, Bool.and_eq_true_iff] at h
      simp [body, all_listTail, h.1, h.2]
    · change (.text "" ++ (softLine ++ body ++ .empty) ++ .text "").run p = _
      rw [run_assoc, run_append_done _ rfl, run_assoc, run_assoc]
      rfl

/-- A compact line break and the line break of a formatted text are one, unless the
formatted text is still empty. -/
theorem reconciles_line {p : Printer} {rest : Doc} (hr : rest.all isModeFree = true)
    (hp : p.writer.isPretty = true) (hc : p.comments = none) (ho : p.writer.isEmpty = false) :
    (compactLine ++ (softLine ++ rest)).Reconciles p := by
  let q : Printer := p.updateWriter Writer.hardLine
  have hrun : (compactLine ++ (softLine ++ rest)).run p = rest.run q := by
    rw [run_append_done _ rfl, run_append_done _ rfl]
    simp [run, hp, updateWriter, Writer.softLine, ho, q]
  obtain ⟨written, hw, hd⟩ := rest.reconciles (p := q) hr hp hc
  refine ⟨'\n' :: written, ?_, ?_⟩
  · rw [hrun, hw]
    simp [q, updateWriter, Printer.output, Writer.hardLine]
  · exact .keep '\n' hd

end Doc

/-- The interpreter's line, if there is one, and the items of a program. -/
theorem Doc.sourceFile_reconciles (interpreter : Option String) (span : Span) {items : List Item}
    (h : (items.all fun item => item.doc.all isModeFree) = true) {p : Printer}
    (hp : p.writer.isPretty = true) (hc : p.comments = none) :
    (Emit.interpreter interpreter ++ list span ListFormat.sourceFileStatements items).Reconciles
      p := by
  obtain ⟨rest, hr, hrun⟩ := sourceFile_run_eq span items h
  cases interpreter with
  | none =>
    refine Reconciles.append ?_ fun _ => reconciles _ (by simpa using h) hp hc
    exact reconciles .empty rfl hp hc
  | some name =>
    let head : Doc := .text "#!" ++ .text name
    have hline : ∀ q, (compactLine ++ list span ListFormat.sourceFileStatements items).run q =
        (compactLine ++ (softLine ++ rest)).run q := fun q => by
      rw [run_append_done _ rfl, hrun, ← run_append_done _ rfl]
    refine .of_run_eq (b := head ++ (compactLine ++ (softLine ++ rest))) (fun q => ?_) ?_
    · change (head ++ compactLine ++ _).run q = _
      rw [run_assoc, run_append_done _ rfl, hline, ← run_append_done _ rfl]
    · have hhead := reconciles head (p := p) rfl hp hc
      refine hhead.append fun _ => ?_
      have hs := run_sameSetup head p
      refine reconciles_line hr (hs.isPretty.trans hp) (hs.comments.trans hc) ?_
      refine hhead.isEmpty_eq_false ?_
      rw [chars_append_done _ rfl]
      exact List.append_ne_nil_of_left_ne_nil (by decide) _

/-- **The document of a program reconciles on every formatted printer without
comments.** -/
theorem Program.emit_reconciles (program : Program) {p : Printer} (hp : p.writer.isPretty = true)
    (hc : p.comments = none) : program.emit.Reconciles p := by
  cases program with
  | module span body interpreter =>
    exact Doc.sourceFile_reconciles interpreter span (by simp [ModuleItem.emit_modeFree]) hp hc
  | script span body interpreter =>
    exact Doc.sourceFile_reconciles interpreter span (by simp [Node.emit_modeFree]) hp hc

/-! ### Results of printing -/

/-- Two results of printing: the same error, or outputs in a relation. -/
inductive SameOutcome {α : Type} (R : α → α → Prop) :
    Except EmitError α → Except EmitError α → Prop where
  | ok {a b : α} : R a b → SameOutcome R (.ok a) (.ok b)
  | error (e : EmitError) : SameOutcome R (.error e) (.error e)

/-- A compact text and a formatted one that differ in blanks and line breaks only,
which the compact one has fewer of. -/
structure TextsAgree (compact formatted : String) : Prop where
  deletes : DeletesBlanks formatted.toList compact.toList
  sublist : compact.toList.Sublist formatted.toList
  filter_eq : compact.toList.filter (fun c => !isLayout c) =
    formatted.toList.filter fun c => !isLayout c

/-- Texts that agree, with marks of the same spans. -/
structure OutputsAgree (compact formatted : PrintOutput) : Prop where
  code : TextsAgree compact.code formatted.code
  spans : compact.marks.toList.map Mark.span = formatted.marks.toList.map Mark.span

theorem TextsAgree.of_deletes {compact formatted : String}
    (h : DeletesBlanks formatted.toList compact.toList) : TextsAgree compact formatted :=
  ⟨h, h.sublist, h.filter_eq.symm⟩

/-- A document that reconciles on a new formatted printer has the same outcome in
both modes. -/
theorem Doc.Reconciles.sameOutcome {d : Doc} {w w' : UInt32} {records : Bool}
    (h : d.Reconciles (.new ⟨true, w', records⟩)) :
    SameOutcome OutputsAgree ((Printer.new ⟨false, w, records⟩).complete d)
      ((Printer.new ⟨true, w', records⟩).complete d) := by
  rw [Printer.complete_eq, Printer.complete_eq]
  cases d.failure? with
  | some e => exact .error e
  | none =>
    obtain ⟨written, hw, hd⟩ := h
    have hc := Doc.run_compact d (.new ⟨false, w, records⟩) rfl
    refine .ok ⟨.of_deletes ?_, ?_⟩
    · change DeletesBlanks (d.run _).1.output.toList (d.run _).1.output.toList
      rw [hw, hc]
      exact hd
    · change (d.run _).1.marks.toList.map Mark.span = (d.run _).1.marks.toList.map Mark.span
      rw [Doc.run_spans, Doc.run_spans]
      rfl

theorem SameOutcome.code {a b : Except EmitError PrintOutput} (h : SameOutcome OutputsAgree a b) :
    SameOutcome TextsAgree (a >>= fun o => pure o.code) (b >>= fun o => pure o.code) := by
  cases h with
  | ok h => exact .ok h.code
  | error e => exact .error e

/-- **Compact and formatted text agree.** For every program, statement and
expression, whatever the widths of indentation, the two modes fail with the same
error, or their texts differ in blanks and line breaks only, which the compact
text has fewer of, and the marks they record are of the same spans in the same
order. -/
theorem compact_agrees_with_formatted (w w' : UInt32) (records : Bool) :
    (∀ program : Program, SameOutcome OutputsAgree
      (print program ⟨false, w, records⟩) (print program ⟨true, w', records⟩)) ∧
    (∀ s : Stmt, SameOutcome OutputsAgree ((Printer.new ⟨false, w, records⟩).complete s.emit)
        ((Printer.new ⟨true, w', records⟩).complete s.emit) ∧
      SameOutcome TextsAgree (printStmt s ⟨false, w, records⟩)
        (printStmt s ⟨true, w', records⟩)) ∧
    (∀ e : Expr, SameOutcome OutputsAgree ((Printer.new ⟨false, w, records⟩).complete e.emit)
        ((Printer.new ⟨true, w', records⟩).complete e.emit) ∧
      SameOutcome TextsAgree (printExpr e ⟨false, w, records⟩)
        (printExpr e ⟨true, w', records⟩)) := by
  have node {c : Category} (n : Node c) :
      SameOutcome OutputsAgree ((Printer.new ⟨false, w, records⟩).complete n.emit)
        ((Printer.new ⟨true, w', records⟩).complete n.emit) :=
    (n.emit.reconciles n.emit_modeFree rfl rfl).sameOutcome
  refine ⟨fun program => ?_, fun s => ⟨node s, (node s).code⟩, fun e => ⟨node e, (node e).code⟩⟩
  exact (program.emit_reconciles rfl rfl).sameOutcome

end EcmaPrinter
