/-
# Compact text is a concatenation

A compact printer carries a depth, a set of written comments, a line and a column
from one emission to the next, and an emission that failed leaves them as they
were at the failure. None of it is seen in what is written next. A printer that
has written `front` and one that has written nothing stay in step
(`Printer.Follows`): their texts differ by `front` in front, and the offsets of
their marks by its length (`perform_follows`).

So a session writes the texts that its emissions leave behind on printers of their
own (`Printer.session_concatenates`), and a program is its interpreter line and
the texts of its items (`Program.compactCode_emit`).

Key definitions: `Mark.placeBehind`, `Printer.Follows`, `Printer.placesBehind`,
`Doc.compactCode`, `Program.items`.
Key theorems: `Printer.perform_follows`, `Printer.session_concatenates`,
`Program.compactCode_emit`, `compact_text_concatenates`.
-/
import EcmaPrinter.Proofs.Emit.Session

namespace EcmaPrinter

namespace Mark

/-- The node of a mark and its offset. -/
def place (m : Mark) : Span × UInt32 := (m.span, m.generated.offset)

/-- The place of a mark when its text is behind that many bytes. -/
def placeBehind (bytes : Nat) (m : Mark) : Span × UInt32 :=
  (m.span, UInt32.ofNat bytes + m.generated.offset)

end Mark

/-! ### Two runs in step -/

theorem Writer.write_compact {w : Writer} (h : w.isPretty = false) (s : String) :
    (w.write s).output = w.output ++ s := by
  have hpending : w.pendingIndent = 0 := pendingIndent_eq_zero (.inl h)
  rw [← String.toList_inj, write_output w s hpending, String.toList_append]

/-- A compact writer announces the number of bytes that it has written. -/
theorem Writer.position_offset_compact {w : Writer} (h : w.isPretty = false) :
    w.position.offset = UInt32.ofNat w.output.utf8ByteSize := by
  change UInt32.ofNat w.size + w.pendingIndent = _
  rw [pendingIndent_eq_zero (.inl h), UInt32.add_zero]
  rfl

namespace Printer

/-- The places that a printer has marked. -/
def places (p : Printer) : List (Span × UInt32) := p.marks.toList.map Mark.place

/-- Of two compact printers the second has written what the first one has, behind
some text `front` in which it marked the places `earlier`. -/
structure Follows (front : String) (earlier : List (Span × UInt32)) (p q : Printer) : Prop where
  compact : p.writer.isPretty = false
  follower_compact : q.writer.isPretty = false
  records : q.options.recordsPositions = p.options.recordsPositions
  output : q.output = front ++ p.output
  places : q.places = earlier ++ p.marks.toList.map (Mark.placeBehind front.utf8ByteSize)

variable {front : String} {earlier : List (Span × UInt32)} {p q : Printer}

/-- Any compact printer follows one that has written nothing. -/
theorem follows_start (q : Printer) (hq : q.writer.isPretty = false) (width : UInt32)
    (comments : Option CommentTable) :
    Follows q.output q.places
      (start ⟨false, width, q.options.recordsPositions⟩ comments) q where
  compact := rfl
  follower_compact := hq
  records := rfl
  output := (String.append_empty).symm
  places := (List.append_nil _).symm

namespace Follows

/-- The second printer announces the first one's offset behind `front`. -/
theorem offset (h : Follows front earlier p q) :
    q.writer.position.offset = UInt32.ofNat front.utf8ByteSize + p.writer.position.offset := by
  have houtput : q.writer.output = front ++ p.writer.output := h.output
  rw [Writer.position_offset_compact h.follower_compact, Writer.position_offset_compact h.compact,
    houtput, String.utf8ByteSize_append, UInt32.ofNat_add]

/-- Both printers mark the node that is next. -/
theorem mark (h : Follows front earlier p q) (span : Span) :
    Follows front earlier (p.mark span) (q.mark span) := by
  unfold Printer.mark
  rw [h.records]
  by_cases hrecords : p.options.recordsPositions = true
  · rw [if_pos hrecords, if_pos hrecords]
    refine ⟨h.compact, h.follower_compact, h.records, h.output, ?_⟩
    have hplaces := h.places
    simp only [Printer.places] at hplaces
    simp only [Printer.places, Array.toList_push, List.map_append, hplaces, List.append_assoc,
      List.map_cons, List.map_nil, Mark.place, Mark.placeBehind, h.offset]
  · rw [if_neg hrecords, if_neg hrecords]
    exact h

/-- Printers whose writers write one text behind what they have stay in step. -/
theorem updateWriter (h : Follows front earlier p q) {f : Writer → Writer} {s : String}
    (hmode : ∀ w, (f w).isPretty = w.isPretty)
    (hwrites : ∀ w : Writer, w.isPretty = false → (f w).output = w.output ++ s) :
    Follows front earlier (p.updateWriter f) (q.updateWriter f) where
  compact := (hmode _).trans h.compact
  follower_compact := (hmode _).trans h.follower_compact
  records := h.records
  output := by
    have hp : (p.updateWriter f).output = p.output ++ s := hwrites _ h.compact
    have hq : (q.updateWriter f).output = q.output ++ s := hwrites _ h.follower_compact
    rw [hp, hq, h.output, String.append_assoc]
  places := h.places

end Follows

/-- **A step keeps two printers in step**, whatever depth, line, column and comments
each of them carries. -/
theorem step_follows (h : Follows front earlier p q) (s : Step) :
    Follows front earlier (p.step s) (q.step s) := by
  cases s with
  | text s =>
    exact h.updateWriter (fun w => w.write_isPretty s) fun w hw => Writer.write_compact hw s
  | mark span => exact h.mark span
  | fail _ => exact h
  | softSpace =>
    refine h.updateWriter (s := "") Writer.softSpace_isPretty fun w hw => ?_
    simp [Writer.softSpace, hw]
  | softLine =>
    refine h.updateWriter (s := "") Writer.softLine_isPretty fun w hw => ?_
    simp [Writer.softLine, hw]
  | compactLine =>
    simp only [step, h.compact, h.follower_compact]
    exact h.updateWriter (fun _ => rfl) (fun _ _ => rfl)
  | comments span =>
    simp only [step, writeComments_eq (.inr h.compact), writeComments_eq (.inr h.follower_compact)]
    exact h
  | enter | leave =>
    simp only [step, h.compact, h.follower_compact]
    exact h

/-- **Any steps keep two printers in step.** -/
theorem perform_follows : ∀ (ss : List Step) {p q : Printer}, Follows front earlier p q →
    Follows front earlier (p.perform ss) (q.perform ss)
  | [], _, _, h => h
  | s :: ss, _, _, h => perform_follows ss (step_follows h s)

/-! ### Sessions -/

/-- The places marked in texts that stand one behind the other, behind that many
bytes. -/
def placesBehind (bytes : Nat) : List PrintOutput → List (Span × UInt32)
  | [] => []
  | o :: os =>
    o.marks.toList.map (Mark.placeBehind bytes) ++ placesBehind (bytes + o.code.utf8ByteSize) os

/-- What an emission leaves behind on a compact printer of its own, and its error. -/
def lone (width : UInt32) (records : Bool) (comments : Option CommentTable) (e : Emission) :
    PrintOutput × Option EmitError :=
  let (p, error) := e.doc.run (start ⟨false, width, records⟩ comments)
  (p.finish, error)

variable {records : Bool} (width : UInt32) (comments : Option CommentTable)

/-- The printers of an emission behind others and of the emission alone. -/
theorem run_follows (hq : q.writer.isPretty = false)
    (hrecords : q.options.recordsPositions = records) (e : Emission) :
    Follows q.output q.places (e.doc.run (start ⟨false, width, records⟩ comments)).1
      (e.doc.run q).1 := by
  subst hrecords
  rw [Doc.run_steps, Doc.run_steps]
  exact perform_follows _ (follows_start q hq width comments)

/-- **A session continues its printer** by what its emissions leave behind alone. -/
theorem session_concatenates : ∀ (es : List Emission) {q : Printer},
    q.writer.isPretty = false → q.options.recordsPositions = records →
    let outputs := es.map fun e => (lone width records comments e).1
    (q.emitAll es).1.output = q.output ++ String.join (outputs.map PrintOutput.code) ∧
      (q.emitAll es).1.places = q.places ++ placesBehind q.output.utf8ByteSize outputs ∧
      (q.emitAll es).2 = es.map fun e => (lone width records comments e).2
  | [], q, _, _ => by simp [emitAll, placesBehind]
  | e :: es, q, hq, hrecords => by
    have hfollows := run_follows width comments hq hrecords e
    have hsetup := Doc.run_sameSetup e.doc q
    have herror : (e.doc.run q).2 = (lone width records comments e).2 :=
      (e.doc.run_failure q).trans (e.doc.run_failure _).symm
    obtain ⟨houtput, hplaces, herrors⟩ := session_concatenates es (hsetup.isPretty.trans hq)
      ((congrArg _ hsetup.options).trans hrecords)
    simp only [emitAll, List.map_cons, placesBehind, String.join_cons]
    refine ⟨?_, ?_, ?_⟩
    · rw [houtput, hfollows.output, String.append_assoc]
      rfl
    · rw [hplaces, hfollows.places, hfollows.output, String.utf8ByteSize_append, List.append_assoc]
      rfl
    · rw [herror, herrors]

end Printer

/-! ### Programs -/

namespace Doc

/-- The compact text of a document, or its error. -/
def compactCode (d : Doc) : Except EmitError String :=
  match d.failure? with
  | none => .ok (String.ofList (d.chars false))
  | some e => .error e

/-- A compact printer at its start gives the compact text of a document. -/
theorem complete_compact (d : Doc) (width : UInt32) (records : Bool)
    (comments : Option CommentTable) :
    ((Printer.start ⟨false, width, records⟩ comments).complete d).map PrintOutput.code
      = d.compactCode := by
  have hrun := d.run_compact (Printer.start ⟨false, width, records⟩ comments) rfl
  rw [Printer.complete_eq, compactCode]
  cases d.failure? with
  | some e => rfl
  | none =>
    change Except.ok _ = Except.ok _
    rw [← String.ofList_toList (s := (Printer.finish _).code)]
    exact congrArg (Except.ok ∘ String.ofList) hrun

theorem compactCode_append (a b : Doc) :
    (a ++ b).compactCode = do
      let x ← a.compactCode
      let y ← b.compactCode
      return x ++ y := by
  unfold compactCode
  rw [failure?_append]
  cases ha : a.failure? with
  | some e => rfl
  | none =>
    cases hb : b.failure? with
    | some e => rfl
    | none =>
      rw [chars_append_done b ha]
      exact congrArg Except.ok String.ofList_append

/-- A document without text of its own in front of another. -/
theorem compactCode_append_left {a : Doc} (h : a.compactCode = .ok "") (b : Doc) :
    (a ++ b).compactCode = b.compactCode := by
  rw [compactCode_append, h]
  cases hb : b.compactCode with
  | error e => rfl
  | ok s => exact congrArg Except.ok String.empty_append

theorem compactCode_append_right {b : Doc} (h : b.compactCode = .ok "") (a : Doc) :
    (a ++ b).compactCode = a.compactCode := by
  rw [compactCode_append, h]
  cases ha : a.compactCode with
  | error e => rfl
  | ok s => exact congrArg Except.ok String.append_empty

theorem compactCode_breakOr (isBroken isSpaced : Bool) :
    (breakOr isBroken isSpaced).compactCode = .ok "" := by
  cases isBroken <;> cases isSpaced <;> rfl

theorem compactCode_listItem (f : ListFormat) (item : Item) :
    (listItem f item).compactCode = item.doc.compactCode := by
  refine compactCode_append_left ?_ _
  cases f.noInterveningComments <;> rfl

/-- The texts of some documents, one behind the other. -/
def concatCodes (docs : List Doc) : Except EmitError String := do
  let texts ← docs.mapM compactCode
  return String.join texts

theorem concatCodes_cons (d : Doc) (ds : List Doc) :
    concatCodes (d :: ds) = do
      let x ← d.compactCode
      let y ← concatCodes ds
      return x ++ y := by
  simp [concatCodes, String.join_cons]

/-- Behind the first item of a list without delimiters stand the others. -/
theorem compactCode_listTail {f : ListFormat} (h : f.delimiter.text = "") :
    ∀ (items : List Item) (previous : Span),
      (listTail f previous items).compactCode = concatCodes (items.map Item.doc)
  | [], _ => rfl
  | item :: rest, previous => by
    have hgap : (Doc.text f.delimiter.text
        ++ breakOr (f.breaksBetween previous item.span) f.spaceBetweenSiblings).compactCode
          = .ok "" := by
      rw [compactCode_append_right (compactCode_breakOr ..), h]
      rfl
    rw [listTail, compactCode_append, compactCode_append_left hgap, compactCode_listItem,
      compactCode_listTail h rest, List.map_cons, concatCodes_cons]

/-- **The statements of a source file are written one behind the other.** -/
theorem compactCode_sourceFile (parent : Span) (items : List Item) :
    (list parent ListFormat.sourceFileStatements items).compactCode
      = concatCodes (items.map Item.doc) := by
  have hnone : (Doc.text "").compactCode = .ok "" := rfl
  cases items with
  | nil => rfl
  | cons first rest =>
    have hlist : list parent ListFormat.sourceFileStatements (first :: rest)
        = .text "" ++ (breakOr true false ++ (listItem ListFormat.sourceFileStatements first
            ++ listTail ListFormat.sourceFileStatements first.span rest) ++ breakOr false false)
          ++ .text "" := rfl
    rw [hlist, compactCode_append_right hnone, compactCode_append_left hnone,
      compactCode_append_right (compactCode_breakOr ..),
      compactCode_append_left (compactCode_breakOr ..), compactCode_append, compactCode_listItem,
      compactCode_listTail rfl, List.map_cons, concatCodes_cons]

end Doc

namespace Program

def items : Program → List ModuleItem
  | .module _ body _ => body
  | .script _ body _ => body.map .stmt

def interpreter : Program → Option String
  | .module _ _ interpreter | .script _ _ interpreter => interpreter

/-- The line of a program that names its interpreter, with its end. -/
def interpreterLine (program : Program) : String :=
  match program.interpreter with
  | some name => "#!" ++ name ++ "\n"
  | none => ""

/-- Modules and scripts are emitted alike. -/
theorem emit_eq (program : Program) :
    program.emit = Emit.interpreter program.interpreter
      ++ Doc.list program.span ListFormat.sourceFileStatements
        (program.items.map fun item => ⟨item.span, item.emit⟩) := by
  cases program with
  | module span body interpreter => rfl
  | script span body interpreter =>
    rw [items, List.map_map]
    rfl

theorem compactCode_interpreter (program : Program) :
    (Emit.interpreter program.interpreter).compactCode = .ok program.interpreterLine := by
  unfold interpreterLine
  cases program.interpreter with
  | none => rfl
  | some name =>
    have hchars : (Emit.interpreter (some name)).chars false =
        ['#', '!'] ++ name.toList ++ ['\n'] :=
      rfl
    refine congrArg Except.ok ?_
    simp [← String.toList_inj, hchars]

/-- **A program is its interpreter line and its items.** -/
theorem compactCode_emit (program : Program) :
    program.emit.compactCode = do
      let texts ← program.items.mapM fun item => item.emit.compactCode
      return program.interpreterLine ++ String.join texts := by
  have hitems : Doc.concatCodes
      ((program.items.map fun item => Item.mk item.span item.emit).map Item.doc) = do
        let texts ← program.items.mapM fun item => item.emit.compactCode
        return String.join texts := by
    rw [List.map_map, Doc.concatCodes, List.mapM_map]
    rfl
  rw [emit_eq, Doc.compactCode_append, compactCode_interpreter, Doc.compactCode_sourceFile, hitems]
  cases program.items.mapM fun item => item.emit.compactCode with
  | error e => rfl
  | ok texts => rfl

end Program

/-- **Compact text is a concatenation.** A session of emissions on one compact printer,
with comments or without, writes one behind the other the texts that its emissions
leave behind on fresh compact printers, up to their failures. Each fails as it does
there, and its marks are those made there, with the bytes in front of its text added
to their offsets. The code of a program is its interpreter line and the code of its
items, each printed alone. -/
theorem compact_text_concatenates (width freshWidth : UInt32) (records : Bool)
    (comments freshComments : Option CommentTable) :
    (∀ es : List Emission,
      let session := (Printer.start ⟨false, width, records⟩ comments).emitAll es
      let lone := Printer.lone freshWidth records freshComments
      session.1.output = String.join (es.map fun e => (lone e).1.code) ∧
        session.2 = es.map (fun e => (lone e).2) ∧
        session.1.places = Printer.placesBehind 0 (es.map fun e => (lone e).1)) ∧
    ∀ program : Program,
      (printWith program comments ⟨false, width, records⟩).map PrintOutput.code = do
        let texts ← program.items.mapM fun item =>
          ((Printer.start ⟨false, freshWidth, records⟩ freshComments).complete item.emit).map
            PrintOutput.code
        return program.interpreterLine ++ String.join texts := by
  refine ⟨fun es => ?_, fun program => ?_⟩
  · obtain ⟨houtput, hplaces, herrors⟩ := Printer.session_concatenates freshWidth freshComments es
      (q := Printer.start ⟨false, width, records⟩ comments) rfl rfl
    refine ⟨?_, herrors, ?_⟩
    · rw [houtput, List.map_map]
      exact String.empty_append
    · rw [hplaces]
      rfl
  · simp only [printWith_eq, Doc.complete_compact, Program.compactCode_emit]

end EcmaPrinter
