/-
# Brackets of a text

A text is read from left to right with the closing brackets that are awaited,
innermost first (`readBrackets`). It is well bracketed if every closing bracket is
the one awaited and none is awaited at the end.

What a printer adds on its own has no brackets, so the brackets that it prints for a
document are those of the document's texts, in either mode and at every width of
indentation (`Doc.readBrackets_run`). A document is balanced if it leaves what is
awaited as it was, whatever that is (`Doc.IsBalanced`). Such documents are phrases: they
may stand one behind the other, between brackets of one kind, and in a list under any
format.

Key definitions: `readBrackets`, `isWellBracketed`, `isBracketFree`,
`Doc.IsBalanced`.
Key theorems: `Printer.pieces_brackets`, `Doc.readBrackets_run`,
`Doc.phrasing_isBalanced`.
-/
import EcmaPrinter.Proofs.Layout.Phrasing

namespace EcmaPrinter

/-! ### Reading brackets -/

/-- The bracket that closes an opening one. -/
def closing? : Char → Option Char
  | '(' => some ')'
  | '[' => some ']'
  | '\x7b' => some '\x7d'
  | _ => none

def isClosing (c : Char) : Bool := c == ')' || c == ']' || c == '\x7d'

def isBracket (c : Char) : Bool := (closing? c).isSome || isClosing c

/-- The closing brackets awaited behind a character, innermost first, if `awaited` are
awaited in front of it. There are none if the character closes what is not open. -/
def readBracket (awaited : List Char) (c : Char) : Option (List Char) :=
  match closing? c with
  | some closing => some (closing :: awaited)
  | none =>
    if isClosing c then
      match awaited with
      | [] => none
      | a :: rest => if a = c then some rest else none
    else some awaited

/-- The closing brackets awaited behind a text. -/
def readBrackets (awaited cs : List Char) : Option (List Char) := cs.foldlM readBracket awaited

/-- Every bracket of a text is closed by its own kind, in order, and no bracket closes
nothing. -/
def isWellBracketed (code : String) : Bool := readBrackets [] code.toList == some []

/-- A text without brackets. -/
def isBracketFree (s : String) : Bool := s.toList.all fun c => !isBracket c

theorem readBrackets_cons (awaited : List Char) (c : Char) (cs : List Char) :
    readBrackets awaited (c :: cs) = (readBracket awaited c).bind fun a => readBrackets a cs :=
  List.foldlM_cons

/-- A text is read in parts. -/
theorem readBrackets_append (awaited cs ds : List Char) :
    readBrackets awaited (cs ++ ds) = (readBrackets awaited cs).bind fun a => readBrackets a ds :=
  List.foldlM_append

theorem readBracket_plain {c : Char} (h : isBracket c = false) (awaited : List Char) :
    readBracket awaited c = some awaited := by
  obtain ⟨hopens, hcloses⟩ := Bool.or_eq_false_iff.mp h
  have hnone : closing? c = none := by simpa using hopens
  unfold readBracket
  rw [hnone, hcloses]
  rfl

/-- Only brackets are read. -/
theorem readBrackets_filter : ∀ cs awaited : List Char,
    readBrackets awaited (cs.filter isBracket) = readBrackets awaited cs
  | [], _ => rfl
  | c :: cs, awaited => by
    cases hc : isBracket c with
    | false =>
      rw [List.filter_cons_of_neg (by simp [hc]), readBrackets_cons, readBracket_plain hc,
        readBrackets_filter cs]
      rfl
    | true =>
      rw [List.filter_cons_of_pos hc, readBrackets_cons, readBrackets_cons]
      simp only [readBrackets_filter cs]

theorem filter_eq_nil_of_isBracketFree {s : String} (h : isBracketFree s = true) :
    s.toList.filter isBracket = [] := by
  rw [List.filter_eq_nil_iff]
  intro c hc hbracket
  have := List.all_eq_true.mp h c hc
  simp [hbracket] at this

theorem isBracketFree_of_isPlainText {s : String} (h : isPlainText s = true) :
    isBracketFree s = true := by
  have hplain : ∀ c, isBracket c = true → isPlainChar c = false := by
    intro c hc
    rcases Bool.or_eq_true_iff.mp hc with hc | hc
    · unfold closing? at hc
      split at hc <;> first | decide | cases hc
    · have hcases : (c = ')' ∨ c = ']') ∨ c = '\x7d' := by simpa [isClosing] using hc
      rcases hcases with (rfl | rfl) | rfl <;> decide
  rw [isBracketFree, List.all_eq_true]
  intro c hc
  have hc := List.all_eq_true.mp h c hc
  cases hbracket : isBracket c with
  | false => rfl
  | true =>
    rw [hplain c hbracket] at hc
    cases hc

/-! ### What a printer adds -/

/-- No comment of a table has brackets. -/
def CommentTable.isBracketFree (table : CommentTable) : Bool :=
  table.entries.all fun entry => entry.2.all fun c => EcmaPrinter.isBracketFree c.text

theorem CommentTable.isBracketFree_leading {table : CommentTable}
    (h : table.isBracketFree = true) (pos : Nat) :
    ∀ c ∈ table.leading pos, EcmaPrinter.isBracketFree c.text = true := by
  unfold leading
  cases hlookup : table.entries.lookup pos with
  | none => nofun
  | some cs =>
    obtain ⟨before, after, hentries, -⟩ := List.lookup_eq_some_iff.mp hlookup
    have hmem : (pos, cs) ∈ table.entries := by simp [hentries]
    exact List.all_eq_true.mp (List.all_eq_true.mp h (pos, cs) hmem)

theorem isBracket_of_isLayout {c : Char} (h : isLayout c = true) : isBracket c = false := by
  unfold isLayout at h
  rcases Bool.or_eq_true_iff.mp h with h | h <;> rw [eq_of_beq h] <;> decide

theorem filter_isBracket_of_isLayout {cs : List Char} (h : (cs.filter fun c => !isLayout c) = []) :
    cs.filter isBracket = [] := by
  rw [List.filter_eq_nil_iff] at h ⊢
  intro c hc hbracket
  have hlayout : isLayout c = true := by simpa using h c hc
  rw [isBracket_of_isLayout hlayout] at hbracket
  cases hbracket

namespace Printer

theorem writtenAll_brackets : ∀ {cs : List Comment} (w : Writer),
    (∀ c ∈ cs, isBracketFree c.text = true) →
    ((w.writtenAll cs).flatMap WrittenComment.text).filter isBracket = []
  | [], _, _ => rfl
  | c :: cs, w, h => by
    obtain ⟨hc, hcs⟩ := List.forall_mem_cons.mp h
    have hcode := filter_isBracket_of_isLayout (w.filter_written_code c)
    rw [WrittenComment.code, List.filter_append, List.append_eq_nil_iff] at hcode
    have hcomment : (w.written c).comment = c := rfl
    rw [Writer.writtenAll, List.flatMap_cons, List.filter_append, writtenAll_brackets _ hcs,
      WrittenComment.text, List.filter_append, List.filter_append, hcode.1, hcode.2, hcomment,
      filter_eq_nil_of_isBracketFree hc]
    rfl

/-- A printer writes the brackets of a step and no others. -/
theorem piece_brackets {p : Printer} (h : p.comments.all CommentTable.isBracketFree = true)
    (s : Step) : (p.piece s).text.filter isBracket = s.chars.filter isBracket := by
  cases s with
  | text s =>
    change (p.writer.added s).filter isBracket = s.toList.filter isBracket
    unfold Writer.added
    split
    · rename_i hs
      rw [String.isEmpty_iff.mp hs]
      rfl
    · rw [List.filter_append, filter_isBracket_of_isLayout p.writer.filter_owed, List.nil_append]
  | softSpace => exact filter_isBracket_of_isLayout p.writer.filter_blank
  | softLine => exact filter_isBracket_of_isLayout p.writer.filter_lineBreak
  | compactLine =>
    dsimp only [piece]
    split <;> rfl
  | comments span =>
    have hpending : ∀ c ∈ p.pendingComments span, isBracketFree c.text = true := by
      unfold pendingComments
      split
      · nofun
      · rename_i table htable
        rw [htable] at h
        split
        · exact CommentTable.isBracketFree_leading h _
        · nofun
    dsimp only [piece]
    split
    · rfl
    · exact writtenAll_brackets _ hpending
  | mark _ | enter | leave | fail _ => rfl

/-- **The brackets of a text are those of its steps**, in either mode and with any
comments that have none. -/
theorem pieces_brackets : ∀ (ss : List Step) {p : Printer},
    p.comments.all CommentTable.isBracketFree = true →
    ((p.pieces ss).flatMap Piece.text).filter isBracket = (ss.flatMap Step.chars).filter isBracket
  | [], _, _ => rfl
  | s :: ss, p, h => by
    have hstep : (p.step s).comments.all CommentTable.isBracketFree = true := by
      rw [(step_sameSetup p s).comments]
      exact h
    rw [pieces, List.flatMap_cons, List.filter_append, piece_brackets h, pieces_brackets ss hstep,
      List.flatMap_cons, List.filter_append]

end Printer

/-! ### Documents -/

namespace Doc

/-- The closing brackets awaited behind the texts of a document. -/
def readBrackets (d : Doc) (awaited : List Char) : Option (List Char) :=
  EcmaPrinter.readBrackets awaited (d.steps.flatMap Step.chars)

/-- The document leaves what is awaited as it was. -/
def IsBalanced (d : Doc) : Prop := ∀ awaited, d.readBrackets awaited = some awaited

/-- **The brackets of what is printed are those of the document**, if it does not
fail. -/
theorem readBrackets_run {d : Doc} (hdone : d.failure? = none) {p : Printer}
    (hcomments : p.comments.all CommentTable.isBracketFree = true) (awaited : List Char) :
    EcmaPrinter.readBrackets awaited (d.run p).1.output.toList =
      (EcmaPrinter.readBrackets awaited p.output.toList).bind d.readBrackets := by
  have hpieces (awaited : List Char) :
      EcmaPrinter.readBrackets awaited ((p.pieces d.steps).flatMap Piece.text) =
        d.readBrackets awaited := by
    rw [← readBrackets_filter, Printer.pieces_brackets d.steps hcomments, readBrackets_filter]
    rfl
  rw [run_steps_done hdone, Printer.perform_output, readBrackets_append]
  simp only [hpieces]

/-- A document is read in parts. -/
theorem readBrackets_append (d e : Doc) (awaited : List Char) :
    (d ++ e).readBrackets awaited = (d.readBrackets awaited).bind e.readBrackets := by
  unfold readBrackets
  rw [steps_append, List.flatMap_append]
  exact EcmaPrinter.readBrackets_append ..

theorem readBrackets_text (s : String) (awaited : List Char) :
    (text s).readBrackets awaited = EcmaPrinter.readBrackets awaited s.toList := by
  simp [readBrackets, steps, Step.chars]

theorem isBalanced_of_isBracketFree {s : String} (h : isBracketFree s = true) :
    (text s).IsBalanced := by
  intro awaited
  rw [readBrackets_text, ← readBrackets_filter, filter_eq_nil_of_isBracketFree h]
  rfl

theorem IsBalanced.append {a b : Doc} (ha : a.IsBalanced) (hb : b.IsBalanced) :
    (a ++ b).IsBalanced := by
  intro awaited
  rw [readBrackets_append, ha awaited]
  exact hb awaited

/-- An opening bracket awaits the closing one, and that one is read where it is awaited. -/
theorem IsBalanced.between {opening closing : String} {c : Char} {d : Doc} (hd : d.IsBalanced)
    (hopening : ∀ awaited, (text opening).readBrackets awaited = some (c :: awaited))
    (hclosing : ∀ awaited, (text closing).readBrackets (c :: awaited) = some awaited) :
    (between opening closing d).IsBalanced := by
  intro awaited
  change (text opening ++ d ++ text closing).readBrackets awaited = some awaited
  rw [readBrackets_append, readBrackets_append, hopening, Option.bind_some, hd, Option.bind_some,
    hclosing]

/-- **Balanced documents are phrases** of the reader of brackets. -/
theorem phrasing_isBalanced : Phrasing IsBalanced where
  congr hsteps hd awaited := by
    unfold readBrackets
    rw [← hsteps]
    exact hd awaited
  silent hsilent awaited := by
    unfold readBrackets
    rw [hsilent]
    rfl
  append := IsBalanced.append
  nest hd awaited := by
    have hchars (d : Doc) : (nest d).steps.flatMap Step.chars = d.steps.flatMap Step.chars := by
      simp [steps, Step.chars]
    unfold readBrackets
    rw [hchars]
    exact hd awaited
  plain h := isBalanced_of_isBracketFree (isBracketFree_of_isPlainText h)
  parens hd := hd.between (fun _ => rfl) fun _ => rfl
  square hd := hd.between (fun _ => rfl) fun _ => rfl
  emptyParens _ := rfl
  braces hd := hd.between (fun _ => rfl) fun _ => rfl

end Doc

end EcmaPrinter
