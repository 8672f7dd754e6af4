/-
# The text of a plain expression

A plain expression stays on one line in either mode and never fails, so that its
text is read off its document. The text of each node is put together from the
texts of its parts, its operator and the blanks between them, which formatted
text always has and compact text only where they are needed.

Key definitions: `Node.text`, `Nodes.commaText`.
Key theorems: `Node.isFlat_emit`, `printExpr_plain`.
-/
import EcmaPrinter.Proofs.Layout.Run
import EcmaPrinter.Proofs.Lexical.Plain

namespace EcmaPrinter

open Lexical

/-- A blank, if there is one. -/
def Lexical.gap (isThere : Bool) : List Char := if isThere then [' '] else []

theorem Lexical.gap_cases (isThere : Bool) : gap isThere = [] ∨ gap isThere = [' '] := by
  cases isThere
  · exact .inl rfl
  · exact .inr rfl

/-! ### Flat documents -/

namespace Doc

@[simp] theorem isFlat_append (a b : Doc) : (a ++ b).IsFlat = (a.IsFlat && b.IsFlat) := rfl

@[simp] theorem isFlat_empty : empty.IsFlat = true := rfl

@[simp] theorem isFlat_text (s : String) : (text s).IsFlat = true := rfl

@[simp] theorem isFlat_softSpace : softSpace.IsFlat = true := rfl

@[simp] theorem isFlat_mark (span : Span) : (mark span).IsFlat = true := rfl

@[simp] theorem isFlat_comments (span : Span) : (comments span).IsFlat = true := rfl

@[simp] theorem isFlat_space : space.IsFlat = true := rfl

@[simp] theorem isFlat_spaceIf (b : Bool) : (spaceIf b).IsFlat = true := by cases b <;> rfl

@[simp] theorem isFlat_when (b : Bool) (d : Doc) : (when b d).IsFlat = (!b || d.IsFlat) := by
  cases b <;> rfl

@[simp] theorem isFlat_reject (b : Bool) (kind : NodeKind) : (reject b kind).IsFlat = !b := by
  cases b <;> rfl

@[simp] theorem isFlat_ite (b : Bool) (d e : Doc) :
    (if b then d else e).IsFlat = if b then d.IsFlat else e.IsFlat := by
  cases b <;> rfl

@[simp] theorem isFlat_between (opening closing : String) (d : Doc) :
    (between opening closing d).IsFlat = d.IsFlat := by
  simp [between]

@[simp] theorem inline_append (isPretty : Bool) (a b : Doc) :
    (a ++ b).inline isPretty = a.inline isPretty ++ b.inline isPretty := rfl

@[simp] theorem inline_empty (isPretty : Bool) : empty.inline isPretty = [] := rfl

@[simp] theorem inline_text (isPretty : Bool) (s : String) :
    (text s).inline isPretty = s.toList := rfl

@[simp] theorem inline_softSpace (isPretty : Bool) : softSpace.inline isPretty = gap isPretty := rfl

@[simp] theorem inline_mark (isPretty : Bool) (span : Span) : (mark span).inline isPretty = [] :=
  rfl

@[simp] theorem inline_comments (isPretty : Bool) (span : Span) :
    (comments span).inline isPretty = [] := rfl

@[simp] theorem inline_space (isPretty : Bool) : space.inline isPretty = [' '] := rfl

@[simp] theorem inline_spaceIf (isPretty b : Bool) :
    (spaceIf b).inline isPretty = gap (b || isPretty) := by
  cases b <;> rfl

@[simp] theorem inline_when (isPretty b : Bool) (d : Doc) :
    (when b d).inline isPretty = if b then d.inline isPretty else [] := by
  cases b <;> rfl

@[simp] theorem inline_reject (isPretty b : Bool) (kind : NodeKind) :
    (reject b kind).inline isPretty = [] := by
  cases b <;> rfl

@[simp] theorem inline_ite (isPretty b : Bool) (d e : Doc) :
    (if b then d else e).inline isPretty = if b then d.inline isPretty else e.inline isPretty := by
  cases b <;> rfl

@[simp] theorem inline_between (isPretty : Bool) (opening closing : String) (d : Doc) :
    (between opening closing d).inline isPretty =
      opening.toList ++ d.inline isPretty ++ closing.toList := rfl

/-! ### Lists with commas -/

/-- A format that keeps a list on one line, with commas between its items. -/
structure IsCommaLine (f : ListFormat) : Prop where
  lines : f.lines = .single
  isIndented : f.isIndented = false
  delimiter : f.delimiter = .comma
  siblings : f.spaceBetweenSiblings = true
  braces : f.spaceBetweenBraces = false
  optional : f.isOptionalIfEmpty = false

/-- The texts of some items, each with a comma in front of it. -/
def commaText (isPretty : Bool) : List Item → List Char
  | [] => []
  | item :: items => ',' :: (gap isPretty ++ item.doc.inline isPretty ++ commaText isPretty items)

/-- The texts of some items with commas between them. -/
def joined (isPretty : Bool) : List Item → List Char
  | [] => []
  | item :: items => item.doc.inline isPretty ++ commaText isPretty items

variable {f : ListFormat}

theorem breakOr_siblings (h : IsCommaLine f) (previous next : Span) :
    breakOr (f.breaksBetween previous next) f.spaceBetweenSiblings = softSpace := by
  simp [ListFormat.breaksBetween, h.lines, breakOr, h.siblings]

theorem isFlat_listItem (item : Item) : (listItem f item).IsFlat = item.doc.IsFlat := by
  simp [listItem]

theorem inline_listItem (isPretty : Bool) (item : Item) :
    (listItem f item).inline isPretty = item.doc.inline isPretty := by
  simp [listItem]

theorem isFlat_listTail (h : IsCommaLine f) : ∀ (previous : Span) (items : List Item),
    (listTail f previous items).IsFlat = items.all fun item => item.doc.IsFlat
  | _, [] => rfl
  | _, item :: items => by
    simp [listTail, breakOr_siblings h, isFlat_listItem, isFlat_listTail h item.span items]

theorem inline_listTail (h : IsCommaLine f) (isPretty : Bool) :
    ∀ (previous : Span) (items : List Item),
      (listTail f previous items).inline isPretty = commaText isPretty items
  | _, [] => rfl
  | _, item :: items => by
    simp [listTail, breakOr_siblings h, inline_listItem, commaText, h.delimiter, Delimiter.text,
      inline_listTail h isPretty item.span items]

theorem isFlat_list (h : IsCommaLine f) (parent : Span) (items : List Item) :
    (list parent f items).IsFlat = items.all fun item => item.doc.IsFlat := by
  cases items with
  | nil => simp [list, h.optional, listBody, ListFormat.isMultiLine, h.lines, h.braces]
  | cons item items =>
    simp [list, listBody, ListFormat.breaksBeforeFirst, ListFormat.breaksAfterLast, h.lines,
      h.braces, h.isIndented, breakOr, isFlat_listItem, isFlat_listTail h]

theorem inline_list (h : IsCommaLine f) (isPretty : Bool) (parent : Span) (items : List Item) :
    (list parent f items).inline isPretty =
      (f.brackets.opening.getD "").toList ++ joined isPretty items
        ++ (f.brackets.closing.getD "").toList := by
  cases items with
  | nil => simp [list, h.optional, listBody, ListFormat.isMultiLine, h.lines, h.braces, joined]
  | cons item items =>
    simp [list, listBody, ListFormat.breaksBeforeFirst, ListFormat.breaksAfterLast, h.lines,
      h.braces, h.isIndented, breakOr, inline_listItem, inline_listTail h, joined]

end Doc

theorem isCommaLine_commaList : Doc.IsCommaLine ListFormat.commaListElements :=
  ⟨rfl, rfl, rfl, rfl, rfl, rfl⟩

theorem isCommaLine_callArguments : Doc.IsCommaLine ListFormat.callExpressionArguments :=
  ⟨rfl, rfl, rfl, rfl, rfl, rfl⟩

theorem isCommaLine_newArguments : Doc.IsCommaLine ListFormat.newExpressionArguments :=
  ⟨rfl, rfl, rfl, rfl, rfl, rfl⟩

theorem Doc.listIfAny_some (parent : Span) (f : ListFormat) (items : List Item) :
    listIfAny parent f (some items) = list parent f items := rfl

theorem Doc.listIfAny_newArguments_none (parent : Span) :
    listIfAny parent ListFormat.newExpressionArguments none = empty := rfl

/-! ### Nodes -/

theorem Ident.inline_of_isPlain {name : Ident} (h : name.isPlain = true) (isPretty : Bool) :
    (Emit.ident name).inline isPretty = name.name.toList := by
  simp only [Ident.isPlain, Bool.and_eq_true, Bool.not_eq_true'] at h
  simp [Emit.ident, h.1.2]

theorem Ident.isFlat_of_isPlain {name : Ident} (h : name.isPlain = true) :
    (Emit.ident name).IsFlat = true := by
  simp only [Ident.isPlain, Bool.and_eq_true, Bool.not_eq_true'] at h
  simp [Emit.ident, h.1.2, h.2]

open Doc Emit in
/-- **The document of a plain expression is flat.** -/
theorem Node.isFlat_emit {c : Category} (n : Node c) (h : n.every Node.isPlain = true) :
    n.emit.IsFlat = true := by
  revert h
  apply @Node.rec (fun _ n => n.every Node.isPlain = true → n.emit.IsFlat = true)
    (fun _ ns => ns.every Node.isPlain = true →
      (ns.items.all fun item => item.doc.IsFlat) = true)
  case member =>
    intro span base property isComputed hbase hproperty h
    simp! only [Bool.and_eq_true] at h
    obtain ⟨⟨⟨_, hdot⟩, hb⟩, hp⟩ := h
    cases isComputed with
    | true => simp! [Emit.member, hbase hb, hproperty hp]
    | false =>
      obtain ⟨name, rfl⟩ := isIdent_iff.mp hdot
      simp! [Emit.member, Emit.dotted_ident, hbase hb, Ident.isFlat_of_isPlain hp]
  all_goals intros
  all_goals rename_i h
  all_goals try dsimp! only at h ⊢
  all_goals try simp at h
  all_goals simp [isFlat_list, isCommaLine_commaList, isCommaLine_callArguments,
    isCommaLine_newArguments, listIfAny_some, listIfAny_newArguments_none, keywordBefore,
    assignedValue, Emit.num, Emit.str, Emit.regex, Ident.isFlat_of_isPlain, *]

/-- **A plain expression is printed as its text**, whatever the options. -/
theorem printExpr_plain (e : Node .expr) (options : PrintOptions)
    (h : e.every Node.isPlain = true) :
    ∃ code, printExpr e options = .ok code ∧ code.toList = e.emit.inline options.isFormatted := by
  have hflat := e.isFlat_emit h
  refine ⟨(e.emit.run (.new options)).1.finish.code, ?_, ?_⟩
  · simp only [printExpr, Printer.complete_eq, Doc.failure?_of_isFlat hflat]
    rfl
  · exact Doc.run_flat e.emit (.new options) hflat rfl rfl

/-! ### Texts of nodes -/

/-- The text of a node that stays on one line. -/
def Node.text (isPretty : Bool) {c : Category} (n : Node c) : List Char := n.emit.inline isPretty

/-- The texts of some nodes, each with a comma in front of it. -/
def Nodes.commaText (isPretty : Bool) {c : Category} (ns : Nodes c) : List Char :=
  Doc.commaText isPretty ns.items

/-- The texts of some nodes with commas between them. -/
def Nodes.text (isPretty : Bool) {c : Category} (ns : Nodes c) : List Char :=
  Doc.joined isPretty ns.items

section Equations

open Doc Emit

variable {isPretty : Bool} {span : Span}

theorem Nodes.commaText_cons {c : Category} (n : Node c) (ns : Nodes c) :
    (Nodes.cons n ns).commaText isPretty =
      ',' :: (gap isPretty ++ n.text isPretty ++ ns.commaText isPretty) := rfl

namespace Node

theorem text_this : (Node.this span).text isPretty = "this".toList := rfl

theorem text_null : (Node.null span).text isPretty = "null".toList := rfl

theorem text_bool (value : Bool) :
    (Node.bool span value).text isPretty = (if value then "true" else "false").toList := rfl

theorem text_ident {name : Ident} (h : name.isPlain = true) :
    (Node.ident name).text isPretty = name.name.toList :=
  Ident.inline_of_isPlain h isPretty

theorem text_identPattern {name : Ident} (h : name.isPlain = true) :
    (Node.identPattern name).text isPretty = name.name.toList :=
  Ident.inline_of_isPlain h isPretty

theorem text_exprPattern (e : Node .expr) :
    (Node.exprPattern e).text isPretty = e.text isPretty := rfl

theorem text_num (literal : NumberLit) :
    (Node.num literal).text isPretty = (numeral literal.value).toList := by
  simp! [text, Emit.num]

theorem text_str (literal : StringLit) :
    (Node.str literal).text isPretty = (Text.quoted literal.value).toList := by
  simp! [text, Emit.str]

theorem text_regex (literal : RegexLit) :
    (Node.regex literal).text isPretty =
      '/' :: (literal.pattern.value.toList ++ '/' :: literal.flagChars) := by
  simp! [text, Emit.regex, RegexLit.flagChars]

theorem text_unary (op : UnaryOp) (operand : Node .expr) :
    (Node.unary span op operand).text isPretty =
      op.text.toList ++ (gap (spaceBeforeOperand op operand || (op.isKeyword && isPretty))
        ++ operand.text isPretty) := by
  cases hs : spaceBeforeOperand op operand <;> cases hk : op.isKeyword <;>
    simp! [text, hs, hk, gap]

theorem text_updateBefore (op : UpdateOp) (operand : Node .expr) :
    (Node.update span op true operand).text isPretty =
      op.text.toList ++ operand.text isPretty := rfl

theorem text_updateBehind (op : UpdateOp) (operand : Node .expr) :
    (Node.update span op false operand).text isPretty =
      operand.text isPretty ++ op.text.toList := rfl

theorem text_binary (op : BinaryOp) (left right : Node .expr) :
    (Node.binary span op left right).text isPretty =
      left.text isPretty ++ (gap (spaceBeforeBinary op left || isPretty) ++ (op.text.toList ++
        (gap (spaceAfterBinary op right || isPretty) ++ right.text isPretty))) := by
  simp! [text]

theorem text_assign (op : AssignOp) (target : Node .pattern) (value : Node .expr) :
    (Node.assign span op target value).text isPretty =
      target.text isPretty ++ (gap isPretty ++ (op.text.toList ++
        (gap isPretty ++ value.text isPretty))) := by
  simp! [text, assignedValue, gap]

theorem text_computed (base property : Node .expr) :
    (Node.member span base property true).text isPretty =
      base.text isPretty ++ '[' :: (property.text isPretty ++ [']']) := by
  simp! [text, Emit.member]

theorem text_dotted (base : Node .expr) {name : Ident} (h : name.isPlain = true) :
    (Node.member span base (.ident name) false).text isPretty =
      base.text isPretty ++ ((if isWholeNumeral base then ['.'] else []) ++
        '.' :: name.name.toList) := by
  simp! [text, Emit.member, Emit.dotted_ident, Ident.inline_of_isPlain h]

theorem text_conditional (condition consequent alternate : Node .expr) :
    (Node.conditional span condition consequent alternate).text isPretty =
      condition.text isPretty ++ (gap isPretty ++ '?' :: (gap isPretty ++
        (consequent.text isPretty ++ (gap isPretty ++ ':' :: (gap isPretty ++
          alternate.text isPretty))))) := by
  simp! [text, assignedValue, gap]

theorem text_call (callee : Node .expr) (arguments : Nodes .argument) (types : Option Opaque) :
    (Node.call span callee arguments types).text isPretty =
      callee.text isPretty ++ '(' :: (arguments.text isPretty ++ [')']) := by
  simp! [text, Nodes.text, inline_list isCommaLine_callArguments]
  rfl

theorem text_new (callee : Node .expr) (arguments : Nodes .argument) (types : Option Opaque) :
    (Node.new span callee arguments types).text isPretty =
      "new".toList ++ (gap (callee.startsWord || isPretty) ++ (callee.text isPretty ++
        '(' :: (arguments.text isPretty ++ [')']))) := by
  simp! [text, Nodes.text, keywordBefore, listIfAny_some, inline_list isCommaLine_newArguments]
  rfl

theorem text_newBare (callee : Node .expr) (types : Option Opaque) :
    (Node.newBare span callee types).text isPretty =
      "new".toList ++ (gap (callee.startsWord || isPretty) ++ callee.text isPretty) := by
  simp! [text, keywordBefore, listIfAny_newArguments_none]

theorem text_sequence (expressions : Nodes .expr) :
    (Node.sequence span expressions).text isPretty = expressions.text isPretty := by
  simp! [text, Nodes.text, inline_list isCommaLine_commaList,
    show ListFormat.commaListElements.brackets = .none from rfl]

end Node

end Equations

end EcmaPrinter
