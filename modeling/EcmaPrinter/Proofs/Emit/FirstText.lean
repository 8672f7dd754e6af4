/-
# Every marked node starts with a text

The first thing that happens behind the mark of a node, further marks and comments
apart, is that a text is written: no line is broken and no level is entered first.
This needs that there is something to write (`Node.isInked`): no name is empty, no
sequence is without expressions, and no expression is the empty one of JSX.

It is shown by induction along the first parts of nodes
(`Node.emit_startsText`).

Key definitions: `Node.isInked`.
Key theorems: `Node.emit_startsText`, `Marked.doc_startsText`.
-/
import EcmaPrinter.Proofs.Emit.Placement
import EcmaPrinter.Proofs.Emit.Support
import EcmaPrinter.Proofs.Layout.Positions
import EcmaPrinter.Proofs.Lexical.Numerals

namespace EcmaPrinter

namespace Doc

open Step

variable {ss : List Step}

/-- A check is not in the way. -/
@[simp] theorem startsText_check {b : Bool} {e : EmitError} :
    startsText ((check b e).steps ++ ss) = (!b || startsText ss) := by
  cases b <;> rfl

@[simp] theorem startsText_reject {b : Bool} {kind : NodeKind} :
    startsText ((reject b kind).steps ++ ss) = (b || startsText ss) := by
  cases b <;> rfl

@[simp] theorem startsText_reject_true {kind : NodeKind} :
    startsText (reject true kind).steps = true := rfl

@[simp] theorem startsText_between {opening closing : String} {d : Doc}
    (h : opening.isEmpty = false) : startsText (between opening closing d).steps = true := by
  simp [between, h]

/-- A list starts with its bracket. -/
theorem startsText_list {parent : Span} {f : ListFormat} {items : List Item}
    (hopening : (f.brackets.opening.getD "").isEmpty = false) (h : f.isOptionalIfEmpty = false) :
    startsText (list parent f items).steps = true := by
  simp [list, h, hopening]

/-- Names with commas between them and nothing around them start with the first one. -/
theorem startsText_commaList {parent : Span} {first : Item} {rest : List Item}
    (h : startsText first.doc.steps = true) :
    startsText (list parent ListFormat.commaListElements (first :: rest)).steps = true := by
  have hitem : startsText (listItem ListFormat.commaListElements first).steps = true := h
  have hbreak : (breakOr (ListFormat.commaListElements.breaksBeforeFirst parent first.span)
      ListFormat.commaListElements.spaceBetweenBraces).steps = [] := rfl
  have hindent : ListFormat.commaListElements.isIndented = false := rfl
  simp [list, listBody, hbreak, hindent, hitem]

end Doc

/-! ### Texts that are not empty -/

theorem UnaryOp.isEmpty_text (op : UnaryOp) : op.text.isEmpty = false := by
  cases op <;> decide

theorem UpdateOp.isEmpty_text (op : UpdateOp) : op.text.isEmpty = false := by
  cases op <;> decide

theorem BindingKind.isEmpty_text (kind : BindingKind) : kind.text.isEmpty = false := by
  cases kind <;> decide

theorem isEmpty_quoted (value : String) : (Text.quoted value).isEmpty = false := by
  rw [Bool.eq_false_iff]
  intro h
  have := congrArg String.toList (String.isEmpty_iff.mp h)
  simp [Text.quoted] at this

theorem isEmpty_numeral (x : Binary64) : (numeral x).isEmpty = false := by
  obtain ⟨c, cs, htext, -⟩ := numeral_head x
  rw [Bool.eq_false_iff]
  intro h
  rw [String.isEmpty_iff.mp h] at htext
  cases htext

/-! ### Nodes -/

/-- A node that has something to write: its names are not empty, a sequence has an
expression, and it is not the empty expression of JSX. -/
def Node.isInked : {c : Category} → Node c → Bool
  | _, .jsxEmpty _ => false
  | _, .sequence _ expressions => !expressions.isEmpty
  | _, n => n.names.all fun name => !name.name.isEmpty

/-- The categories of nodes that are marked, and of the parts they start with. -/
def Category.isHeaded : Category → Bool
  | .expr | .pattern | .stmt | .rest | .functionExpr | .classExpr | .block | .decl | .varDecl => true
  | _ => false

open Category in
@[simp] theorem Category.isHeaded_categories :
    expr.isHeaded = true ∧ pattern.isHeaded = true ∧ rest.isHeaded = true ∧
      functionExpr.isHeaded = true ∧ classExpr.isHeaded = true ∧ block.isHeaded = true ∧
      decl.isHeaded = true ∧ varDecl.isHeaded = true := by
  decide

namespace Emit

open Doc Step

variable {ss : List Step}

@[simp] theorem startsText_ident {name : Ident} (h : name.name.isEmpty = false) :
    startsText (ident name).steps = true := by
  simp [ident, h]

@[simp] theorem startsText_privateName (name : PrivateName) :
    startsText (privateName name).steps = true := by
  simp [privateName]

@[simp] theorem startsText_str (literal : StringLit) : startsText (str literal).steps = true := by
  simp [str, isEmpty_quoted]

@[simp] theorem startsText_num (literal : NumberLit) : startsText (num literal).steps = true := by
  simp [num, isEmpty_numeral]

@[simp] theorem startsText_regex (literal : RegexLit) :
    startsText (regex literal).steps = true := by
  simp [regex]

@[simp] theorem startsText_template (quasis : List Quasi) (items : List Item) :
    startsText (template quasis items).steps = true := by
  simp [template]

@[simp] theorem startsText_member {object property : Expr} {isComputed : Bool} {d d' : Doc}
    (h : startsText d.steps = true) :
    startsText (member object property isComputed d d').steps = true := by
  simp [member, h]

@[simp] theorem startsText_parensIf {condition : Bool} {d : Doc} (h : startsText d.steps = true) :
    startsText (parensIf condition d).steps = true := by
  cases condition <;> simp [parensIf, between, h]

@[simp] theorem startsText_keywordBefore {c : Category} {keyword : String} {next : Node c} {d : Doc}
    (h : keyword.isEmpty = false) : startsText (keywordBefore keyword next d).steps = true := by
  simp [keywordBefore, h]

@[simp] theorem startsText_functionKeyword (f : Node .function) :
    startsText (functionKeyword f).steps = true := by
  cases h : isAsync f <;> simp [functionKeyword, when, h]

@[simp] theorem startsText_namedClass (name : Option Ident) (k : Node .klass) (d : Doc) :
    startsText (namedClass name k d).steps = true := by
  cases k
  simp [namedClass, rejectClass]

@[simp] theorem startsText_headed {keyword : String} {d : Doc} (h : keyword.isEmpty = false) :
    startsText (headed keyword d).steps = true := by
  simp [headed, h]

@[simp] theorem startsText_jump {keyword : String} {label : Option Ident} (h : keyword.isEmpty = false) :
    startsText (jump keyword label).steps = true := by
  simp [jump, h]

@[simp] theorem startsText_bindingKeyword (kind : BindingKind) (ds : Nodes .declarator) :
    startsText (bindingKeyword kind ds).steps = true := by
  cases ds with
  | nil => rfl
  | cons d ds =>
    cases d
    simp [bindingKeyword, kind.isEmpty_text]

end Emit

open Doc Step

/-- **A node starts with a text**, if it is marked or stands at the start of a node that
is, and there is something to write in it. -/
theorem Node.emit_startsText {c : Category} (n : Node c) (hc : c.isHeaded = true)
    (h : n.every Node.isInked = true) : startsText n.emit.steps = true := by
  revert hc h
  apply @Node.rec
    (fun c n => c.isHeaded = true → n.every Node.isInked = true → startsText n.emit.steps = true)
    (fun c ns => c.isHeaded = true → ns.every Node.isInked = true →
      ∀ item ∈ ns.items, startsText item.doc.steps = true)
  case nil => exact fun _ _ item hitem => nomatch hitem
  case cons =>
    intro c n ns hn hns hc h
    obtain ⟨h, h'⟩ := Bool.and_eq_true_iff.mp h
    exact List.forall_mem_cons.mpr ⟨hn hc h, hns hc h'⟩
  all_goals intros
  all_goals rename_i hc h
  -- what never stands at the start of a marked node
  all_goals try cases hc
  all_goals dsimp! only at h ⊢
  all_goals try simp only [Bool.and_eq_true, Bool.not_eq_true', and_true] at h
  case update isPrefix _ ih =>
    cases isPrefix <;> simp [UpdateOp.isEmpty_text, ih rfl h]
  case sequence expressions ih =>
    cases expressions with
    | nil => cases h.1
    | cons first rest =>
      exact startsText_commaList (ih rfl h.2 ⟨first.span, first.emit⟩ (List.mem_cons_self ..))
  case exprStmt e ih =>
    exact startsText_append (Emit.startsText_parensIf (ih rfl h))
  case bool value => cases value <;> rfl
  case arrow isAsync _ _ _ _ _ =>
    cases isAsync <;> simp [when, startsText_list (f := ListFormat.parameters) rfl rfl]
  all_goals simp [UnaryOp.isEmpty_text,
    startsText_list (f := ListFormat.arrayLiteralExpressionElements) rfl rfl,
    startsText_list (f := ListFormat.objectLiteralExpressionProperties) rfl rfl,
    startsText_list (f := ListFormat.arrayBindingPatternElements) rfl rfl,
    startsText_list (f := ListFormat.objectBindingPatternElements) rfl rfl,
    startsText_list (f := ListFormat.multiLineBlockStatements) rfl rfl, *]

theorem ModuleDecl.emit_startsText (d : ModuleDecl) : startsText d.emit.steps = true := by
  cases d with
  | importDecl span specifiers source => simp [emit, Emit.importDecl]
  | exportNamed span specifiers source => simp [emit, Emit.exportNamed]
  | exportDecl _ _ | exportDefaultDecl _ _ | exportDefaultExpr _ _ | exportAll _ _ => simp [emit]
  | typeModule form payload => rfl

/-- **What is marked starts with a text.** -/
theorem Marked.doc_startsText {n : Marked} (h : n.every Node.isInked = true) :
    startsText n.doc.steps = true := by
  cases n with
  | expr e => exact Node.emit_startsText e rfl h
  | pattern p => exact Node.emit_startsText p rfl h
  | stmt s => exact Node.emit_startsText s rfl h
  | decl d => exact d.emit_startsText

end EcmaPrinter
