/-
# Keywords do not merge with what follows

A blank is written behind a keyword where the next node is judged to start with a
character of a word (`Node.startsWord`). The judgement is made by a recursion of
its own, which has to foresee the first character that is really written, also for
nodes that write nothing.

It is shown by induction over the tree that no text of a node continues a word in
front of it, except the first one of a node that is judged so (`Node.Tidy`). What
stands in front of a node is one bit, so the induction is over both values of it.
Statements, members of classes and cases follow each other without a delimiter; they
never end in a word (`Category.isClosed`).

Key definitions: `Node.opensWord`, `Node.closes`, `Node.Tidy`.
Key theorems: `Node.emit_tidy`, `Emission.merges_doc`, `keywords_never_merge`.
-/
import EcmaPrinter.Proofs.Emit.Joints

namespace EcmaPrinter

open Doc Step

/-! ### Texts -/

theorem UnaryOp.startsWordy_text (op : UnaryOp) : startsWordy op.text = op.isKeyword := by
  cases op <;> rfl

theorem UnaryOp.wordyAfter_text (w : Bool) (op : UnaryOp) :
    wordyAfter w op.text = op.isKeyword := by
  cases op <;> rfl

theorem UpdateOp.startsWordy_text (op : UpdateOp) : startsWordy op.text = false := by
  cases op <;> rfl

theorem UpdateOp.wordyAfter_text (w : Bool) (op : UpdateOp) : wordyAfter w op.text = false := by
  cases op <;> rfl

theorem BinaryOp.startsWordy_text (op : BinaryOp) : startsWordy op.text = op.isKeyword := by
  cases op <;> rfl

theorem BinaryOp.wordyAfter_text (w : Bool) (op : BinaryOp) :
    wordyAfter w op.text = op.isKeyword := by
  cases op <;> rfl

theorem AssignOp.startsWordy_text (op : AssignOp) : startsWordy op.text = false := by
  cases op <;> rfl

theorem AssignOp.wordyAfter_text (w : Bool) (op : AssignOp) : wordyAfter w op.text = false := by
  cases op <;> rfl

theorem BindingKind.wordyAfter_text (w : Bool) (kind : BindingKind) :
    wordyAfter w kind.text = true := by
  cases kind <;> rfl

theorem startsWordy_quoted (value : String) : startsWordy (Text.quoted value) = false := by
  rcases Lexical.chooseQuote_cases value.toList with h | h <;>
    simp [startsWordy, Text.quoted, h] <;> decide

/-! ### What is expected of a node -/

/-- The categories whose nodes are judged by their first character. -/
def Category.isJudged : Category → Bool
  | .expr | .pattern | .stmt | .decl | .argument | .arrowBody | .forInit | .forTarget => true
  | _ => false

/-- The categories whose nodes start with a bracket, dots or a blank. -/
def Category.startsPlain : Category → Bool
  | .spread | .rest | .block | .function | .klass => true
  | _ => false

/-- The categories whose nodes never end in a word. -/
def Category.isClosed : Category → Bool
  | .stmt | .block | .decl | .function | .functionExpr | .klass | .classExpr | .classMember
  | .switchCase | .catchClause => true
  | _ => false

namespace Category

theorem isJudged_categories :
    expr.isJudged = true ∧ pattern.isJudged = true ∧ stmt.isJudged = true ∧ decl.isJudged = true ∧
      argument.isJudged = true ∧ arrowBody.isJudged = true ∧ forInit.isJudged = true ∧
      forTarget.isJudged = true := by
  decide

theorem startsPlain_categories :
    spread.startsPlain = true ∧ rest.startsPlain = true ∧ block.startsPlain = true ∧
      function.startsPlain = true ∧ klass.startsPlain = true := by
  decide

theorem isClosed_categories :
    stmt.isClosed = true ∧ block.isClosed = true ∧ decl.isClosed = true ∧
      function.isClosed = true ∧ functionExpr.isClosed = true ∧ klass.isClosed = true ∧
      classExpr.isClosed = true ∧ classMember.isClosed = true ∧ switchCase.isClosed = true ∧
      catchClause.isClosed = true := by
  decide

end Category

namespace Node

/-- A node that may start with a character of a word. One that is not judged, and does not
start with a symbol, only follows other characters. -/
def opensWord : {c : Category} → Node c → Bool
  | _, .absent => false
  | _, .present n => n.opensWord
  | _, .declarator _ target _ _ => target.startsWord
  | c, n => !c.startsPlain && (!c.isJudged || n.startsWord)

/-- A node that never ends in a word. -/
def closes : {c : Category} → Node c → Bool
  | _, .absent => false
  | _, .present n => n.closes
  | c, _ => c.isClosed

/-- No text of a node continues a word, unless the node is judged to do so, and one that
closes does not end in a word. -/
def Tidy {c : Category} (n : Node c) : Prop :=
  ∀ w g, (w && n.opensWord) = false →
    n.emit.merges w g = false ∧ (n.closes = true → n.emit.word w = false)

theorem opensWord_of_isJudged {c : Category} (n : Node c) (h : c.isJudged = true) :
    n.opensWord = n.startsWord := by
  cases n <;> first | rfl | cases h

/-- What starts with a bracket, dots or a blank does not start a word. -/
theorem opensWord_of_startsPlain {c : Category} (n : Node c) (h : c.startsPlain = true) :
    n.opensWord = false := by
  cases n <;> first | rfl | cases h

theorem closes_of_isClosed {c : Category} (n : Node c) (h : c.isClosed = true) :
    n.closes = true := by
  cases n <;> first | rfl | cases h

namespace Tidy

variable {c : Category} {n : Node c} {w g : Bool} (h : n.Tidy)
include h

/-- Behind a text that does not end in a word. -/
theorem merges_false : n.emit.merges false g = false := (h false g rfl).1

theorem word_false (hc : c.isClosed = true) : n.emit.word false = false :=
  (h false false rfl).2 (n.closes_of_isClosed hc)

/-- Behind a word that the node is judged not to continue. -/
theorem merges_judged (hc : c.isJudged = true) (hw : (w && n.startsWord) = false) :
    n.emit.merges w g = false :=
  (h w g (by rw [n.opensWord_of_isJudged hc, hw])).1

theorem word_judged (hc : c.isJudged = true) (hclosed : c.isClosed = true)
    (hw : (w && n.startsWord) = false) : n.emit.word w = false :=
  (h w false (by rw [n.opensWord_of_isJudged hc, hw])).2 (n.closes_of_isClosed hclosed)

/-- A part that is refused changes nothing about that. -/
theorem merges_refused (hc : c.isJudged = true) (hw : (w && n.startsWord) = false) (b : Bool) :
    n.emit.merges (w && b) g = false := by
  refine h.merges_judged hc ?_
  rw [Bool.and_right_comm, hw, Bool.false_and]

/-- Behind the blank that the node asks for. -/
theorem merges_gap (hc : c.isJudged = true) : n.emit.merges (w && !n.startsWord) g = false := by
  refine h.merges_judged hc ?_
  rw [Bool.and_assoc, Bool.not_and_self, Bool.and_false]

theorem word_gap (hc : c.isJudged = true) (hclosed : c.isClosed = true) :
    n.emit.word (w && !n.startsWord) = false := by
  refine h.word_judged hc hclosed ?_
  rw [Bool.and_assoc, Bool.not_and_self, Bool.and_false]

/-- Behind anything. -/
theorem merges_plain (hc : c.startsPlain = true) : n.emit.merges w g = false :=
  (h w g (by rw [n.opensWord_of_startsPlain hc, Bool.and_false])).1

theorem word_plain (hc : c.startsPlain = true) (hclosed : c.isClosed = true) :
    n.emit.word w = false :=
  (h w false (by rw [n.opensWord_of_startsPlain hc, Bool.and_false])).2 (n.closes_of_isClosed hclosed)

end Tidy

end Node

namespace Nodes

theorem mem_items {c : Category} : ∀ {ns : Nodes c} {item : Item},
    item ∈ ns.items → ∃ n ∈ ns.toList, item = ⟨n.span, n.emit⟩
  | .cons n ns, item, h => by
    rcases List.mem_cons.mp h with h | h
    · exact ⟨n, List.mem_cons_self .., h⟩
    · obtain ⟨m, hm, he⟩ := mem_items h
      exact ⟨m, List.mem_cons_of_mem _ hm, he⟩

variable {c : Category} {ns : Nodes c} (h : ∀ n ∈ ns.toList, n.Tidy)
include h

theorem merges_items : ∀ item ∈ ns.items, ∀ g, item.doc.merges false g = false := by
  intro item hitem g
  obtain ⟨n, hn, rfl⟩ := mem_items hitem
  exact (h n hn).merges_false

theorem follows_items (hc : c.isClosed = true) :
    ∀ item ∈ ns.items, item.doc.Follows false .none := by
  intro item hitem
  obtain ⟨n, hn, rfl⟩ := mem_items hitem
  exact ⟨fun _ => (h n hn).merges_false, fun _ => (h n hn).word_false hc⟩

end Nodes

/-! ### Phrases -/

namespace Emit

/-- Symbols do not continue a word. -/
theorem startsWordy_symbols :
    startsWordy "(" = false ∧ startsWordy "[" = false ∧ startsWordy ";" = false ∧
      startsWordy ":" = false ∧ startsWordy "," = false ∧ startsWordy "=" = false ∧
      startsWordy "?" = false ∧ startsWordy "." = false ∧ startsWordy "..." = false ∧
      startsWordy "=>" = false ∧ startsWordy "/" = false ∧ startsWordy "`" = false ∧
      startsWordy "\x7d" = false ∧ startsWordy "#" = false ∧
      startsWordy "()" = false ∧ startsWordy " " = false ∧ startsWordy "*" = false ∧
      startsWordy ")" = false ∧ startsWordy "]" = false := by
  decide

theorem wordyAfter_symbols (w : Bool) :
    wordyAfter w "(" = false ∧ wordyAfter w "[" = false ∧ wordyAfter w ";" = false ∧
      wordyAfter w ":" = false ∧ wordyAfter w "," = false ∧ wordyAfter w "=" = false ∧
      wordyAfter w "?" = false ∧ wordyAfter w "." = false ∧ wordyAfter w "..." = false ∧
      wordyAfter w "=>" = false ∧ wordyAfter w "/" = false ∧ wordyAfter w "`" = false ∧
      wordyAfter w "$\x7b" = false ∧ wordyAfter w "\x7d" = false ∧ wordyAfter w "#" = false ∧
      wordyAfter w "()" = false ∧ wordyAfter w " " = false ∧ wordyAfter w "*" = false ∧
      wordyAfter w ")" = false ∧ wordyAfter w "]" = false := by
  cases w <;> decide

variable {g : Bool}

@[simp] theorem merges_ident (name : Ident) : (ident name).merges false g = false := by
  simp [ident, startsWordy_symbols]

@[simp] theorem merges_privateName {w : Bool} (name : PrivateName) :
    (privateName name).merges w g = false := by
  simp [privateName, startsWordy_symbols, wordyAfter_symbols]

@[simp] theorem merges_dotted (property : Node .expr) :
    (dotted property).merges false g = false := by
  cases property with
  | ident name => exact merges_ident name
  | privateName name => exact merges_privateName name
  | _ => rfl

/-- A text of a template may end in a word, but no blank is left out behind it. -/
theorem merges_interleave : ∀ {w g : Bool} (quasis : List Quasi) {items : List Item},
    (w && g) = false → (∀ item ∈ items, ∀ g, item.doc.merges false g = false) →
    (interleave quasis items).merges w g = false
  | _, _, [], _, _, _ => rfl
  | _, _, quasi :: quasis, [], hwg, h => by
    have hnext := wordyAfter_and_gap hwg quasi.raw.value
    simp [interleave, hwg, merges_interleave quasis hnext h]
  | _, _, quasi :: quasis, e :: es, hwg, h => by
    have hnext := wordyAfter_and_gap hwg quasi.raw.value
    rw [List.forall_mem_cons] at h
    simp [interleave, hwg, hnext, h.1, startsWordy_symbols, wordyAfter_symbols,
      merges_interleave quasis (Bool.false_and _) h.2]

theorem merges_template {w : Bool} (quasis : List Quasi) {items : List Item}
    (h : ∀ item ∈ items, ∀ g, item.doc.merges false g = false) :
    (template quasis items).merges w g = false := by
  simp [template, startsWordy_symbols, wordyAfter_symbols,
    merges_interleave quasis (Bool.false_and _) h]

theorem merges_closeHole (isHole : Bool) : ∀ {items : List Item},
    (∀ item ∈ items, ∀ g, item.doc.merges false g = false) →
    ∀ item ∈ closeHole isHole items, ∀ g, item.doc.merges false g = false
  | [], h => h
  | [item], h => by
    cases isHole with
    | false => exact h
    | true => simp [closeHole]
  | item :: next :: items, h => by
    rw [List.forall_mem_cons] at h
    exact List.forall_mem_cons.mpr ⟨h.1, merges_closeHole isHole h.2⟩

@[simp] theorem word_functionKeyword {w : Bool} (f : Node .function) :
    (functionKeyword f).word w = !isGenerator f := by
  cases h : isGenerator f <;> simp [functionKeyword, h] <;> rfl

@[simp] theorem merges_functionKeyword (f : Node .function) :
    (functionKeyword f).merges false g = false := by
  simp [functionKeyword, startsWordy_symbols]

@[simp] theorem merges_functionName (f : Node .function) (name : Option Ident) :
    (functionName f name).merges (!isGenerator f) g = false := by
  cases name <;> simp [functionName, functionNameGap]

/-- The blank behind a unary operator that is a keyword. -/
theorem operandGap_of_isKeyword {op : UnaryOp} (h : op.isKeyword = true) (operand : Node .expr) :
    (if spaceBeforeOperand op operand then space else when op.isKeyword .softSpace) =
      spaceIf operand.startsWord := by
  cases op <;> first | rfl | cases h

@[simp] theorem quiet_methodWords (f : Node .function) :
    (∀ g, (methodWords f).merges false g = false) ∧ (methodWords f).word false = false := by
  simp [methodWords, startsWordy_symbols, wordyAfter_symbols]

@[simp] theorem quiet_methodLead (traits : MethodTraits) (f : Node .function) :
    (∀ g, (methodLead traits f).merges false g = false) ∧
      (methodLead traits f).word false = false := by
  cases h : traits.kind <;> simp [methodLead, h]

@[simp] theorem quiet_needsBody (owner : BodyOwner) (body : Node (.opt .block)) :
    (∀ w g, (needsBody owner body).merges w g = false) ∧
      (needsBody owner body).word false = false := by
  cases body <;> exact ⟨fun _ _ => rfl, rfl⟩

@[simp] theorem quiet_rejectModifiers (accessibility : Option Accessibility)
    (isAbstract isOptional : Bool) :
    (∀ g, (rejectModifiers accessibility isAbstract isOptional).merges false g = false) ∧
      (rejectModifiers accessibility isAbstract isOptional).word false = false := by
  simp [rejectModifiers]

@[simp] theorem quiet_rejectTraits (decorators : Nodes .decorator) (traits : PropertyTraits) :
    (∀ g, (rejectTraits decorators traits).merges false g = false) ∧
      (rejectTraits decorators traits).word false = false := by
  simp [rejectTraits]

@[simp] theorem quiet_rejectClass (k : Node .klass) :
    (∀ g, (rejectClass k).merges false g = false) ∧ (rejectClass k).word false = false := by
  cases k
  simp [rejectClass]

@[simp] theorem quiet_checkBindings (head : ForHead) (target : Node .forTarget) :
    (∀ g, (checkBindings head target).merges false g = false) ∧
      (checkBindings head target).word false = false := by
  cases target with
  | varTarget v =>
    cases v
    simp [checkBindings]
  | patternTarget p => exact ⟨fun _ => rfl, rfl⟩

theorem merges_keywordBefore {c : Category} {n : Node c} (h : n.Tidy) (hc : c.isJudged = true)
    (keyword : String) : (keywordBefore keyword n n.emit).merges false g = false := by
  simp [keywordBefore, h.merges_gap hc]

theorem word_keywordBefore {c : Category} {n : Node c} (h : n.Tidy) (hc : c.isJudged = true)
    (hclosed : c.isClosed = true) {w : Bool} (keyword : String) :
    (keywordBefore keyword n n.emit).word w = false := by
  simp [keywordBefore, h.word_gap hc hclosed]

theorem quiet_namedClass (name : Option Ident) {k : Node .klass} (h : k.Tidy) :
    (∀ g, (namedClass name k k.emit).merges false g = false) ∧
      (namedClass name k k.emit).word false = false := by
  have hk : (∀ w g, k.emit.merges w g = false) ∧ ∀ w, k.emit.word w = false :=
    ⟨fun _ _ => h.merges_plain rfl, fun _ => h.word_plain rfl rfl⟩
  cases name <;> simp [namedClass, hk]

theorem quiet_jump (keyword : String) (label : Option Ident) :
    (∀ g, (jump keyword label).merges false g = false) ∧
      (jump keyword label).word false = false := by
  cases label <;> simp [jump, startsWordy_symbols, wordyAfter_symbols]

theorem quiet_caseBody (span : Span) {items : List Item}
    (h : ∀ item ∈ items, item.doc.Follows false .none) :
    (∀ g, (caseBody span items).merges false g = false) ∧
      (caseBody span items).word false = false := by
  have hlist (f : ListFormat) (hd : f.delimiter = .none) :
      (∀ g, (list span f items).merges false g = false) ∧
        (list span f items).word false = false :=
    ⟨fun _ => merges_closed (Bool.false_and _) h, word_closed hd h⟩
  have hone := hlist ListFormat.caseOrDefaultClauseStatements.onOneLine rfl
  have hmany := hlist ListFormat.caseOrDefaultClauseStatements rfl
  unfold caseBody
  dsimp only
  split
  all_goals
    split <;> simp [hone, hmany]

/-! Places that may be empty. -/

section Places

variable {w : Bool}

theorem word_place {c : Category} {place : Node (.opt c)} (h : place.Tidy)
    (hc : c.isClosed = true) : place.emit.word false = false := by
  cases place with
  | absent => rfl
  | present n => exact Node.Tidy.word_false (n := n) h hc

theorem merges_initializer {value : Node (.opt .expr)} (h : value.Tidy) :
    (initializer value value.emit).merges w g = false := by
  cases value with
  | absent => rfl
  | present e =>
    simp [initializer, assignedValue, startsWordy_symbols, wordyAfter_symbols, h.merges_false]

theorem merges_operandAfter {argument : Node (.opt .expr)} (h : argument.Tidy) :
    (operandAfter argument argument.emit).merges w g = false := by
  cases argument with
  | absent => rfl
  | present e =>
    change (spaceIf e.startsWord ++ e.emit).merges w g = false
    simp [Node.Tidy.merges_gap (n := e) h rfl]

theorem merges_yieldArgument {isDelegate : Bool} {argument : Node (.opt .expr)}
    (h : argument.Tidy) (hw : (w && isDelegate) = false) :
    (yieldArgument isDelegate argument argument.emit).merges w g = false := by
  cases argument with
  | absent => rfl
  | present e =>
    cases isDelegate with
    | true =>
      obtain rfl : w = false := by simpa using hw
      simp [yieldArgument, h.merges_false]
    | false => exact merges_operandAfter h

theorem merges_arrowBody {body : Node .arrowBody} (h : body.Tidy) :
    (arrowBody body body.emit).merges false g = false := by
  cases body with
  | blockBody b => exact h.merges_false
  | exprBody e =>
    have he {g : Bool} : e.emit.merges false g = false := h.merges_false (n := .exprBody e)
    change (parensIf (bodyNeedsParens e) e.emit).merges false g = false
    cases bodyNeedsParens e <;>
      simp [parensIf, between, he, startsWordy_symbols, wordyAfter_symbols]

theorem merges_heritage {superClass : Node (.opt .expr)} (h : superClass.Tidy) :
    (heritage superClass superClass.emit).merges w g = false := by
  cases superClass with
  | absent => rfl
  | present e =>
    change (space ++ keywordBefore "extends" e e.emit).merges w g = false
    simp [merges_keywordBefore (n := e) h rfl]

theorem merges_spaced {c : Category} {place : Node (.opt c)} (h : place.Tidy) :
    (spaced place place.emit).merges false g = false := by
  cases place with
  | absent => rfl
  | present n => simp [spaced, h.merges_false]

theorem word_spaced {c : Category} {place : Node (.opt c)} (h : place.Tidy)
    (hc : c.isClosed = true) : (spaced place place.emit).word false = false := by
  cases place with
  | absent => rfl
  | present n => simp [spaced, word_place h hc]

theorem quiet_finallyBlock {finalizer : Node (.opt .block)} (h : finalizer.Tidy) :
    (∀ g, (finallyBlock finalizer finalizer.emit).merges false g = false) ∧
      (finallyBlock finalizer finalizer.emit).word false = false := by
  cases finalizer with
  | absent => exact ⟨fun _ => rfl, rfl⟩
  | present b =>
    have hb : (∀ w g, b.emit.merges w g = false) ∧ ∀ w, b.emit.word w = false :=
      ⟨fun _ _ => Node.Tidy.merges_plain h rfl, fun _ => Node.Tidy.word_plain h rfl rfl⟩
    change (∀ g, (.softSpace ++ "finally" ++ .softSpace ++ b.emit).merges false g = false) ∧
      (.softSpace ++ "finally" ++ .softSpace ++ b.emit).word false = false
    simp [hb]

theorem quiet_elseBranch {consequent : Stmt} {alternate : Node (.opt .stmt)} (h : alternate.Tidy) :
    (∀ g, (elseBranch consequent alternate alternate.emit).merges false g = false) ∧
      (elseBranch consequent alternate alternate.emit).word false = false := by
  cases alternate with
  | absent => exact ⟨fun _ => rfl, rfl⟩
  | present s =>
    have hs : (∀ g, (keywordBefore "else" s s.emit).merges false g = false) ∧
        (keywordBefore "else" s s.emit).word false = false :=
      ⟨fun _ => merges_keywordBefore (n := s) h rfl _, word_keywordBefore (n := s) h rfl rfl _⟩
    change (∀ g, (when (isBlock consequent) .softSpace
        ++ keywordBefore "else" s s.emit).merges false g = false) ∧
      (when (isBlock consequent) .softSpace ++ keywordBefore "else" s s.emit).word false = false
    simp [hs]

theorem merges_catchParam {param : Node (.opt .pattern)} (h : param.Tidy) :
    (catchParam param param.emit).merges w g = false := by
  cases param with
  | absent => rfl
  | present p => simp [catchParam, between, startsWordy_symbols, wordyAfter_symbols, h.merges_false]

theorem quiet_caseHead {value : Node (.opt .expr)} (h : value.Tidy) :
    (∀ g, (caseHead value value.emit).merges false g = false) ∧
      (caseHead value value.emit).word false = false := by
  cases value with
  | absent => simp [caseHead, startsWordy_symbols, wordyAfter_symbols]
  | present e =>
    change (∀ g, (keywordBefore "case" e e.emit ++ ":").merges false g = false) ∧
      (keywordBefore "case" e e.emit ++ ":").word false = false
    simp [merges_keywordBefore (n := e) h rfl, startsWordy_symbols, wordyAfter_symbols]

end Places

end Emit

section Tidy

open Emit Category

variable {span : Span}

theorem Node.tidy_unary (op : UnaryOp) {operand : Node .expr} (h : operand.Tidy) :
    (Node.unary span op operand).Tidy := by
  intro w g hw
  dsimp! only at hw ⊢
  cases hk : op.isKeyword with
  | true =>
    obtain rfl : w = false := by simpa [hk] using hw
    have hgap := operandGap_of_isKeyword hk operand
    rw [hk] at hgap
    simp [hgap, op.wordyAfter_text, hk, h.merges_judged, isJudged_categories]
  | false =>
    cases spaceBeforeOperand op operand <;>
      simp [op.startsWordy_text, op.wordyAfter_text, hk, h.merges_false]

theorem Node.tidy_binary (op : BinaryOp) {left right : Node .expr} (hl : left.Tidy)
    (hr : right.Tidy) : (Node.binary span op left right).Tidy := by
  intro w g hw
  dsimp! only at hw ⊢
  have hleft {g : Bool} : left.emit.merges w g = false := hl.merges_judged rfl hw
  cases hk : op.isKeyword with
  | true =>
    simp [hleft, spaceBeforeBinary_of_isKeyword hk, spaceAfterBinary_of_isKeyword hk,
      hr.merges_false]
  | false => simp [hleft, op.startsWordy_text, op.wordyAfter_text, hk, hr.merges_false]

theorem Node.tidy_sequence {expressions : Nodes .expr} (h : ∀ e ∈ expressions.toList, e.Tidy) :
    (Node.sequence span expressions).Tidy := by
  intro w g hw
  have hlist {g : Bool} :
      (list span ListFormat.commaListElements expressions.items).merges w g = false := by
    refine merges_list (fun first hfirst => ?_) fun item hitem =>
      ⟨Nodes.merges_items h item hitem, nofun⟩
    cases expressions with
    | nil => cases hfirst
    | cons e es =>
      cases hfirst
      have he : e.Tidy := h e (List.mem_cons_self ..)
      exact ⟨fun g => he.merges_refused rfl hw _, nofun⟩
  dsimp! only
  simp [hlist]

/-- The keyword of a declaration stands in front of its first target. -/
theorem Node.tidy_varDecl (kind : BindingKind) (isDeclare : Bool) {ds : Nodes .declarator}
    (h : ∀ d ∈ ds.toList, d.Tidy) : (Node.varDecl span kind isDeclare ds).Tidy := by
  intro w g hw
  dsimp! only at hw ⊢
  obtain rfl : w = false := by simpa using hw
  have hcomma {p : Prop} (h : ListFormat.variableDeclarationList.delimiter = .none) : p := by
    cases h
  have hrest (item : Item) (hitem : item ∈ ds.items) : item.doc.Follows false .comma :=
    ⟨Nodes.merges_items h item hitem, hcomma⟩
  cases ds with
  | nil =>
    have hlist {w g : Bool} : (list span ListFormat.variableDeclarationList []).merges w g = false :=
      merges_list (fun _ hfirst => by cases hfirst) (fun _ hitem => by cases hitem)
    simp [bindingKeyword, Nodes.items, hlist]
  | cons d ds =>
    cases d with
    | declarator dspan target init isDefinite =>
      have hd := h _ (List.mem_cons_self ..)
      have hlist {g : Bool} : (list span ListFormat.variableDeclarationList
          (Nodes.cons (.declarator dspan target init isDefinite) ds).items).merges
            (!target.startsWord) g = false := by
        refine merges_list (fun first hfirst => ?_) hrest
        cases hfirst
        refine ⟨fun g => (hd _ g ?_).1, hcomma⟩
        rw [Bool.and_right_comm]
        exact (congrArg (· && _) (Bool.not_and_self target.startsWord)).trans (Bool.false_and _)
      simp [bindingKeyword, kind.wordyAfter_text, hlist]

end Tidy

open Emit Category in
/-- **No text of a node continues a word**, unless the node is judged to do so. -/
theorem Node.emit_tidy {c : Category} (n : Node c) : n.Tidy := by
  apply @Node.rec (fun _ n => n.Tidy) (fun _ ns => ∀ n ∈ ns.toList, n.Tidy)
  case nil => exact fun n hn => nomatch hn
  case cons => exact fun n ns hn hns => List.forall_mem_cons.mpr ⟨hn, hns⟩
  case present => exact fun _ h => h
  case unary => exact fun _ op _ h => Node.tidy_unary op h
  case binary => exact fun _ op _ _ hl hr => Node.tidy_binary op hl hr
  case sequence => exact fun _ _ h => Node.tidy_sequence h
  case varDecl => exact fun _ kind isDeclare _ h => Node.tidy_varDecl kind isDeclare h
  all_goals intros
  all_goals intro w g hw
  all_goals dsimp! only at hw ⊢
  all_goals try (simp only [Bool.and_true] at hw; subst hw)
  -- lists with commas
  case array elements h =>
    have hitems := merges_closeHole (endsWithHole elements) (Nodes.merges_items h)
    simp [merges_bracketed (f := ListFormat.arrayLiteralExpressionElements) (by decide) (by decide)
      hitems]
  case arrayPattern elements _ h =>
    have hitems := merges_closeHole (endsWithHole elements) (Nodes.merges_items h)
    simp [merges_bracketed (f := ListFormat.arrayBindingPatternElements) (by decide) (by decide)
      hitems]
  case object members h =>
    simp [merges_bracketed (f := ListFormat.objectLiteralExpressionProperties) (by decide)
      (by decide) (Nodes.merges_items h)]
  case objectPattern members _ h =>
    simp [merges_bracketed (f := ListFormat.objectBindingPatternElements) (by decide)
      (by decide) (Nodes.merges_items h)]
  case call arguments _ hcallee h =>
    simp [merges_bracketed (f := ListFormat.callExpressionArguments) (by decide)
      (by decide) (Nodes.merges_items h), hcallee.merges_refused, isJudged_categories, hw]
  case new arguments _ hcallee h =>
    simp [listIfAny, merges_bracketed (f := ListFormat.newExpressionArguments) (by decide)
      (by decide) (Nodes.merges_items h), merges_keywordBefore hcallee rfl]
  case newBare hcallee =>
    have hopt : ListFormat.newExpressionArguments.isOptionalIfAbsent = true := rfl
    simp [listIfAny, hopt, merges_keywordBefore hcallee rfl]
  case template quasis h => simp [merges_template quasis (Nodes.merges_items h)]
  case taggedTemplate quasis _ htag h =>
    simp [merges_template quasis (Nodes.merges_items h), htag.merges_refused, isJudged_categories,
      hw]
  case arrow span params body isAsync _ _ _ h hbody =>
    have hparams {w g : Bool} :
        (list span ListFormat.parameters params.items).merges w g = false :=
      merges_bracketed (by decide) (by decide) (Nodes.merges_items h)
    cases isAsync with
    | true =>
      obtain rfl : w = false := by simpa using hw
      simp [hparams, assignedValue, merges_arrowBody hbody, startsWordy_symbols, wordyAfter_symbols]
    | false =>
      simp [hparams, assignedValue, merges_arrowBody hbody, startsWordy_symbols, wordyAfter_symbols]
  case function h _ hbody =>
    simp [merges_bracketed (f := ListFormat.parameters) (by decide) (by decide)
      (Nodes.merges_items h), word_bracketed (f := ListFormat.parameters) (by decide) rfl,
      hbody.merges_false, word_place hbody rfl]
  case classConstructor hkey h hbody =>
    simp [merges_bracketed (f := ListFormat.parameters) (by decide) (by decide)
      (Nodes.merges_items h), word_bracketed (f := ListFormat.parameters) (by decide) rfl,
      hkey.merges_false, hbody.merges_false, word_place hbody rfl]
  -- lists without delimiters
  case block h =>
    simp [merges_closed (f := ListFormat.multiLineBlockStatements) (Bool.and_false _)
      (Nodes.follows_items h rfl),
      word_bracketed (f := ListFormat.multiLineBlockStatements) (by decide) rfl]
  case klass _ h hsuper =>
    simp [merges_closed (f := ListFormat.classMembers) (Bool.and_false _)
      (Nodes.follows_items h rfl), word_bracketed (f := ListFormat.classMembers) (by decide) rfl,
      merges_heritage hsuper]
  case switchStmt hvalue h =>
    simp [merges_closed (f := ListFormat.caseBlockClauses) (Bool.and_false _)
      (Nodes.follows_items h rfl), word_bracketed (f := ListFormat.caseBlockClauses) (by decide) rfl,
      headed, between, hvalue.merges_false, startsWordy_symbols, wordyAfter_symbols]
  case switchCase hvalue h =>
    simp [quiet_caseHead hvalue, quiet_caseBody _ (Nodes.follows_items h rfl)]
  -- operators
  case update op isPrefix operand h =>
    cases isPrefix with
    | false =>
      have hoperand {g : Bool} : operand.emit.merges w g = false :=
        h.merges_judged rfl (by simpa using hw)
      simp [op.startsWordy_text, hoperand]
    | true => simp [op.startsWordy_text, op.wordyAfter_text, h.merges_false]
  case assign op target value ht hv =>
    simp [assignedValue, op.startsWordy_text, op.wordyAfter_text, ht.merges_judged rfl hw,
      hv.merges_false]
  case defaultPattern ht hv =>
    simp [assignedValue, ht.merges_refused rfl hw, hv.merges_false, startsWordy_symbols,
      wordyAfter_symbols]
  case declarator ht hv =>
    simp [ht.merges_refused rfl hw, merges_initializer hv]
  case member isComputed ho hp =>
    cases isComputed <;>
      simp [Emit.member, between, startsWordy_symbols, wordyAfter_symbols, ho.merges_judged rfl hw,
        hp.merges_false]
  case classProperty traits hkey hvalue _ =>
    cases h : traits.isComputed <;>
      simp [between, hkey.merges_false, merges_initializer hvalue, startsWordy_symbols,
        wordyAfter_symbols]
  case yield isDelegate h =>
    cases isDelegate <;> simp [merges_yieldArgument h, wordyAfter_symbols]
  case exprStmt e h =>
    cases stmtNeedsParens e <;>
      simp [parensIf, between, h.merges_judged rfl hw, h.merges_false, startsWordy_symbols,
        wordyAfter_symbols]
  all_goals simp [startsWordy_symbols, wordyAfter_symbols, startsWordy_quoted, Tidy.merges_false,
    Tidy.word_false, Tidy.merges_judged, Tidy.word_judged, Tidy.merges_plain, Tidy.word_plain,
    isJudged_categories, startsPlain_categories, isClosed_categories, between, assignedValue, headed,
    Emit.str, Emit.num, Emit.regex, functionNameGap, merges_keywordBefore, word_keywordBefore,
    merges_initializer, merges_operandAfter, merges_spaced, word_spaced, merges_catchParam,
    quiet_finallyBlock, quiet_elseBranch, quiet_namedClass, quiet_jump, *]

/-! ### Programs -/

namespace SpecifierGroups

open Emit

/-- No name in braces continues a word. -/
def Tidy (groups : SpecifierGroups) : Prop :=
  ∀ item ∈ groups.named, ∀ g, item.doc.merges false g = false

theorem merges_importItem {g : Bool} (span : Span) (binding : Ident) (imported : Option Ident) :
    (importItem span binding imported).doc.merges false g = false := by
  cases imported <;> simp [importItem]

theorem merges_exportItem {g : Bool} (span : Span) (name : Ident) (exported : Option Ident) :
    (exportItem span name exported).doc.merges false g = false := by
  cases exported <;> simp [exportItem]

theorem empty_tidy : empty.Tidy := nofun

theorem Tidy.named {groups : SpecifierGroups} (h : groups.Tidy) {item : Item}
    (hitem : ∀ g, item.doc.merges false g = false) :
    Tidy { groups with named := groups.named ++ [item] } := by
  intro other hother
  rcases List.mem_append.mp hother with hother | hother
  · exact h other hother
  · rw [List.mem_singleton.mp hother]
    exact hitem

/-- Some group is there. -/
def isAny (groups : SpecifierGroups) : Bool := groups.hasName || !groups.named.isEmpty

theorem addImports_tidy : ∀ {specifiers : List ImportSpecifier} {groups result : SpecifierGroups},
    groups.Tidy → addImports groups specifiers = some result →
      result.Tidy ∧ (groups.isAny = true ∨ specifiers ≠ [] → result.isAny = true)
  | [], groups, _, h, hr => by
    cases hr
    exact ⟨h, fun hany => hany.resolve_right fun hne => hne rfl⟩
  | .default _ _ :: _, _, _, _, hr => nomatch hr
  | .star _ binding :: rest, groups, _, h, hr => by
    have hstar : SpecifierGroups.Tidy { groups with star := some binding } := h
    have ih := addImports_tidy hstar hr
    exact ⟨ih.1, fun _ => ih.2 (.inl (by simp [isAny, hasName]))⟩
  | .named span binding imported :: rest, groups, _, h, hr => by
    have ih := addImports_tidy (h.named fun _ => merges_importItem span binding imported) hr
    exact ⟨ih.1, fun _ => ih.2 (.inl (by simp [isAny]))⟩

/-- The groups of an import with specifiers are not all empty. -/
theorem ofImports?_tidy {specifiers : List ImportSpecifier} {groups : SpecifierGroups}
    (hne : specifiers ≠ []) (h : ofImports? specifiers = some groups) :
    groups.Tidy ∧ groups.isAny = true := by
  have hempty : empty.Tidy := empty_tidy
  unfold ofImports? at h
  split at h
  · rename_i binding rest
    have hdefault : SpecifierGroups.Tidy { empty with default := some binding } := hempty
    have hadd := addImports_tidy hdefault h
    exact ⟨hadd.1, hadd.2 (.inl rfl)⟩
  · have hadd := addImports_tidy hempty h
    exact ⟨hadd.1, hadd.2 (.inr hne)⟩

theorem addExports_tidy : ∀ (specifiers : List ExportSpecifier) {groups : SpecifierGroups},
    groups.Tidy → (addExports groups specifiers).Tidy
  | [], _, h => h
  | .default _ _ :: rest, _, h | .star _ _ :: rest, _, h => addExports_tidy rest h
  | .named span name exported :: rest, _, h =>
    addExports_tidy rest (h.named fun _ => merges_exportItem span name exported)

end SpecifierGroups

namespace Emit

variable {w g : Bool}

theorem merges_defaultClause (name : Option Ident) : (defaultClause name).merges w g = false := by
  cases name <;> simp [defaultClause]

theorem merges_starClause (isAfterGroup : Bool) (name : Option Ident) :
    (starClause isAfterGroup name).merges w g = false := by
  cases name <;> simp [starClause, groupGap, startsWordy_symbols, wordyAfter_symbols]

theorem merges_namedClause {items : List Item} (span : Span) (isAfterGroup : Bool)
    (h : ∀ item ∈ items, ∀ g, item.doc.merges false g = false) :
    (namedClause span isAfterGroup items).merges w g = false := by
  simp [namedClause, groupGap, startsWordy_symbols,
    merges_bracketed (f := ListFormat.namedImportsOrExportsElements) (by decide) (by decide) h]

theorem word_namedClause (span : Span) (isAfterGroup : Bool) (items : List Item) :
    (namedClause span isAfterGroup items).word w = false := by
  simp [namedClause,
    word_bracketed (f := ListFormat.namedImportsOrExportsElements) (by decide) rfl]

theorem merges_fromClause {isAfterName : Bool} (h : (w && !isAfterName) = false)
    (source : StringLit) : (fromClause isAfterName source).merges w g = false := by
  simp [fromClause, h, str, startsWordy_quoted]

theorem quiet_importDecl (span : Span) (specifiers : List ImportSpecifier) (source : StringLit) :
    (∀ g, (importDecl span specifiers source).merges false g = false) ∧
      (importDecl span specifiers source).word false = false := by
  unfold importDecl
  split
  · simp [str, startsWordy_quoted, startsWordy_symbols, wordyAfter_symbols]
  · rename_i hne
    cases hgroups : SpecifierGroups.ofImports? specifiers with
    | none => simp
    | some groups =>
      obtain ⟨htidy, hany⟩ := SpecifierGroups.ofImports?_tidy (by simpa using hne) hgroups
      obtain ⟨default, star, named⟩ := groups
      cases named with
      | nil =>
        have hname : SpecifierGroups.hasName ⟨default, star, []⟩ = true := by
          simpa [SpecifierGroups.isAny] using hany
        simp [merges_defaultClause, merges_starClause, merges_fromClause, hname, startsWordy_symbols,
          wordyAfter_symbols]
      | cons item items =>
        simp [merges_defaultClause, merges_starClause, merges_namedClause span _ htidy,
          word_namedClause, merges_fromClause, startsWordy_symbols, wordyAfter_symbols]

theorem quiet_exportNamed (span : Span) (specifiers : List ExportSpecifier)
    (source : Option StringLit) :
    (∀ g, (exportNamed span specifiers source).merges false g = false) ∧
      (exportNamed span specifiers source).word false = false := by
  have htidy : (SpecifierGroups.ofExports specifiers).Tidy :=
    SpecifierGroups.addExports_tidy specifiers SpecifierGroups.empty_tidy
  unfold exportNamed
  generalize SpecifierGroups.ofExports specifiers = groups at htidy
  dsimp only
  cases !groups.named.isEmpty || !groups.hasName <;> cases source <;>
    simp [merges_defaultClause, merges_starClause, merges_namedClause span _ htidy,
      word_namedClause, merges_fromClause, startsWordy_symbols, wordyAfter_symbols]

theorem quiet_defaultDecl (declaration : DefaultDecl) :
    (∀ g, (defaultDecl declaration).merges false g = false) ∧
      (defaultDecl declaration).word false = false := by
  cases declaration with
  | klass k => exact ⟨fun _ => k.emit_tidy.merges_false, k.emit_tidy.word_false rfl⟩
  | function f => exact ⟨fun _ => f.emit_tidy.merges_false, f.emit_tidy.word_false rfl⟩
  | interface payload => exact ⟨fun _ => rfl, rfl⟩

theorem merges_defaultExpr (e : Expr) : (defaultExpr e).merges false g = false := by
  unfold defaultExpr
  split
  · simp [between, e.emit_tidy.merges_false, startsWordy_symbols, wordyAfter_symbols]
  · exact merges_keywordBefore e.emit_tidy rfl "default"

end Emit

open Emit

theorem ModuleDecl.emit_follows (d : ModuleDecl) : d.emit.Follows false .none := by
  suffices h : (∀ g, d.emit.merges false g = false) ∧ d.emit.word false = false from
    ⟨h.1, fun _ => h.2⟩
  cases d with
  | importDecl span specifiers source => simp [emit, quiet_importDecl]
  | exportDecl span declaration =>
    have h := declaration.emit_tidy
    simp [emit, h.merges_false, h.word_false rfl]
  | exportNamed span specifiers source => simp [emit, quiet_exportNamed]
  | exportDefaultDecl span declaration => simp [emit, quiet_defaultDecl]
  | exportDefaultExpr span expression =>
    simp [emit, merges_defaultExpr, startsWordy_symbols, wordyAfter_symbols]
  | exportAll span source =>
    simp [emit, str, startsWordy_quoted, startsWordy_symbols, wordyAfter_symbols]
  | typeModule form payload => simp [emit]

theorem Node.stmt_follows (s : Stmt) : s.emit.Follows false .none :=
  ⟨fun _ => s.emit_tidy.merges_false, fun _ => s.emit_tidy.word_false rfl⟩

theorem ModuleItem.emit_follows (item : ModuleItem) : item.emit.Follows false .none := by
  cases item with
  | decl d => exact d.emit_follows
  | stmt s => exact s.stmt_follows

theorem Program.merges_emit {g : Bool} (program : Program) : program.emit.merges false g = false := by
  have hitems (item : Item) (h : item ∈ program.items.map fun i => ⟨i.span, i.emit⟩) :
      item.doc.Follows false .none := by
    obtain ⟨i, -, rfl⟩ := List.mem_map.mp h
    exact i.emit_follows
  have hline : (Emit.interpreter program.interpreter).merges false g = false ∧
      (Emit.interpreter program.interpreter).word false = false := by
    cases program.interpreter <;> simp [Emit.interpreter]
  rw [program.emit_eq]
  simp [hline, merges_closed (f := ListFormat.sourceFileStatements) (Bool.false_and _) hitems]

/-- **No text of an emission continues a word across an optional blank.** -/
theorem Emission.merges_doc {g : Bool} (e : Emission) : e.doc.merges false g = false := by
  cases e with
  | program p => exact p.merges_emit
  | moduleItem item => exact item.emit_follows.1 g
  | stmt s => exact s.emit_tidy.merges_false
  | expr e => exact e.emit_tidy.merges_false
  | pattern p => exact p.emit_tidy.merges_false

/-- A blank, which compact text has or leaves out. -/
def Step.isGap : Step → Bool
  | .softSpace => true
  | .text s => s == " "
  | _ => false

theorem Step.not_isWordy_gap {gap : Step} {after : List Step} (hgap : gap.isGap = true)
    (hf : failure? (gap :: after) = none) (h : merges true false (gap :: after) = false) :
    ((gap :: after).flatMap compactChars).head?.any isWordy = false := by
  cases gap with
  | softSpace => exact not_isWordy_head after hf h
  | text s =>
    obtain rfl : s = " " := by simpa [isGap] using hgap
    rfl
  | _ => cases hgap

theorem Doc.run_compact_steps {d : Doc} {p : Printer} (hp : p.writer.isPretty = false)
    (hd : d.failure? = none) :
    (d.run p).1.output.toList = p.output.toList ++ d.steps.flatMap compactChars := by
  rw [run_compact d p hp, chars_steps d hd]

/-- **Keywords never merge with what follows them.** Where the compact text of an expression,
a pattern, a statement, a declaration or one of the places that hold two of these starts
with a character of a word, the node is judged to do so. And behind every word with a blank
that is needed or left out, which is how all keywords are written that have something behind
them, the next character of the compact text is not one of a word. -/
theorem keywords_never_merge :
    (∀ {c : Category} (n : Node c) (p : Printer) (first : Char) (rest : List Char),
      c.isJudged = true → p.writer.isPretty = false → (n.emit.run p).2 = none →
      (n.emit.run p).1.output.toList = p.output.toList ++ first :: rest →
      isWordy first = true → n.startsWord = true) ∧
    ∀ (e : Emission) (options : PrintOptions) (comments : Option CommentTable) (keyword : String)
      (gap : Step) (before after : List Step),
      options.isFormatted = false → (e.doc.run (.start options comments)).2 = none →
      e.doc.steps = before ++ .text keyword :: gap :: after →
      wordyAfter false keyword = true → gap.isGap = true →
      ∃ behind, (e.doc.run (.start options comments)).1.output.toList =
          before.flatMap compactChars ++ keyword.toList ++ behind ∧
        behind = (gap :: after).flatMap compactChars ∧ behind.head?.any isWordy = false := by
  refine ⟨fun {c} n p first rest hc hp hdone htext hwordy => ?_,
    fun e options comments keyword gap before after hoptions hdone hsteps hkeyword hgap => ?_⟩
  · rw [Doc.run_failure] at hdone
    rw [Doc.run_compact_steps hp hdone, List.append_cancel_left_eq] at htext
    by_contra hjudged
    have hmerges : n.emit.merges true true = false :=
      n.emit_tidy.merges_judged hc (by simpa using hjudged)
    rw [Doc.failure?_eq_steps] at hdone
    have hhead := not_isWordy_head _ hdone hmerges
    rw [htext] at hhead
    simp [hwordy] at hhead
  · rw [Doc.run_failure] at hdone
    have hoff : (Printer.start options comments).writer.isPretty = false := hoptions
    refine ⟨_, ?_, rfl, not_isWordy_gap hgap ?_ ?_⟩
    · rw [Doc.run_compact_steps hoff hdone, hsteps]
      simp [compactChars, Printer.start, Printer.new, Printer.output, Writer.new]
    · rw [Doc.failure?_eq_steps, hsteps, Step.failure?_append] at hdone
      exact (Option.or_eq_none_iff.mp hdone).2
    · have hmerges := e.merges_doc (g := false)
      obtain ⟨hempty, hword⟩ := wordyAfter_of_false hkeyword
      rw [Doc.merges, hsteps, Step.merges_append, Bool.or_eq_false_iff] at hmerges
      have hbehind := (Bool.or_eq_false_iff.mp hmerges.2).2
      rwa [wordBehind, hword, gapBehind, hempty, Bool.and_false] at hbehind

/-- The statement `return in x;`, in which nothing stands in front of `in`. -/
def returnIn : Stmt :=
  .returnStmt .dummy (.present
    (.binary .dummy .isIn (.jsxEmpty .dummy) (.ident ⟨.dummy, "x", false, none⟩)))

theorem returnIn_never_merges :
    (Node.ident ⟨.dummy, "x", false, none⟩).startsWord = true ∧
      ∃ behind, ((Emission.stmt returnIn).doc.run (.start .compact none)).1.output.toList =
          "return".toList ++ behind ∧
        behind = " in x;".toList ∧ behind.head?.any isWordy = false :=
  ⟨keywords_never_merge.1 (Node.ident ⟨.dummy, "x", false, none⟩) (.new .compact) 'x' [] rfl rfl rfl
      rfl rfl,
    keywords_never_merge.2 (.stmt returnIn) .compact none "return" .softSpace [.mark .dummy] _ rfl
      rfl rfl rfl rfl⟩

end EcmaPrinter
