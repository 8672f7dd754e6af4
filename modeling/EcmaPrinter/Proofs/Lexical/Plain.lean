/-
# Plain expressions

Expressions made of names, literals, operators, members, calls and sequences, in
which every operand binds at least as tightly as its operator asks for; what is
looser stands in parentheses. The elements of such an expression are written down
from the tree alone, so that they say nothing about blanks. For proofs by
induction the rules are also given as an inductive predicate, `Plain`.

The levels of binding go from 0, a sequence, to 18, a primary expression, a
member or a call. `new` without arguments is at 17, and may stand in front of a dot
although it binds less tightly than that. One that ends in a whole number, `new 1`, is
told apart there (`Node.hasClearDot`): behind it the dot would be a decimal point.

Key definitions: `isWordy`, `Node.level`, `Node.isPlain`, `Node.hasClearDot`,
`Node.elements`, `Plain`.
Key theorems: `Plain.of_every`.
-/
import EcmaPrinter.Emit.Node
import EcmaPrinter.Proofs.Lexical.Lexer
import EcmaPrinter.Proofs.Tree.Every

namespace EcmaPrinter

open Lexical

/-- A character of a word: a letter, a digit, `$`, `_`, or one outside ASCII. -/
def isWordy (c : Char) : Bool := Lexical.isWordPart c || 128 ≤ c.toNat

/-! ### Levels -/

/-- How tightly a binary operator binds. -/
def BinaryOp.level : BinaryOp → Nat
  | .coalesce => 3
  | .or => 4
  | .and => 5
  | .bitOr => 6
  | .bitXor => 7
  | .bitAnd => 8
  | .eq | .ne | .strictEq | .strictNe => 9
  | .lt | .le | .gt | .ge | .isIn | .instanceOf => 10
  | .shiftLeft | .shiftRight | .shiftRightZero => 11
  | .add | .sub => 12
  | .mul | .div | .mod => 13
  | .exp => 14

/-- How tightly an expression is bound. -/
def Node.level : Node .expr → Nat
  | .sequence _ _ => 0
  | .assign _ _ _ _ => 1
  | .conditional _ _ _ _ => 2
  | .binary _ op _ _ => op.level
  | .unary _ _ _ => 15
  | .update _ _ _ _ => 16
  | .newBare _ _ _ => 17
  | _ => 18

/-! ### Names and literals -/

/-- Words that are not names. -/
def reservedWords : List String :=
  ["await", "break", "case", "catch", "class", "const", "continue", "debugger", "default", "delete",
    "do", "else", "enum", "export", "extends", "false", "finally", "for", "function", "if",
    "import", "in", "instanceof", "new", "null", "return", "super", "switch", "this", "throw",
    "true", "try",
    "typeof", "var", "void", "while", "with", "yield"]

/-- A word in ASCII. -/
def isWord : List Char → Bool
  | [] => false
  | c :: cs => isWordStart c && cs.all isWordPart

/-- A name in ASCII that is not reserved, not optional and has no type. -/
def Ident.isPlain (name : Ident) : Bool :=
  isWord name.name.toList && !reservedWords.contains name.name && !name.isOptional
    && name.typing.isNone

/-- The body of a regular expression, of which a class may be open already. -/
def isRegexBody (inClass : Bool) : List Char → Bool
  | [] => !inClass
  | c :: cs =>
    !isLineBreak c &&
      if c == '\\' then
        match cs with
        | [] => false
        | d :: ds => !isLineBreak d && isRegexBody inClass ds
      else (inClass || c != '/') && isRegexBody (staysInClass inClass c) cs

def RegexLit.flagChars (literal : RegexLit) : List Char :=
  ((literal.flags.map StringLit.value).getD "").toList

/-- A regular expression with a body that can be read and does not open a
comment. -/
def RegexLit.isPlain (literal : RegexLit) : Bool :=
  isRegexBody false literal.pattern.value.toList && !literal.pattern.value.isEmpty
    && literal.pattern.value.toList.head? != some '*' && literal.flagChars.all isFlagPart

/-! ### Expressions -/

namespace Node

def isIdent : Node .expr → Bool
  | .ident _ => true
  | _ => false

/-- What `++` and `--` apply to. -/
def isUpdatable : Node .expr → Bool
  | .ident _ | .member _ _ _ _ | .paren _ _ => true
  | _ => false

/-- A whole number, or a bare `new` that ends in one. -/
def endsInNumeral : {c : Category} → Node c → Bool
  | _, .num literal => Emit.isWholeNumeral (.num literal)
  | _, .newBare _ callee _ => callee.endsInNumeral
  | _, _ => false

/-- The rule that a plain expression keeps at each of its nodes. -/
def isPlain : {c : Category} → Node c → Bool
  | _, .this _ | _, .null _ | _, .bool _ _ | _, .str _ | _, .paren _ _ => true
  | _, .ident name | _, .identPattern name => name.isPlain
  | _, .num literal => literal.value.isFinite && !literal.value.isNegative
  | _, .regex literal => literal.isPlain
  | _, .unary _ _ operand => 15 ≤ operand.level
  | _, .update _ _ _ operand => operand.isUpdatable
  | _, .binary _ op left right => op.level ≤ left.level && op.level ≤ right.level
  | _, .assign _ _ (.identPattern _) value => 1 ≤ value.level
  | _, .assign _ _ (.exprPattern target) value => target.isUpdatable && 1 ≤ value.level
  | _, .member _ base property isComputed =>
    17 ≤ base.level && (isComputed || property.isIdent)
  | _, .conditional _ condition consequent alternate =>
    2 ≤ condition.level && 1 ≤ consequent.level && 1 ≤ alternate.level
  | _, .call _ callee _ types | _, .new _ callee _ types | _, .newBare _ callee types =>
    17 ≤ callee.level && types.isNone
  | _, .sequence _ expressions => expressions.toList.all fun e => 1 ≤ e.level
  | _, .plainArgument e => 1 ≤ e.level
  | _, .exprPattern _ => true
  | _, _ => false

/-- The dot of a member does not stand behind a bare `new` that ends in a whole number. -/
def hasClearDot : {c : Category} → Node c → Bool
  | _, .member _ base _ isComputed =>
    isComputed || Emit.isWholeNumeral base || !base.endsInNumeral
  | _, _ => true

end Node

/-! ### Elements -/

/-- An operator, which is a word or a punctuator. -/
def operatorElement (isKeyword : Bool) (text : String) : Element :=
  if isKeyword then .word text.toList else .punct text.toList

def Lexical.punct (text : String) : Element := .punct text.toList

mutual
/-- The elements of a plain expression. -/
def Node.elements : {c : Category} → Node c → List Element
  | _, .this _ => [.word "this".toList]
  | _, .null _ => [.word "null".toList]
  | _, .bool _ value => [.word (if value then "true" else "false").toList]
  | _, .ident name | _, .identPattern name => [.word name.name.toList]
  | _, .num literal => [.number (numeral literal.value).toList]
  | _, .str literal => [.string (Text.quoted literal.value).toList]
  | _, .regex literal => [.regex literal.pattern.value.toList literal.flagChars]
  | _, .paren _ expression => punct "(" :: (expression.elements ++ [punct ")"])
  | _, .unary _ op operand => operatorElement op.isKeyword op.text :: operand.elements
  | _, .update _ op isPrefix operand =>
    if isPrefix then punct op.text :: operand.elements else operand.elements ++ [punct op.text]
  | _, .binary _ op left right =>
    left.elements ++ operatorElement op.isKeyword op.text :: right.elements
  | _, .assign _ op target value => target.elements ++ punct op.text :: value.elements
  | _, .member _ base property isComputed =>
    base.elements ++
      if isComputed then punct "[" :: (property.elements ++ [punct "]"])
      else punct "." :: property.elements
  | _, .conditional _ condition consequent alternate =>
    condition.elements ++ punct "?" :: (consequent.elements ++ punct ":" :: alternate.elements)
  | _, .call _ callee arguments _ =>
    callee.elements ++ punct "(" :: (arguments.commaElements.drop 1 ++ [punct ")"])
  | _, .new _ callee arguments _ =>
    .word "new".toList :: (callee.elements ++ punct "(" ::
      (arguments.commaElements.drop 1 ++ [punct ")"]))
  | _, .newBare _ callee _ => .word "new".toList :: callee.elements
  | _, .sequence _ expressions => expressions.commaElements.drop 1
  | _, .plainArgument e => e.elements
  | _, .exprPattern e => e.elements
  | _, _ => []

/-- The elements of some nodes, each with a comma in front of it. -/
def Nodes.commaElements : {c : Category} → Nodes c → List Element
  | _, .nil => []
  | _, .cons n ns => punct "," :: (n.elements ++ ns.commaElements)
end

/-! ### Plain expressions by constructors -/

/-- Plain expressions, as an inductive predicate. -/
inductive Plain : Node .expr → Prop where
  | this (span : Span) : Plain (.this span)
  | null (span : Span) : Plain (.null span)
  | bool (span : Span) (value : Bool) : Plain (.bool span value)
  | str (literal : StringLit) : Plain (.str literal)
  | num {literal : NumberLit} (finite : literal.value.isFinite = true)
      (positive : literal.value.isNegative = false) : Plain (.num literal)
  | ident {name : Ident} (h : name.isPlain = true) : Plain (.ident name)
  | regex {literal : RegexLit} (h : literal.isPlain = true) : Plain (.regex literal)
  | paren (span : Span) {e : Node .expr} (h : Plain e) : Plain (.paren span e)
  | unary (span : Span) (op : UnaryOp) {operand : Node .expr} (level : 15 ≤ operand.level)
      (h : Plain operand) : Plain (.unary span op operand)
  | update (span : Span) (op : UpdateOp) (isPrefix : Bool) {operand : Node .expr}
      (updatable : operand.isUpdatable = true) (h : Plain operand) :
      Plain (.update span op isPrefix operand)
  | binary (span : Span) {op : BinaryOp} {left right : Node .expr}
      (leftLevel : op.level ≤ left.level) (rightLevel : op.level ≤ right.level) (hl : Plain left)
      (hr : Plain right) :
      Plain (.binary span op left right)
  | assignName (span : Span) (op : AssignOp) {name : Ident} {value : Node .expr}
      (hname : name.isPlain = true) (level : 1 ≤ value.level) (h : Plain value) :
      Plain (.assign span op (.identPattern name) value)
  | assignExpr (span : Span) (op : AssignOp) {target value : Node .expr}
      (updatable : target.isUpdatable = true) (level : 1 ≤ value.level) (ht : Plain target)
      (h : Plain value) : Plain (.assign span op (.exprPattern target) value)
  | computed (span : Span) {base property : Node .expr} (level : 17 ≤ base.level) (h : Plain base)
      (hp : Plain property) : Plain (.member span base property true)
  | dotted (span : Span) {base : Node .expr} {name : Ident} (level : 17 ≤ base.level)
      (numeral : Emit.isWholeNumeral base = true ∨ base.endsInNumeral = false) (h : Plain base)
      (hname : name.isPlain = true) :
      Plain (.member span base (.ident name) false)
  | conditional (span : Span) {condition consequent alternate : Node .expr}
      (conditionLevel : 2 ≤ condition.level) (consequentLevel : 1 ≤ consequent.level)
      (alternateLevel : 1 ≤ alternate.level) (h : Plain condition) (hc : Plain consequent)
      (ha : Plain alternate) : Plain (.conditional span condition consequent alternate)
  | call (span : Span) {callee : Node .expr} {arguments : Nodes .argument}
      (level : 17 ≤ callee.level) (h : Plain callee)
      (plain : ∀ a ∈ arguments.toList, ∃ e, a = .plainArgument e ∧ 1 ≤ e.level)
      (ha : ∀ e, .plainArgument e ∈ arguments.toList → Plain e) :
      Plain (.call span callee arguments none)
  | new (span : Span) {callee : Node .expr} {arguments : Nodes .argument}
      (level : 17 ≤ callee.level) (h : Plain callee)
      (plain : ∀ a ∈ arguments.toList, ∃ e, a = .plainArgument e ∧ 1 ≤ e.level)
      (ha : ∀ e, .plainArgument e ∈ arguments.toList → Plain e) :
      Plain (.new span callee arguments none)
  | newBare (span : Span) {callee : Node .expr} (level : 17 ≤ callee.level) (h : Plain callee) :
      Plain (.newBare span callee none)
  | sequence (span : Span) {expressions : Nodes .expr}
      (levels : ∀ e ∈ expressions.toList, 1 ≤ e.level)
      (h : ∀ e ∈ expressions.toList, Plain e) : Plain (.sequence span expressions)

/-- What the predicate says about nodes of all categories. -/
def PlainNode : {c : Category} → Node c → Prop
  | .expr, n => Plain n
  | .argument, n => ∃ e, n = .plainArgument e ∧ 1 ≤ e.level ∧ Plain e
  | .pattern, n =>
    (∃ name : Ident, n = .identPattern name ∧ name.isPlain = true) ∨
      ∃ e, n = .exprPattern e ∧ Plain e
  | _, _ => False

theorem PlainNode.arguments {arguments : Nodes .argument}
    (h : ∀ a ∈ arguments.toList, PlainNode a) :
    (∀ a ∈ arguments.toList, ∃ e, a = .plainArgument e ∧ 1 ≤ e.level) ∧
      ∀ e, .plainArgument e ∈ arguments.toList → Plain e := by
  constructor
  · intro a ha
    obtain ⟨e, rfl, level, _⟩ := h a ha
    exact ⟨e, rfl, level⟩
  · intro e he
    obtain ⟨e', heq, _, plain⟩ := h _ he
    cases heq
    exact plain

theorem Node.isIdent_iff {e : Node .expr} : e.isIdent = true ↔ ∃ name, e = .ident name := by
  constructor
  · intro h
    cases e with
    | ident name => exact ⟨name, rfl⟩
    | _ => cases h
  · rintro ⟨name, rfl⟩
    rfl

/-- A node that keeps the rules everywhere inside it is plain. -/
theorem PlainNode.of_every {c : Category} (n : Node c)
    (h : n.every (fun m => m.isPlain && m.hasClearDot) = true) : PlainNode n := by
  revert h
  -- one case for each form of a plain expression; all other nodes break a rule themselves
  apply @Node.rec
    (fun _ n => n.every (fun m => m.isPlain && m.hasClearDot) = true → PlainNode n)
    (fun _ ns => ns.every (fun m => m.isPlain && m.hasClearDot) = true →
      ∀ n ∈ ns.toList, PlainNode n)
  all_goals intros
  all_goals rename_i h
  all_goals try dsimp! only at h
  all_goals try simp at h
  case this span => exact .this span
  case null span => exact .null span
  case bool span value => exact .bool span value
  case str literal => exact .str literal
  case num literal => exact .num h.1 h.2
  case ident name => exact .ident h
  case regex literal => exact .regex h
  case paren span e ih => exact .paren span (ih h)
  case unary span op operand ih => exact .unary span op h.1 (ih h.2)
  case update span op isPrefix operand ih => exact .update span op isPrefix h.1 (ih h.2)
  case binary span op left right ihl ihr =>
    exact .binary span h.1.1.1 h.1.1.2 (ihl h.1.2) (ihr h.2)
  case assign span op target value iht ihv =>
    obtain ⟨⟨hrule, ht⟩, hv⟩ := h
    rcases iht ht with ⟨name, rfl, hname⟩ | ⟨e, rfl, he⟩
    · exact .assignName span op hname (of_decide_eq_true hrule) (ihv hv)
    · obtain ⟨updatable, level⟩ := Bool.and_eq_true_iff.mp hrule
      exact .assignExpr span op updatable (of_decide_eq_true level) he (ihv hv)
  case member span base property isComputed ihb ihp =>
    obtain ⟨⟨⟨⟨level, rule⟩, numeral⟩, hb⟩, hp⟩ := h
    cases isComputed with
    | true => exact .computed span level (ihb hb) (ihp hp)
    | false =>
      obtain ⟨name, rfl⟩ := Node.isIdent_iff.mp (rule.resolve_left Bool.false_ne_true)
      exact .dotted span level (by simpa using numeral) (ihb hb)
        (Bool.and_eq_true_iff.mp hp).1
  case conditional span condition consequent alternate ihe ihc iha =>
    obtain ⟨⟨⟨⟨⟨level, levelc⟩, levela⟩, he⟩, hc⟩, ha⟩ := h
    exact .conditional span level levelc levela (ihe he) (ihc hc) (iha ha)
  case call span callee arguments types ihc iha =>
    obtain ⟨⟨⟨level, rfl⟩, hc⟩, ha⟩ := h
    obtain ⟨plain, hargs⟩ := PlainNode.arguments (iha ha)
    exact .call span level (ihc hc) plain hargs
  case new span callee arguments types ihc iha =>
    obtain ⟨⟨⟨level, rfl⟩, hc⟩, ha⟩ := h
    obtain ⟨plain, hargs⟩ := PlainNode.arguments (iha ha)
    exact .new span level (ihc hc) plain hargs
  case newBare span callee types ihc =>
    obtain ⟨⟨level, rfl⟩, hc⟩ := h
    exact .newBare span level (ihc hc)
  case sequence span expressions ih => exact .sequence span h.1 (ih h.2)
  case plainArgument e ih => exact ⟨e, rfl, h.1, ih h.2⟩
  case identPattern name => exact .inl ⟨name, rfl, h⟩
  case exprPattern e ih => exact .inr ⟨e, rfl, ih h⟩
  case cons head tail ihh iht hall n =>
    obtain ⟨hhead, htail⟩ := Bool.and_eq_true_iff.mp hall
    rcases h with rfl | hmem
    · exact ihh hhead
    · exact iht htail n hmem

theorem Plain.of_every {e : Node .expr} (h : e.every Node.isPlain = true)
    (hdots : e.every Node.hasClearDot = true) : Plain e :=
  PlainNode.of_every e (e.every_and h hdots)

end EcmaPrinter
