/-
# Tokens side by side

Two tokens written side by side can merge into one: `typeof` and `x`, `+` and
`+x`, `/` and a regular expression. What follows an operator or a keyword is
decided by the first token of the next node, which may sit deep inside it. The
same look at the first token tells where parentheses are needed: an expression
statement must not start like a block or a declaration, nor the body of an arrow
function like a block.

Key definitions: `Node.startsWord`, `Node.leftmost`, `spaceBeforeOperand`,
`spaceBeforeBinary`, `spaceAfterBinary`, `stmtNeedsParens`, `bodyNeedsParens`.
-/
import EcmaPrinter.Tree.Node

namespace EcmaPrinter

/-- Whether the first character printed for a node may continue a word, so that a
keyword in front of it needs a blank. -/
def Node.startsWord : {c : Category} → Node c → Bool
  | _, .this _ | _, .superRef _ | _, .ident _ | _, .bool _ _ | _, .null _ | _, .num _
  | _, .functionLit _ | _, .classLit _ | _, .new _ _ _ _ | _, .newBare _ _ _
  | _, .yield _ _ _ | _, .await _ _ | _, .metaProperty _ _ _
  | _, .jsxMemberExpr _ | _, .jsxNamespaced _ | _, .jsxTextExpr _ => true
  | _, .binary _ _ left _ => left.startsWord
  | _, .assign _ _ target _ => target.startsWord
  | _, .conditional _ test _ _ => test.startsWord
  | _, .call _ callee _ _ => callee.startsWord
  | _, .member _ base _ _ => base.startsWord
  | _, .taggedTemplate _ tag _ _ _ => tag.startsWord
  | _, .sequence _ .nil => true
  | _, .sequence _ (.cons first _) => first.startsWord
  | _, .update _ _ isPrefix operand => !isPrefix && operand.startsWord
  | _, .unary _ op _ => op.isKeyword
  | _, .arrow _ _ _ isAsync _ _ _ => isAsync
  | _, .typed .assertion _ _ _ => false
  | _, .typed _ _ expression _ => expression.startsWord
  | _, .plainArgument e => e.startsWord
  | _, .exprBody e => e.startsWord
  | _, .identPattern _ => true
  | _, .defaultPattern _ target _ _ => target.startsWord
  | _, .exprPattern e => e.startsWord
  | _, .varInit _ => true
  | _, .exprInit e => e.startsWord
  | _, .varTarget _ => true
  | _, .patternTarget p => p.startsWord
  | _, .classDecl _ _ _ | _, .functionDecl _ _ _ | _, .variables _ | _, .typeDecl _ _ => true
  | _, .debuggerStmt _ | _, .withStmt _ _ _ | _, .returnStmt _ _ | _, .labeledStmt _ _ _
  | _, .breakStmt _ _ | _, .continueStmt _ _ | _, .ifStmt _ _ _ _ | _, .switchStmt _ _ _
  | _, .throwStmt _ _ | _, .tryStmt _ _ _ _ | _, .whileStmt _ _ _ | _, .doWhileStmt _ _ _
  | _, .forStmt _ _ _ _ _ | _, .forInStmt _ _ _ _ | _, .forOfStmt _ _ _ _ _ => true
  | _, .declStmt d => d.startsWord
  | _, .exprStmt e => e.startsWord
  | _, _ => false

/-- The expression inside an expression whose first token is the first token of
the whole. -/
def Node.leftmost : {c : Category} → Node c → Node c
  | _, .binary _ _ left _ => left.leftmost
  | _, .conditional _ test _ _ => test.leftmost
  | _, .call _ callee _ _ => callee.leftmost
  | _, .member _ base _ _ => base.leftmost
  | _, .taggedTemplate _ tag _ _ _ => tag.leftmost
  | _, .sequence _ (.cons first _) => first.leftmost
  | _, .update _ _ false operand => operand.leftmost
  | _, .assign _ _ (.exprPattern left) _ => left.leftmost
  | _, .typed .nonNull _ expression _ | _, .typed .cast _ expression _
  | _, .typed .asType _ expression _ => expression.leftmost
  | _, n => n

/-- Whether an operand starts with the sign, or with the update made of two such
signs. -/
def continuesSign (sign : UnaryOp) (double : UpdateOp) : Node .expr → Bool
  | .update _ op isPrefix _ => isPrefix && op == double
  | .unary _ op _ => op == sign
  | _ => false

/-- Whether a unary operator needs a blank in front of its operand. -/
def spaceBeforeOperand (op : UnaryOp) (operand : Node .expr) : Bool :=
  match op with
  | .void | .typeOf | .delete => operand.startsWord
  | .plus => continuesSign .plus .increment operand
  | .minus => continuesSign .minus .decrement operand
  | .not | .complement => false

/-- Whether a binary operator needs a blank in front of it. -/
def spaceBeforeBinary (op : BinaryOp) : Node .expr → Bool
  | .update _ _ false _ => true
  | _ => op.isKeyword

/-- The expression `--x`. -/
def isPrefixDecrement : Node .expr → Bool
  | .update _ .decrement true _ => true
  | _ => false

/-- Whether a binary operator needs a blank behind it. Besides signs, a `/` must
not run into a regular expression, and `<!--` would open a comment. -/
def spaceAfterBinary (op : BinaryOp) (right : Node .expr) : Bool :=
  op.isKeyword ||
    match right.leftmost with
    | .update _ _ true _ => true
    | .unary _ .plus _ => op.text.toList.getLast? == some '+'
    | .unary _ .minus _ => op.text.toList.getLast? == some '-'
    | .unary _ .not operand => op == .lt && isPrefixDecrement operand
    | .regex _ => op == .div
    | _ => false

/-- An operator that is a word has blanks around it. -/
theorem spaceBeforeBinary_of_isKeyword {op : BinaryOp} (h : op.isKeyword = true)
    (left : Node .expr) : spaceBeforeBinary op left = true := by
  cases left with
  | update _ _ isPrefix _ =>
    cases isPrefix with
    | true => exact h
    | false => rfl
  | _ => exact h

theorem spaceAfterBinary_of_isKeyword {op : BinaryOp} (h : op.isKeyword = true)
    (right : Node .expr) : spaceAfterBinary op right = true := by
  rw [spaceAfterBinary, h, Bool.true_or]

/-- Whether an expression starts with a brace. -/
def startsWithBrace (e : Node .expr) : Bool :=
  match e.leftmost with
  | .object _ _ => true
  | .assign _ _ (.objectPattern _ _ _) _ => true
  | _ => false

/-- Whether an expression starts with `function` or `class`. -/
def startsWithDeclaration (e : Node .expr) : Bool :=
  match e.leftmost with
  | .functionLit _ | .classLit _ => true
  | _ => false

/-- Whether an expression needs parentheses as a statement. -/
def stmtNeedsParens (e : Node .expr) : Bool := startsWithBrace e || startsWithDeclaration e

/-- A sequence expression. -/
def isSequence : Node .expr → Bool
  | .sequence _ _ => true
  | _ => false

/-- Whether an expression needs parentheses as the body of an arrow function. -/
def bodyNeedsParens (e : Node .expr) : Bool := startsWithBrace e || isSequence e

end EcmaPrinter
