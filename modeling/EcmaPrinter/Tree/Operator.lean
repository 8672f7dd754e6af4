/-
# Operators and keywords

The closed sets of words and signs that appear in trees. Each is written in the
exchange format, and printed, as its source text.

Key definitions: `Token`, `Token.ofText?`, and one type per set.
-/

namespace EcmaPrinter

/-- A closed set of source tokens. -/
class Token (α : Type) where
  all : List α
  text : α → String

/-- The token with a given text. -/
def Token.ofText? {α : Type} [Token α] (s : String) : Option α :=
  (Token.all : List α).find? fun t => Token.text t == s

/-- Binary operators. -/
inductive BinaryOp where
  | eq
  | ne
  | strictEq
  | strictNe
  | lt
  | le
  | gt
  | ge
  | shiftLeft
  | shiftRight
  | shiftRightZero
  | add
  | sub
  | mul
  | div
  | mod
  | bitOr
  | bitXor
  | bitAnd
  | or
  | and
  | isIn
  | instanceOf
  | exp
  | coalesce
deriving DecidableEq

def BinaryOp.text : BinaryOp → String
  | .eq => "=="
  | .ne => "!="
  | .strictEq => "==="
  | .strictNe => "!=="
  | .lt => "<"
  | .le => "<="
  | .gt => ">"
  | .ge => ">="
  | .shiftLeft => "<<"
  | .shiftRight => ">>"
  | .shiftRightZero => ">>>"
  | .add => "+"
  | .sub => "-"
  | .mul => "*"
  | .div => "/"
  | .mod => "%"
  | .bitOr => "|"
  | .bitXor => "^"
  | .bitAnd => "&"
  | .or => "||"
  | .and => "&&"
  | .isIn => "in"
  | .instanceOf => "instanceof"
  | .exp => "**"
  | .coalesce => "??"

instance : Token BinaryOp where
  all := [.eq, .ne, .strictEq, .strictNe, .lt, .le, .gt, .ge, .shiftLeft, .shiftRight,
    .shiftRightZero, .add, .sub, .mul, .div, .mod, .bitOr, .bitXor, .bitAnd, .or, .and, .isIn,
    .instanceOf, .exp, .coalesce]
  text := BinaryOp.text

/-- `in` and `instanceof` are words, and need blanks around them. -/
def BinaryOp.isKeyword : BinaryOp → Bool
  | .isIn | .instanceOf => true
  | _ => false

/-- Assignment operators. -/
inductive AssignOp where
  | set
  | add
  | sub
  | mul
  | div
  | mod
  | shiftLeft
  | shiftRight
  | shiftRightZero
  | bitOr
  | bitXor
  | bitAnd
  | exp
  | and
  | or
  | coalesce
deriving DecidableEq

def AssignOp.text : AssignOp → String
  | .set => "="
  | .add => "+="
  | .sub => "-="
  | .mul => "*="
  | .div => "/="
  | .mod => "%="
  | .shiftLeft => "<<="
  | .shiftRight => ">>="
  | .shiftRightZero => ">>>="
  | .bitOr => "|="
  | .bitXor => "^="
  | .bitAnd => "&="
  | .exp => "**="
  | .and => "&&="
  | .or => "||="
  | .coalesce => "??="

instance : Token AssignOp where
  all := [.set, .add, .sub, .mul, .div, .mod, .shiftLeft, .shiftRight, .shiftRightZero, .bitOr,
    .bitXor, .bitAnd, .exp, .and, .or, .coalesce]
  text := AssignOp.text

/-- Increment and decrement. -/
inductive UpdateOp where
  | increment
  | decrement
deriving DecidableEq

def UpdateOp.text : UpdateOp → String
  | .increment => "++"
  | .decrement => "--"

instance : Token UpdateOp where
  all := [.increment, .decrement]
  text := UpdateOp.text

/-- Unary operators. -/
inductive UnaryOp where
  | minus
  | plus
  | not
  | complement
  | typeOf
  | void
  | delete
deriving DecidableEq

def UnaryOp.text : UnaryOp → String
  | .minus => "-"
  | .plus => "+"
  | .not => "!"
  | .complement => "~"
  | .typeOf => "typeof"
  | .void => "void"
  | .delete => "delete"

instance : Token UnaryOp where
  all := [.minus, .plus, .not, .complement, .typeOf, .void, .delete]
  text := UnaryOp.text

/-- `typeof`, `void` and `delete` are words, and must not run into an operand. -/
def UnaryOp.isKeyword : UnaryOp → Bool
  | .typeOf | .void | .delete => true
  | _ => false

/-- The keywords of variable declarations. -/
inductive BindingKind where
  | varBinding
  | letBinding
  | constBinding
deriving DecidableEq

def BindingKind.text : BindingKind → String
  | .varBinding => "var"
  | .letBinding => "let"
  | .constBinding => "const"

instance : Token BindingKind where
  all := [.varBinding, .letBinding, .constBinding]
  text := BindingKind.text

/-- What a class method is called by. -/
inductive MethodKind where
  | method
  | getter
  | setter
deriving DecidableEq

def MethodKind.text : MethodKind → String
  | .method => "method"
  | .getter => "getter"
  | .setter => "setter"

instance : Token MethodKind where
  all := [.method, .getter, .setter]
  text := MethodKind.text

/-- Who may use a class member. -/
inductive Accessibility where
  | publicAccess
  | protectedAccess
  | privateAccess
deriving DecidableEq

def Accessibility.text : Accessibility → String
  | .publicAccess => "public"
  | .protectedAccess => "protected"
  | .privateAccess => "private"

instance : Token Accessibility where
  all := [.publicAccess, .protectedAccess, .privateAccess]
  text := Accessibility.text

end EcmaPrinter
