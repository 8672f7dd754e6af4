/-
# Syntax trees

The nodes of a syntax tree, as one family indexed by the syntactic category they
belong to: an expression is a `Node .expr`, a statement a `Node .stmt`, and a
list of statements is a `Nodes .stmt`. A place that may be empty has category
`.opt c`. One recursion over the family then covers the whole language.

What a node holds besides other nodes stands in front of them or behind them as
in the language: spans, operators, names and flags. Type annotations and other
TypeScript parts are opaque.

The roots of a tree, modules and scripts with imports and exports, are in
`EcmaPrinter.Tree.Program`; no node contains them.

Key definitions: `Category`, `Node`, `Nodes`, `Node.span`.
-/
import EcmaPrinter.Tree.Kind
import EcmaPrinter.Tree.Leaf

namespace EcmaPrinter

/-- The syntactic categories. -/
inductive Category where
  | expr
  | spread
  | argument
  | pattern
  | rest
  | patternMember
  | property
  | propertyName
  | objectMember
  | function
  | functionExpr
  | arrowBody
  | klass
  | classExpr
  | classMember
  | param
  | decorator
  | block
  | stmt
  | switchCase
  | catchClause
  | forInit
  | forTarget
  | decl
  | varDecl
  | declarator
  | jsxMember
  | jsxObject
  | jsxName
  | jsxExpr
  | jsxContainer
  | jsxAttrValue
  | jsxAttr
  | jsxAttrOrSpread
  | jsxOpening
  | jsxClosing
  | jsxElement
  | jsxFragment
  | jsxChild
  | opt (c : Category)
deriving DecidableEq

/-- Expressions that only TypeScript has: `<T>x`, `x!`, a type cast, `x as T`. -/
inductive TypedForm where
  | assertion
  | nonNull
  | cast
  | asType
deriving DecidableEq

/-- Declarations that only TypeScript has. -/
inductive TypeDeclForm where
  | interface
  | typeAlias
  | enumeration
  | module
deriving DecidableEq

/-- What a class method is, besides its key and function. -/
structure MethodTraits where
  kind : MethodKind
  isStatic : Bool
  accessibility : Option Accessibility
  isAbstract : Bool
  isOptional : Bool

/-- What a class property is, besides its key, value and decorators. -/
structure PropertyTraits where
  typing : Option Opaque
  isStatic : Bool
  isComputed : Bool
  accessibility : Option Accessibility
  isAbstract : Bool
  isOptional : Bool
  isReadonly : Bool
  isDefinite : Bool

/-- The name of a JSX attribute. -/
inductive JsxAttrName where
  | ident (name : Ident)
  | namespaced (name : JsxNamespacedName)

mutual
/-- Nodes of a category. -/
inductive Node : Category → Type where
  -- expressions
  | this (span : Span) : Node .expr
  | superRef (span : Span) : Node .expr
  | array (span : Span) (elements : Nodes (.opt .argument)) : Node .expr
  | object (span : Span) (members : Nodes .objectMember) : Node .expr
  | functionLit (f : Node .functionExpr) : Node .expr
  | classLit (c : Node .classExpr) : Node .expr
  | unary (span : Span) (op : UnaryOp) (operand : Node .expr) : Node .expr
  | update (span : Span) (op : UpdateOp) (isPrefix : Bool) (operand : Node .expr) : Node .expr
  | binary (span : Span) (op : BinaryOp) (left right : Node .expr) : Node .expr
  | assign (span : Span) (op : AssignOp) (target : Node .pattern) (value : Node .expr) : Node .expr
  | member (span : Span) (object property : Node .expr) (isComputed : Bool) : Node .expr
  | conditional (span : Span) (test consequent alternate : Node .expr) : Node .expr
  | call (span : Span) (callee : Node .expr) (arguments : Nodes .argument)
      (typeArguments : Option Opaque) : Node .expr
  | new (span : Span) (callee : Node .expr) (arguments : Nodes .argument)
      (typeArguments : Option Opaque) : Node .expr
  | newBare (span : Span) (callee : Node .expr) (typeArguments : Option Opaque) : Node .expr
  | sequence (span : Span) (expressions : Nodes .expr) : Node .expr
  | ident (name : Ident) : Node .expr
  | str (literal : StringLit) : Node .expr
  | bool (span : Span) (value : Bool) : Node .expr
  | null (span : Span) : Node .expr
  | num (literal : NumberLit) : Node .expr
  | regex (literal : RegexLit) : Node .expr
  | template (span : Span) (expressions : Nodes .expr) (quasis : List Quasi) : Node .expr
  | taggedTemplate (span : Span) (tag : Node .expr) (expressions : Nodes .expr)
      (quasis : List Quasi) (typeParameters : Option Opaque) : Node .expr
  | arrow (span : Span) (params : Nodes .pattern) (body : Node .arrowBody)
      (isAsync isGenerator : Bool) (typeParameters returnType : Option Opaque) : Node .expr
  | yield (span : Span) (argument : Node (.opt .expr)) (isDelegate : Bool) : Node .expr
  | metaProperty (span : Span) (target property : Ident) : Node .expr
  | await (span : Span) (argument : Node .expr) : Node .expr
  | paren (span : Span) (expression : Node .expr) : Node .expr
  | privateName (name : PrivateName) : Node .expr
  | jsxMemberExpr (m : Node .jsxMember) : Node .expr
  | jsxNamespaced (name : JsxNamespacedName) : Node .expr
  | jsxEmpty (span : Span) : Node .expr
  | jsxElementExpr (e : Node .jsxElement) : Node .expr
  | jsxFragmentExpr (f : Node .jsxFragment) : Node .expr
  | jsxTextExpr (t : JsxText) : Node .expr
  | typed (form : TypedForm) (span : Span) (expression : Node .expr)
      (rest : List (String × Json)) : Node .expr
  -- `...expression`, with the span of the dots
  | spread (dots : Span) (expression : Node .expr) : Node .spread
  | spreadArgument (s : Node .spread) : Node .argument
  | plainArgument (e : Node .expr) : Node .argument
  -- binding patterns and assignment targets
  | identPattern (name : Ident) : Node .pattern
  | arrayPattern (span : Span) (elements : Nodes (.opt .pattern))
      (typing : Option Opaque) : Node .pattern
  | restPattern (r : Node .rest) : Node .pattern
  | objectPattern (span : Span) (members : Nodes .patternMember)
      (typing : Option Opaque) : Node .pattern
  | defaultPattern (span : Span) (target : Node .pattern) (value : Node .expr)
      (typing : Option Opaque) : Node .pattern
  | exprPattern (e : Node .expr) : Node .pattern
  | rest (span dots : Span) (argument : Node .pattern) (typing : Option Opaque) : Node .rest
  | keyedPattern (key : Node .propertyName) (value : Node .pattern) : Node .patternMember
  | namedPattern (span : Span) (name : Ident) (value : Node (.opt .expr)) : Node .patternMember
  | restMember (r : Node .rest) : Node .patternMember
  -- members of object literals
  | shorthand (name : Ident) : Node .property
  | keyValue (key : Node .propertyName) (value : Node .expr) : Node .property
  | assignProperty (name : Ident) (value : Node .expr) : Node .property
  | getter (span : Span) (key : Node .propertyName) (body : Node (.opt .block)) : Node .property
  | setter (span : Span) (key : Node .propertyName) (param : Node .pattern)
      (body : Node (.opt .block)) : Node .property
  | method (key : Node .propertyName) (f : Node .function) : Node .property
  | identKey (name : Ident) : Node .propertyName
  | strKey (literal : StringLit) : Node .propertyName
  | numKey (literal : NumberLit) : Node .propertyName
  | computedKey (e : Node .expr) : Node .propertyName
  | spreadMember (s : Node .spread) : Node .objectMember
  | propertyMember (p : Node .property) : Node .objectMember
  -- functions
  | function (span : Span) (params : Nodes .pattern) (decorators : Nodes .decorator)
      (body : Node (.opt .block)) (isGenerator isAsync : Bool)
      (typeParameters returnType : Option Opaque) : Node .function
  | functionExpr (name : Option Ident) (f : Node .function) : Node .functionExpr
  | blockBody (b : Node .block) : Node .arrowBody
  | exprBody (e : Node .expr) : Node .arrowBody
  -- classes
  | klass (span : Span) (decorators : Nodes .decorator) (body : Nodes .classMember)
      (superClass : Node (.opt .expr)) (isAbstract : Bool)
      (typeParams superTypeParams : Option Opaque) (implements : List Opaque) : Node .klass
  | classExpr (name : Option Ident) (c : Node .klass) : Node .classExpr
  | classConstructor (span : Span) (key : Node .propertyName) (params : Nodes .param)
      (body : Node (.opt .block)) (accessibility : Option Accessibility)
      (isOptional : Bool) : Node .classMember
  | classMethod (span : Span) (key : Node .propertyName) (f : Node .function)
      (traits : MethodTraits) : Node .classMember
  | privateMethod (span : Span) (key : PrivateName) (f : Node .function)
      (traits : MethodTraits) : Node .classMember
  | classProperty (span : Span) (key : Node .expr) (value : Node (.opt .expr))
      (decorators : Nodes .decorator) (traits : PropertyTraits) : Node .classMember
  | privateProperty (span : Span) (key : PrivateName) (value : Node (.opt .expr))
      (decorators : Nodes .decorator) (traits : PropertyTraits) : Node .classMember
  | indexSignature (payload : Opaque) : Node .classMember
  | patternParam (p : Node .pattern) : Node .param
  | propertyParam (payload : Opaque) : Node .param
  | decorator (span : Span) (expression : Node .expr) : Node .decorator
  -- statements
  | block (span : Span) (body : Nodes .stmt) : Node .block
  | blockStmt (b : Node .block) : Node .stmt
  | emptyStmt (span : Span) : Node .stmt
  | debuggerStmt (span : Span) : Node .stmt
  | withStmt (span : Span) (object : Node .expr) (body : Node .stmt) : Node .stmt
  | returnStmt (span : Span) (argument : Node (.opt .expr)) : Node .stmt
  | labeledStmt (span : Span) (label : Ident) (body : Node .stmt) : Node .stmt
  | breakStmt (span : Span) (label : Option Ident) : Node .stmt
  | continueStmt (span : Span) (label : Option Ident) : Node .stmt
  | ifStmt (span : Span) (test : Node .expr) (consequent : Node .stmt)
      (alternate : Node (.opt .stmt)) : Node .stmt
  | switchStmt (span : Span) (discriminant : Node .expr) (cases : Nodes .switchCase) : Node .stmt
  | throwStmt (span : Span) (argument : Node .expr) : Node .stmt
  | tryStmt (span : Span) (block : Node .block) (handler : Node (.opt .catchClause))
      (finalizer : Node (.opt .block)) : Node .stmt
  | whileStmt (span : Span) (test : Node .expr) (body : Node .stmt) : Node .stmt
  | doWhileStmt (span : Span) (test : Node .expr) (body : Node .stmt) : Node .stmt
  | forStmt (span : Span) (init : Node (.opt .forInit)) (test update : Node (.opt .expr))
      (body : Node .stmt) : Node .stmt
  | forInStmt (span : Span) (target : Node .forTarget) (object : Node .expr)
      (body : Node .stmt) : Node .stmt
  | forOfStmt (span : Span) (awaitToken : Option Span) (target : Node .forTarget)
      (iterable : Node .expr) (body : Node .stmt) : Node .stmt
  | declStmt (d : Node .decl) : Node .stmt
  | exprStmt (e : Node .expr) : Node .stmt
  | switchCase (span : Span) (test : Node (.opt .expr)) (consequent : Nodes .stmt) :
      Node .switchCase
  | catchClause (span : Span) (param : Node (.opt .pattern)) (body : Node .block) :
      Node .catchClause
  | varInit (v : Node .varDecl) : Node .forInit
  | exprInit (e : Node .expr) : Node .forInit
  | varTarget (v : Node .varDecl) : Node .forTarget
  | patternTarget (p : Node .pattern) : Node .forTarget
  -- declarations
  | classDecl (name : Ident) (isDeclare : Bool) (c : Node .klass) : Node .decl
  | functionDecl (name : Ident) (isDeclare : Bool) (f : Node .function) : Node .decl
  | variables (v : Node .varDecl) : Node .decl
  | typeDecl (form : TypeDeclForm) (payload : Opaque) : Node .decl
  | varDecl (span : Span) (kind : BindingKind) (isDeclare : Bool)
      (declarators : Nodes .declarator) : Node .varDecl
  | declarator (span : Span) (target : Node .pattern) (init : Node (.opt .expr))
      (isDefinite : Bool) : Node .declarator
  -- JSX
  | jsxMember (span : Span) (object : Node .jsxObject) (property : Ident) : Node .jsxMember
  | jsxMemberObject (m : Node .jsxMember) : Node .jsxObject
  | jsxIdentObject (name : Ident) : Node .jsxObject
  | jsxIdentName (name : Ident) : Node .jsxName
  | jsxMemberName (m : Node .jsxMember) : Node .jsxName
  | jsxSpaceName (name : JsxNamespacedName) : Node .jsxName
  | jsxNoExpr (span : Span) : Node .jsxExpr
  | jsxSomeExpr (e : Node .expr) : Node .jsxExpr
  | jsxContainer (span : Span) (expression : Node .jsxExpr) : Node .jsxContainer
  | jsxContainerValue (c : Node .jsxContainer) : Node .jsxAttrValue
  | jsxElementValue (e : Node .jsxElement) : Node .jsxAttrValue
  | jsxFragmentValue (f : Node .jsxFragment) : Node .jsxAttrValue
  | jsxExprValue (e : Node .expr) : Node .jsxAttrValue
  | jsxAttr (span : Span) (name : JsxAttrName) (value : Node (.opt .jsxAttrValue)) : Node .jsxAttr
  | jsxPlainAttr (a : Node .jsxAttr) : Node .jsxAttrOrSpread
  | jsxSpreadAttr (s : Node .spread) : Node .jsxAttrOrSpread
  | jsxOpening (span : Span) (name : Node .jsxName) (attrs : Nodes .jsxAttrOrSpread)
      (isSelfClosing : Bool) (typeArguments : Option Opaque) : Node .jsxOpening
  | jsxClosing (span : Span) (name : Node .jsxName) : Node .jsxClosing
  | jsxElement (span : Span) (opening : Node .jsxOpening) (children : Nodes .jsxChild)
      (closing : Node (.opt .jsxClosing)) : Node .jsxElement
  | jsxFragment (span : Span) (opening : JsxFragmentTag) (children : Nodes .jsxChild)
      (closing : JsxFragmentTag) : Node .jsxFragment
  | jsxTextChild (t : JsxText) : Node .jsxChild
  | jsxContainerChild (c : Node .jsxContainer) : Node .jsxChild
  | jsxSpreadChild (span : Span) (expression : Node .expr) : Node .jsxChild
  | jsxElementChild (e : Node .jsxElement) : Node .jsxChild
  | jsxFragmentChild (f : Node .jsxFragment) : Node .jsxChild
  -- places that may be empty
  | absent {c : Category} : Node (.opt c)
  | present {c : Category} (n : Node c) : Node (.opt c)

/-- Lists of nodes of a category. -/
inductive Nodes : Category → Type where
  | nil {c : Category} : Nodes c
  | cons {c : Category} (head : Node c) (tail : Nodes c) : Nodes c
end

abbrev Expr := Node .expr

abbrev Pattern := Node .pattern

abbrev Stmt := Node .stmt

abbrev Decl := Node .decl

namespace Nodes

def ofList {c : Category} : List (Node c) → Nodes c
  | [] => .nil
  | n :: ns => .cons n (ofList ns)

def toList : {c : Category} → Nodes c → List (Node c)
  | _, .nil => []
  | _, .cons n ns => n :: ns.toList

def isEmpty {c : Category} : Nodes c → Bool
  | .nil => true
  | .cons _ _ => false

def length : {c : Category} → Nodes c → Nat
  | _, .nil => 0
  | _, .cons _ ns => ns.length + 1

end Nodes

/-! ## Spans -/

/-- The span of a node. A node without one of its own runs from its first part to
its last; an empty place counts as made up. -/
def Node.span : {c : Category} → Node c → Span
  | _, .this span | _, .superRef span | _, .array span _ | _, .object span _
  | _, .unary span _ _ | _, .update span _ _ _ | _, .binary span _ _ _ | _, .assign span _ _ _
  | _, .member span _ _ _ | _, .conditional span _ _ _ | _, .call span _ _ _
  | _, .new span _ _ _ | _, .newBare span _ _ | _, .sequence span _ | _, .bool span _
  | _, .null span | _, .template span _ _ | _, .taggedTemplate span _ _ _ _
  | _, .arrow span _ _ _ _ _ _ | _, .yield span _ _ | _, .metaProperty span _ _
  | _, .await span _ | _, .paren span _ | _, .jsxEmpty span | _, .typed _ span _ _ => span
  | _, .functionLit f => f.span
  | _, .classLit c => c.span
  | _, .ident name => name.span
  | _, .str literal => literal.span
  | _, .num literal => literal.span
  | _, .regex literal => literal.span
  | _, .privateName name => name.span
  | _, .jsxMemberExpr m => m.span
  | _, .jsxNamespaced name => name.span
  | _, .jsxElementExpr e => e.span
  | _, .jsxFragmentExpr f => f.span
  | _, .jsxTextExpr t => t.span
  | _, .spread dots e => e.span.startingAt dots
  | _, .spreadArgument s => s.span
  | _, .plainArgument e => e.span
  | _, .identPattern name => name.span
  | _, .arrayPattern span _ _ | _, .objectPattern span _ _ | _, .defaultPattern span _ _ _
  | _, .rest span _ _ _ | _, .namedPattern span _ _ => span
  | _, .restPattern r => r.span
  | _, .exprPattern e => e.span
  | _, .keyedPattern key value => key.span.join value.span
  | _, .restMember r => r.span
  | _, .shorthand name => name.span
  | _, .keyValue key value => key.span.join value.span
  | _, .assignProperty name value => name.span.join value.span
  | _, .getter span _ _ | _, .setter span _ _ _ => span
  | _, .method _ f => f.span
  | _, .identKey name => name.span
  | _, .strKey literal => literal.span
  | _, .numKey literal => literal.span
  | _, .computedKey e => e.span
  | _, .spreadMember s => s.span
  | _, .propertyMember p => p.span
  | _, .function span _ _ _ _ _ _ _ => span
  | _, .functionExpr _ f => f.span
  | _, .blockBody b => b.span
  | _, .exprBody e => e.span
  | _, .klass span _ _ _ _ _ _ _ => span
  | _, .classExpr _ c => c.span
  | _, .classConstructor span _ _ _ _ _ | _, .classMethod span _ _ _ | _, .privateMethod span _ _ _
  | _, .classProperty span _ _ _ _ | _, .privateProperty span _ _ _ _ => span
  | _, .indexSignature payload => payload.span
  | _, .patternParam p => p.span
  | _, .propertyParam payload => payload.span
  | _, .decorator span _ | _, .block span _ | _, .emptyStmt span | _, .debuggerStmt span
  | _, .withStmt span _ _ | _, .returnStmt span _ | _, .labeledStmt span _ _ | _, .breakStmt span _
  | _, .continueStmt span _ | _, .ifStmt span _ _ _ | _, .switchStmt span _ _
  | _, .throwStmt span _ | _, .tryStmt span _ _ _ | _, .whileStmt span _ _
  | _, .doWhileStmt span _ _ | _, .forStmt span _ _ _ _ | _, .forInStmt span _ _ _
  | _, .forOfStmt span _ _ _ _ | _, .switchCase span _ _ | _, .catchClause span _ _ => span
  | _, .blockStmt b => b.span
  | _, .declStmt d => d.span
  | _, .exprStmt e => e.span
  | _, .varInit v => v.span
  | _, .exprInit e => e.span
  | _, .varTarget v => v.span
  | _, .patternTarget p => p.span
  | _, .classDecl _ _ c => c.span
  | _, .functionDecl _ _ f => f.span
  | _, .variables v => v.span
  | _, .typeDecl _ payload => payload.span
  | _, .varDecl span _ _ _ | _, .declarator span _ _ _ => span
  | _, .jsxMember span _ _ => span
  | _, .jsxMemberObject m => m.span
  | _, .jsxIdentObject name => name.span
  | _, .jsxIdentName name => name.span
  | _, .jsxMemberName m => m.span
  | _, .jsxSpaceName name => name.span
  | _, .jsxNoExpr span => span
  | _, .jsxSomeExpr e => e.span
  | _, .jsxContainer span _ => span
  | _, .jsxContainerValue c => c.span
  | _, .jsxElementValue e => e.span
  | _, .jsxFragmentValue f => f.span
  | _, .jsxExprValue e => e.span
  | _, .jsxAttr span _ _ => span
  | _, .jsxPlainAttr a => a.span
  | _, .jsxSpreadAttr s => s.span
  | _, .jsxOpening span _ _ _ _ | _, .jsxClosing span _ | _, .jsxElement span _ _ _
  | _, .jsxFragment span _ _ _ | _, .jsxSpreadChild span _ => span
  | _, .jsxTextChild t => t.span
  | _, .jsxContainerChild c => c.span
  | _, .jsxElementChild e => e.span
  | _, .jsxFragmentChild f => f.span
  | _, .absent => Span.synthesized
  | _, .present n => n.span

/-! ## Kinds -/

def TypedForm.kind : TypedForm → NodeKind
  | .assertion => .tsTypeAssertion
  | .nonNull => .tsNonNullExpression
  | .cast => .tsTypeCastExpression
  | .asType => .tsAsExpression

def TypeDeclForm.kind : TypeDeclForm → NodeKind
  | .interface => .tsInterfaceDeclaration
  | .typeAlias => .tsTypeAliasDeclaration
  | .enumeration => .tsEnumDeclaration
  | .module => .tsModuleDeclaration

/-- The kind of an expression. -/
def Node.exprKind : Node .expr → NodeKind
  | .this _ => .thisExpression
  | .superRef _ => .super
  | .array _ _ => .arrayExpression
  | .object _ _ => .objectExpression
  | .functionLit _ => .functionExpression
  | .classLit _ => .classExpression
  | .unary _ _ _ => .unaryExpression
  | .update _ _ _ _ => .updateExpression
  | .binary _ _ _ _ => .binaryExpression
  | .assign _ _ _ _ => .assignmentExpression
  | .member _ _ _ _ => .memberExpression
  | .conditional _ _ _ _ => .conditionalExpression
  | .call _ _ _ _ => .callExpression
  | .new _ _ _ _ | .newBare _ _ _ => .newExpression
  | .sequence _ _ => .sequenceExpression
  | .ident _ => .identifier
  | .str _ => .stringLiteral
  | .bool _ _ => .booleanLiteral
  | .null _ => .nullLiteral
  | .num _ => .numericLiteral
  | .regex _ => .regExpLiteral
  | .template _ _ _ => .templateLiteral
  | .taggedTemplate _ _ _ _ _ => .taggedTemplateExpression
  | .arrow _ _ _ _ _ _ _ => .arrowFunctionExpression
  | .yield _ _ _ => .yieldExpression
  | .metaProperty _ _ _ => .metaProperty
  | .await _ _ => .awaitExpression
  | .paren _ _ => .parenthesisExpression
  | .privateName _ => .privateName
  | .jsxMemberExpr _ => .jsxMemberExpression
  | .jsxNamespaced _ => .jsxNamespacedName
  | .jsxEmpty _ => .jsxEmptyExpression
  | .jsxElementExpr _ => .jsxElement
  | .jsxFragmentExpr _ => .jsxFragment
  | .jsxTextExpr _ => .jsxText
  | .typed form _ _ _ => form.kind

/-- The kind of a declaration. -/
def Node.declKind : Node .decl → NodeKind
  | .classDecl _ _ _ => .classDeclaration
  | .functionDecl _ _ _ => .functionDeclaration
  | .variables _ => .variableDeclaration
  | .typeDecl form _ => form.kind

/-- The kind of a statement. An expression statement has no kind of its own. -/
def Node.stmtKind : Node .stmt → NodeKind
  | .blockStmt _ => .blockStatement
  | .emptyStmt _ => .emptyStatement
  | .debuggerStmt _ => .debuggerStatement
  | .withStmt _ _ _ => .withStatement
  | .returnStmt _ _ => .returnStatement
  | .labeledStmt _ _ _ => .labeledStatement
  | .breakStmt _ _ => .breakStatement
  | .continueStmt _ _ => .continueStatement
  | .ifStmt _ _ _ _ => .ifStatement
  | .switchStmt _ _ _ => .switchStatement
  | .throwStmt _ _ => .throwStatement
  | .tryStmt _ _ _ _ => .tryStatement
  | .whileStmt _ _ _ => .whileStatement
  | .doWhileStmt _ _ _ => .doWhileStatement
  | .forStmt _ _ _ _ _ => .forStatement
  | .forInStmt _ _ _ _ => .forInStatement
  | .forOfStmt _ _ _ _ _ => .forOfStatement
  | .declStmt d => d.declKind
  | .exprStmt e => e.exprKind

/-- The kind of a class member. -/
def Node.classMemberKind : Node .classMember → NodeKind
  | .classConstructor _ _ _ _ _ _ => .constructor
  | .classMethod _ _ _ _ => .classMethod
  | .privateMethod _ _ _ _ => .privateMethod
  | .classProperty _ _ _ _ _ => .classProperty
  | .privateProperty _ _ _ _ _ => .privateProperty
  | .indexSignature _ => .tsIndexSignature

end EcmaPrinter
