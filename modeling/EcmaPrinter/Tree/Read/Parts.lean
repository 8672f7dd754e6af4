/-
# Reading nodes of one kind

The nodes whose place in the tree already says what they are, such as the block
of a function, the cases of a `switch` or the opening of a JSX element. They need
no `type` member, and ignore one that is there. Where the members of a function or
a class stand beside a name, all members but the name are stored.
-/
import EcmaPrinter.Tree.Fields

namespace EcmaPrinter

open Json

namespace Read

def typingOf (ms : List (String × Json)) : Option (Option Opaque) :=
  optional ms "typeAnnotation" Opaque.ofJson?

def spread (fs : Fields) : Option (Node .spread) := do
  let dots ← defaulted fs.plain "spread" Span.dummy Span.ofJson?
  let expression ← fs.node "arguments" .expr
  return .spread dots expression

def rest (fs : Fields) : Option (Node .rest) := do
  let span ← spanOf fs.plain
  let dots ← defaulted fs.plain "rest" Span.dummy Span.ofJson?
  let argument ← fs.node "argument" .pattern
  let typing ← typingOf fs.plain
  return .rest span dots argument typing

def function (fs : Fields) : Option (Node .function) := do
  let span ← spanOf fs.plain
  let params ← fs.nodes "params" .pattern
  let decorators ← fs.nodes "decorators" .decorator
  let body ← fs.place "body" .block
  let isGenerator ← defaulted fs.plain "generator" false asBool
  let isAsync ← defaulted fs.plain "async" false asBool
  let typeParameters ← optional fs.plain "typeParameters" Opaque.ofJson?
  let returnType ← optional fs.plain "returnType" Opaque.ofJson?
  return .function span params decorators body isGenerator isAsync typeParameters returnType

def functionExpr (fs : Fields) : Option (Node .functionExpr) := do
  let name ← optional fs.plain "identifier" Ident.ofJson?
  let f ← (fs.without ["identifier"]).store >>= function
  return .functionExpr name f

def klass (fs : Fields) : Option (Node .klass) := do
  let span ← spanOf fs.plain
  let decorators ← fs.nodes "decorators" .decorator
  let body ← fs.nodes "body" .classMember
  let superClass ← fs.place "superClass" .expr
  let isAbstract ← defaulted fs.plain "is_abstract" false asBool
  let typeParams ← optional fs.plain "typeParams" Opaque.ofJson?
  let superTypeParams ← optional fs.plain "superTypeParams" Opaque.ofJson?
  let implements ← defaulted fs.plain "implements" [] (asList Opaque.ofJson?)
  return .klass span decorators body superClass isAbstract typeParams superTypeParams implements

def classExpr (fs : Fields) : Option (Node .classExpr) := do
  let name ← optional fs.plain "identifier" Ident.ofJson?
  let c ← (fs.without ["identifier"]).store >>= klass
  return .classExpr name c

def decorator (fs : Fields) : Option (Node .decorator) := do
  let span ← spanOf fs.plain
  let expression ← fs.node "expression" .expr
  return .decorator span expression

def block (fs : Fields) : Option (Node .block) := do
  let span ← spanOf fs.plain
  let body ← fs.nodes "stmts" .stmt
  return .block span body

def switchCase (fs : Fields) : Option (Node .switchCase) := do
  let span ← spanOf fs.plain
  let test ← fs.place "test" .expr
  let consequent ← fs.nodes "consequent" .stmt
  return .switchCase span test consequent

def catchClause (fs : Fields) : Option (Node .catchClause) := do
  let span ← spanOf fs.plain
  let param ← fs.place "param" .pattern
  let body ← fs.node "body" .block
  return .catchClause span param body

def varDecl (fs : Fields) : Option (Node .varDecl) := do
  let span ← spanOf fs.plain
  let kind ← required fs.plain "kind" (asToken fs.stored)
  let isDeclare ← defaulted fs.plain "declare" false asBool
  let declarators ← fs.nodes "declarations" .declarator
  return .varDecl span kind isDeclare declarators

def declarator (fs : Fields) : Option (Node .declarator) := do
  let span ← spanOf fs.plain
  let target ← fs.node "id" .pattern
  let init ← fs.place "init" .expr
  let isDefinite ← defaulted fs.plain "definite" false asBool
  return .declarator span target init isDefinite

def jsxMember (fs : Fields) : Option (Node .jsxMember) := do
  let span ← spanOf fs.plain
  let object ← fs.node "object" .jsxObject
  let property ← required fs.plain "property" Ident.ofJson?
  return .jsxMember span object property

def jsxContainer (fs : Fields) : Option (Node .jsxContainer) := do
  let span ← spanOf fs.plain
  let expression ← fs.node "expression" .jsxExpr
  return .jsxContainer span expression

/-- The kinds of the names of JSX attributes, in the order of their numbers. -/
def jsxAttrNameKinds : List NodeKind := [.identifier, .jsxNamespacedName]

def jsxAttrNameOf : NodeKind → List (String × Json) → Option JsxAttrName
  | .identifier, ms => (Ident.ofMembers? ms).map .ident
  | .jsxNamespacedName, ms => (JsxNamespacedName.ofMembers? ms).map .namespaced
  | _, _ => none

/-- A JSX attribute's name is told apart like a node. -/
def jsxAttrName (stored : Bool) : Json → Option JsxAttrName :=
  readTagged stored (kindOf stored jsxAttrNameKinds) jsxAttrNameOf

def jsxAttr (fs : Fields) : Option (Node .jsxAttr) := do
  let span ← spanOf fs.plain
  let name ← required fs.plain "name" (jsxAttrName fs.stored)
  let value ← fs.place "value" .jsxAttrValue
  return .jsxAttr span name value

def jsxOpening (fs : Fields) : Option (Node .jsxOpening) := do
  let span ← spanOf fs.plain
  let name ← fs.node "name" .jsxName
  let attrs ← fs.nodes "attrs" .jsxAttrOrSpread
  let isSelfClosing ← defaulted fs.plain "selfClosing" false asBool
  let typeArguments ← optional fs.plain "typeArguments" Opaque.ofJson?
  return .jsxOpening span name attrs isSelfClosing typeArguments

def jsxClosing (fs : Fields) : Option (Node .jsxClosing) := do
  let span ← spanOf fs.plain
  let name ← fs.node "name" .jsxName
  return .jsxClosing span name

def jsxElement (fs : Fields) : Option (Node .jsxElement) := do
  let span ← spanOf fs.plain
  let opening ← fs.node "opening" .jsxOpening
  let children ← fs.nodes "children" .jsxChild
  let closing ← fs.place "closing" .jsxClosing
  return .jsxElement span opening children closing

def jsxFragment (fs : Fields) : Option (Node .jsxFragment) := do
  let span ← spanOf fs.plain
  let opening ← required fs.plain "opening" JsxFragmentTag.ofJson?
  let children ← fs.nodes "children" .jsxChild
  let closing ← required fs.plain "closing" JsxFragmentTag.ofJson?
  return .jsxFragment span opening children closing

end Read

end EcmaPrinter
