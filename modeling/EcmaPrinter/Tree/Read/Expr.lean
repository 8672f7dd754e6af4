/-
# Reading expressions

The expression of each kind, and with it the patterns and the members of object
literals, which hold expressions and are held by them.

Key definitions: `Read.expr`, `Read.pattern`, `Read.property`, `Read.anyExpr`,
`Read.anyPattern`.
-/
import EcmaPrinter.Tree.Read.Parts

namespace EcmaPrinter

open Json

namespace Read

/-! ## Expressions -/

/-- The arguments of `new`, of which there may be no list at all. -/
def newExpr (fs : Fields) : Option (Node .expr) := do
  let span ← spanOf fs.plain
  let callee ← fs.node "callee" .expr
  let typeArguments ← optional fs.plain "typeArguments" Opaque.ofJson?
  match find ["arguments"] fs.members with
  | .absent => some (.newBare span callee typeArguments)
  | .once r =>
    match r.json with
    | .null => some (.newBare span callee typeArguments)
    | _ => do
      let arguments ← r.nodes fs.stored .argument
      return .new span callee arguments typeArguments
  | .repeated => none

def typed (form : TypedForm) (fs : Fields) : Option (Node .expr) := do
  let span ← spanOf fs.plain
  let expression ← fs.node "expression" .expr
  let payload ← Opaque.restOf ["span", "expression"] fs.plain
  return .typed form span expression payload

def expr (kind : NodeKind) (fs : Fields) : Option (Node .expr) :=
  let ms := fs.plain
  match kind with
  | .thisExpression => (spanOf ms).map .this
  | .super => (spanOf ms).map .superRef
  | .arrayExpression => do
    let span ← spanOf ms
    let elements ← fs.nodes "elements" (.opt .argument)
    return .array span elements
  | .objectExpression => do
    let span ← spanOf ms
    let members ← fs.nodes "properties" .objectMember
    return .object span members
  | .functionExpression => (functionExpr fs).map .functionLit
  | .classExpression => (classExpr fs).map .classLit
  | .unaryExpression => do
    let span ← spanOf ms
    let op ← required ms "operator" (asToken fs.stored)
    let operand ← fs.node "argument" .expr
    return .unary span op operand
  | .updateExpression => do
    let span ← spanOf ms
    let op ← required ms "operator" (asToken fs.stored)
    let isPrefix ← required ms "prefix" asBool
    let operand ← fs.node "argument" .expr
    return .update span op isPrefix operand
  | .binaryExpression => do
    let span ← spanOf ms
    let op ← required ms "operator" (asToken fs.stored)
    let left ← fs.node "left" .expr
    let right ← fs.node "right" .expr
    return .binary span op left right
  | .assignmentExpression => do
    let span ← spanOf ms
    let op ← required ms "operator" (asToken fs.stored)
    let target ← fs.node "left" .pattern
    let value ← fs.node "right" .expr
    return .assign span op target value
  | .memberExpression => do
    let span ← spanOf ms
    let object ← fs.node "object" .expr
    let property ← fs.node "property" .expr
    let isComputed ← defaulted ms "computed" false asBool
    return .member span object property isComputed
  | .conditionalExpression => do
    let span ← spanOf ms
    let test ← fs.node "test" .expr
    let consequent ← fs.node "consequent" .expr
    let alternate ← fs.node "alternate" .expr
    return .conditional span test consequent alternate
  | .callExpression => do
    let span ← spanOf ms
    let callee ← fs.node "callee" .expr
    let arguments ← fs.nodes "arguments" .argument
    let typeArguments ← optional ms "typeArguments" Opaque.ofJson?
    return .call span callee arguments typeArguments
  | .newExpression => newExpr fs
  | .sequenceExpression => do
    let span ← spanOf ms
    let expressions ← fs.nodes "expressions" .expr
    return .sequence span expressions
  | .identifier => (Ident.ofMembers? ms).map .ident
  | .stringLiteral => (StringLit.ofMembers? ms).map .str
  | .booleanLiteral => do
    let span ← spanOf ms
    let value ← required ms "value" asBool
    return .bool span value
  | .nullLiteral => (spanOf ms).map .null
  | .numericLiteral => (NumberLit.ofMembers? ms).map .num
  | .regExpLiteral => (RegexLit.ofMembers? ms).map .regex
  | .templateLiteral => do
    let span ← spanOf ms
    let expressions ← fs.nodes "expressions" .expr
    let quasis ← defaulted ms "quasis" [] (asList Quasi.ofJson?)
    return .template span expressions quasis
  | .taggedTemplateExpression => do
    let span ← spanOf ms
    let tag ← fs.node "tag" .expr
    let expressions ← fs.nodes "expressions" .expr
    let quasis ← defaulted ms "quasis" [] (asList Quasi.ofJson?)
    let typeParameters ← optional ms "typeParameters" Opaque.ofJson?
    return .taggedTemplate span tag expressions quasis typeParameters
  | .arrowFunctionExpression => do
    let span ← spanOf ms
    let params ← fs.nodes "params" .pattern
    let body ← fs.node "body" .arrowBody
    let isAsync ← defaulted ms "async" false asBool
    let isGenerator ← defaulted ms "generator" false asBool
    let typeParameters ← optional ms "typeParameters" Opaque.ofJson?
    let returnType ← optional ms "returnType" Opaque.ofJson?
    return .arrow span params body isAsync isGenerator typeParameters returnType
  | .yieldExpression => do
    let span ← spanOf ms
    let argument ← fs.place "argument" .expr
    let isDelegate ← defaulted ms "delegate" false asBool
    return .yield span argument isDelegate
  | .metaProperty => do
    let span ← spanOf ms
    let target ← required ms "meta" Ident.ofJson?
    let property ← required ms "property" Ident.ofJson?
    return .metaProperty span target property
  | .awaitExpression => do
    let span ← spanOf ms
    let argument ← fs.node "argument" .expr
    return .await span argument
  | .parenthesisExpression => do
    let span ← spanOf ms
    let expression ← fs.node "expression" .expr
    return .paren span expression
  | .privateName => (PrivateName.ofMembers? ms).map .privateName
  | .jsxMemberExpression => (jsxMember fs).map .jsxMemberExpr
  | .jsxNamespacedName => (JsxNamespacedName.ofMembers? ms).map .jsxNamespaced
  | .jsxEmptyExpression => (spanOf ms).map .jsxEmpty
  | .jsxElement => (jsxElement fs).map .jsxElementExpr
  | .jsxFragment => (jsxFragment fs).map .jsxFragmentExpr
  | .jsxText => (JsxText.ofMembers? ms).map .jsxTextExpr
  | .tsTypeAssertion => typed .assertion fs
  | .tsNonNullExpression => typed .nonNull fs
  | .tsTypeCastExpression => typed .cast fs
  | .tsAsExpression => typed .asType fs
  | _ => none

def argument (kind : NodeKind) (fs : Fields) : Option (Node .argument) :=
  match kind with
  | .spreadElement => (spread fs).map .spreadArgument
  | _ => none

/-! ## Patterns and object members -/

def pattern (kind : NodeKind) (fs : Fields) : Option (Node .pattern) :=
  let ms := fs.plain
  match kind with
  | .identifier => (Ident.ofMembers? ms).map .identPattern
  | .arrayPattern => do
    let span ← spanOf ms
    let elements ← fs.nodes "elements" (.opt .pattern)
    let typing ← typingOf ms
    return .arrayPattern span elements typing
  | .restElement => (rest fs).map .restPattern
  | .objectPattern => do
    let span ← spanOf ms
    let members ← fs.nodes "props" .patternMember
    let typing ← typingOf ms
    return .objectPattern span members typing
  | .assignmentPattern => do
    let span ← spanOf ms
    let target ← fs.node "left" .pattern
    let value ← fs.node "right" .expr
    let typing ← typingOf ms
    return .defaultPattern span target value typing
  | _ => none

/-- An expression of any kind. -/
def anyExpr (ps : Parts) : Option (Node .expr) := ps.byKind Category.expr.kinds expr

/-- A pattern of its own kind, or an expression as an assignment target. -/
def anyPattern (ps : Parts) : Option (Node .pattern) :=
  ps.byKind Category.pattern.kinds pattern <|> (anyExpr ps).map .exprPattern

def patternMember (kind : NodeKind) (fs : Fields) : Option (Node .patternMember) :=
  match kind with
  | .keyValuePatternProperty => do
    let key ← fs.node "key" .propertyName
    let value ← fs.node "value" .pattern
    return .keyedPattern key value
  | .assignmentPatternProperty => do
    let span ← spanOf fs.plain
    let name ← required fs.plain "key" Ident.ofJson?
    let value ← fs.place "value" .expr
    return .namedPattern span name value
  | .restElement => (rest fs).map .restMember
  | _ => none

def property (kind : NodeKind) (fs : Fields) : Option (Node .property) :=
  let ms := fs.plain
  match kind with
  | .identifier => (Ident.ofMembers? ms).map .shorthand
  | .keyValueProperty => do
    let key ← fs.node "key" .propertyName
    let value ← fs.node "value" .expr
    return .keyValue key value
  | .assignmentProperty => do
    let name ← required ms "key" Ident.ofJson?
    let value ← fs.node "value" .expr
    return .assignProperty name value
  | .getterProperty => do
    let span ← spanOf ms
    let key ← fs.node "key" .propertyName
    let body ← fs.place "body" .block
    return .getter span key body
  | .setterProperty => do
    let span ← spanOf ms
    let key ← fs.node "key" .propertyName
    let param ← fs.node "param" .pattern
    let body ← fs.place "body" .block
    return .setter span key param body
  | .methodProperty => do
    let key ← fs.node "key" .propertyName
    let f ← (fs.without ["key"]).store >>= function
    return .method key f
  | _ => none

def propertyName (kind : NodeKind) (fs : Fields) : Option (Node .propertyName) :=
  match kind with
  | .identifier => (Ident.ofMembers? fs.plain).map .identKey
  | .stringLiteral => (StringLit.ofMembers? fs.plain).map .strKey
  | .numericLiteral => (NumberLit.ofMembers? fs.plain).map .numKey
  | _ => none

def objectMember (kind : NodeKind) (fs : Fields) : Option (Node .objectMember) :=
  match kind with
  | .spreadElement => (spread fs).map .spreadMember
  | _ => none

end Read

end EcmaPrinter
