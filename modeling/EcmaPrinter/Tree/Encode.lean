/-
# Writing trees as JSON

A node is written as an object: the spelling of its kind under `type`, where its
category tells kinds apart, and its parts. Every part is written, with `null`
for an empty place; only TypeScript parts are left out where they are absent. A
node that merely wraps another, like an expression used as a statement, is
written as the one it wraps.

Key definitions: `Record`, `Node.record?`, `Node.toJson`.
-/
import EcmaPrinter.Tree.Node

namespace EcmaPrinter

open Json

/-- The written form of a node: the kind it is told apart by, and its members. -/
structure Record where
  kind : Option NodeKind
  members : List (String × Json)

namespace Record

/-- The record as an object. -/
def toJson (r : Record) : Json :=
  match r.kind with
  | some kind => .obj (("type", .str kind.text) :: r.members)
  | none => .obj r.members

/-- A record whose kind is told apart. -/
def tagged (kind : NodeKind) (members : List (String × Json)) : Option Record :=
  some ⟨some kind, members⟩

/-- A record that needs no kind. -/
def plain (members : List (String × Json)) : Option Record := some ⟨none, members⟩

/-- The same record, told apart by a kind. -/
def withKind (kind : NodeKind) (r : Option Record) : Option Record :=
  r.map fun r => ⟨some kind, r.members⟩

/-- The object of a record, `null` where there is none. -/
def json (r : Option Record) : Json := (r.map toJson).getD .null

/-- The members of a record. -/
def membersOf (r : Option Record) : List (String × Json) := (r.map members).getD []

end Record

namespace MethodTraits

def members (t : MethodTraits) : List (String × Json) :=
  [("kind", ofToken t.kind), ("is_static", .bool t.isStatic),
    ("accessibility", ofOption ofToken t.accessibility),
    ("is_abstract", .bool t.isAbstract), ("is_optional", .bool t.isOptional)]

end MethodTraits

namespace PropertyTraits

def members (t : PropertyTraits) : List (String × Json) :=
  memberIf "typeAnnotation" Opaque.toJson t.typing ++
    [("is_static", .bool t.isStatic), ("computed", .bool t.isComputed),
      ("accessibility", ofOption ofToken t.accessibility),
      ("is_abstract", .bool t.isAbstract), ("is_optional", .bool t.isOptional),
      ("readonly", .bool t.isReadonly), ("definite", .bool t.isDefinite)]

end PropertyTraits

def JsxAttrName.toJson : JsxAttrName → Json
  | .ident name => Record.toJson ⟨some .identifier, name.members⟩
  | .namespaced name => Record.toJson ⟨some .jsxNamespacedName, name.members⟩

open Record in
mutual
/-- The record of a node. An empty place has none. -/
def Node.record? : {c : Category} → Node c → Option Record
  | _, .this span => tagged .thisExpression [("span", span.toJson)]
  | _, .superRef span => tagged .super [("span", span.toJson)]
  | _, .array span elements =>
    tagged .arrayExpression [("span", span.toJson), ("elements", .arr elements.toJsons)]
  | _, .object span members =>
    tagged .objectExpression [("span", span.toJson), ("properties", .arr members.toJsons)]
  | _, .functionLit f => withKind .functionExpression f.record?
  | _, .classLit c => withKind .classExpression c.record?
  | _, .unary span op operand =>
    tagged .unaryExpression
      [("span", span.toJson), ("operator", ofToken op), ("argument", json operand.record?)]
  | _, .update span op isPrefix operand =>
    tagged .updateExpression
      [("span", span.toJson), ("operator", ofToken op), ("prefix", .bool isPrefix),
        ("argument", json operand.record?)]
  | _, .binary span op left right =>
    tagged .binaryExpression
      [("span", span.toJson), ("operator", ofToken op), ("left", json left.record?),
        ("right", json right.record?)]
  | _, .assign span op target value =>
    tagged .assignmentExpression
      [("span", span.toJson), ("operator", ofToken op), ("left", json target.record?),
        ("right", json value.record?)]
  | _, .member span object property isComputed =>
    tagged .memberExpression
      [("span", span.toJson), ("object", json object.record?), ("property", json property.record?),
        ("computed", .bool isComputed)]
  | _, .conditional span test consequent alternate =>
    tagged .conditionalExpression
      [("span", span.toJson), ("test", json test.record?), ("consequent", json consequent.record?),
        ("alternate", json alternate.record?)]
  | _, .call span callee arguments typeArguments =>
    tagged .callExpression
      ([("span", span.toJson), ("callee", json callee.record?), ("arguments", .arr arguments.toJsons)]
        ++ memberIf "typeArguments" Opaque.toJson typeArguments)
  | _, .new span callee arguments typeArguments =>
    tagged .newExpression
      ([("span", span.toJson), ("callee", json callee.record?), ("arguments", .arr arguments.toJsons)]
        ++ memberIf "typeArguments" Opaque.toJson typeArguments)
  | _, .newBare span callee typeArguments =>
    tagged .newExpression
      ([("span", span.toJson), ("callee", json callee.record?), ("arguments", .null)]
        ++ memberIf "typeArguments" Opaque.toJson typeArguments)
  | _, .sequence span expressions =>
    tagged .sequenceExpression [("span", span.toJson), ("expressions", .arr expressions.toJsons)]
  | _, .ident name => tagged .identifier name.members
  | _, .str literal => tagged .stringLiteral literal.members
  | _, .bool span value =>
    tagged .booleanLiteral [("span", span.toJson), ("value", .bool value)]
  | _, .null span => tagged .nullLiteral [("span", span.toJson)]
  | _, .num literal => tagged .numericLiteral literal.members
  | _, .regex literal => tagged .regExpLiteral literal.members
  | _, .template span expressions quasis =>
    tagged .templateLiteral
      [("span", span.toJson), ("expressions", .arr expressions.toJsons),
        ("quasis", .arr (quasis.map Quasi.toJson))]
  | _, .taggedTemplate span tag expressions quasis typeParameters =>
    tagged .taggedTemplateExpression
      ([("span", span.toJson), ("tag", json tag.record?), ("expressions", .arr expressions.toJsons),
        ("quasis", .arr (quasis.map Quasi.toJson))]
        ++ memberIf "typeParameters" Opaque.toJson typeParameters)
  | _, .arrow span params body isAsync isGenerator typeParameters returnType =>
    tagged .arrowFunctionExpression
      ([("span", span.toJson), ("params", .arr params.toJsons), ("body", json body.record?),
        ("async", .bool isAsync), ("generator", .bool isGenerator)]
        ++ memberIf "typeParameters" Opaque.toJson typeParameters
        ++ memberIf "returnType" Opaque.toJson returnType)
  | _, .yield span argument isDelegate =>
    tagged .yieldExpression
      [("span", span.toJson), ("argument", json argument.record?), ("delegate", .bool isDelegate)]
  | _, .metaProperty span target property =>
    tagged .metaProperty
      [("span", span.toJson), ("meta", target.toJson), ("property", property.toJson)]
  | _, .await span argument =>
    tagged .awaitExpression [("span", span.toJson), ("argument", json argument.record?)]
  | _, .paren span expression =>
    tagged .parenthesisExpression
      [("span", span.toJson), ("expression", json expression.record?)]
  | _, .privateName name => tagged .privateName name.members
  | _, .jsxMemberExpr m => withKind .jsxMemberExpression m.record?
  | _, .jsxNamespaced name => tagged .jsxNamespacedName name.members
  | _, .jsxEmpty span => tagged .jsxEmptyExpression [("span", span.toJson)]
  | _, .jsxElementExpr e => withKind .jsxElement e.record?
  | _, .jsxFragmentExpr f => withKind .jsxFragment f.record?
  | _, .jsxTextExpr t => tagged .jsxText t.members
  | _, .typed form span expression rest =>
    tagged form.kind
      (("span", span.toJson) :: ("expression", json expression.record?) :: rest)
  | _, .spread dots expression =>
    plain [("spread", dots.toJson), ("arguments", json expression.record?)]
  | _, .spreadArgument s => withKind .spreadElement s.record?
  | _, .plainArgument e => e.record?
  | _, .identPattern name => tagged .identifier name.members
  | _, .arrayPattern span elements typing =>
    tagged .arrayPattern
      ([("span", span.toJson), ("elements", .arr elements.toJsons)]
        ++ memberIf "typeAnnotation" Opaque.toJson typing)
  | _, .restPattern r => withKind .restElement r.record?
  | _, .objectPattern span members typing =>
    tagged .objectPattern
      ([("span", span.toJson), ("props", .arr members.toJsons)]
        ++ memberIf "typeAnnotation" Opaque.toJson typing)
  | _, .defaultPattern span target value typing =>
    tagged .assignmentPattern
      ([("span", span.toJson), ("left", json target.record?), ("right", json value.record?)]
        ++ memberIf "typeAnnotation" Opaque.toJson typing)
  | _, .exprPattern e => e.record?
  | _, .rest span dots argument typing =>
    plain
      ([("span", span.toJson), ("rest", dots.toJson), ("argument", json argument.record?)]
        ++ memberIf "typeAnnotation" Opaque.toJson typing)
  | _, .keyedPattern key value =>
    tagged .keyValuePatternProperty [("key", json key.record?), ("value", json value.record?)]
  | _, .namedPattern span name value =>
    tagged .assignmentPatternProperty
      [("span", span.toJson), ("key", name.toJson), ("value", json value.record?)]
  | _, .restMember r => withKind .restElement r.record?
  | _, .shorthand name => tagged .identifier name.members
  | _, .keyValue key value =>
    tagged .keyValueProperty [("key", json key.record?), ("value", json value.record?)]
  | _, .assignProperty name value =>
    tagged .assignmentProperty [("key", name.toJson), ("value", json value.record?)]
  | _, .getter span key body =>
    tagged .getterProperty
      [("span", span.toJson), ("key", json key.record?), ("body", json body.record?)]
  | _, .setter span key param body =>
    tagged .setterProperty
      [("span", span.toJson), ("key", json key.record?), ("param", json param.record?),
        ("body", json body.record?)]
  | _, .method key f =>
    tagged .methodProperty (("key", json key.record?) :: membersOf f.record?)
  | _, .identKey name => tagged .identifier name.members
  | _, .strKey literal => tagged .stringLiteral literal.members
  | _, .numKey literal => tagged .numericLiteral literal.members
  | _, .computedKey e => e.record?
  | _, .spreadMember s => withKind .spreadElement s.record?
  | _, .propertyMember p => p.record?
  | _, .function span params decorators body isGenerator isAsync typeParameters returnType =>
    plain
      ([("span", span.toJson), ("params", .arr params.toJsons),
        ("decorators", .arr decorators.toJsons), ("body", json body.record?),
        ("generator", .bool isGenerator), ("async", .bool isAsync)]
        ++ memberIf "typeParameters" Opaque.toJson typeParameters
        ++ memberIf "returnType" Opaque.toJson returnType)
  | _, .functionExpr name f =>
    plain (memberIf "identifier" Ident.toJson name ++ membersOf f.record?)
  | _, .blockBody b => withKind .blockStatement b.record?
  | _, .exprBody e => e.record?
  | _, .klass span decorators body superClass isAbstract typeParams superTypeParams implements =>
    plain
      ([("span", span.toJson), ("decorators", .arr decorators.toJsons), ("body", .arr body.toJsons),
        ("superClass", json superClass.record?), ("is_abstract", .bool isAbstract)]
        ++ memberIf "typeParams" Opaque.toJson typeParams
        ++ memberIf "superTypeParams" Opaque.toJson superTypeParams
        ++ [("implements", .arr (implements.map Opaque.toJson))])
  | _, .classExpr name c =>
    plain (memberIf "identifier" Ident.toJson name ++ membersOf c.record?)
  | _, .classConstructor span key params body accessibility isOptional =>
    tagged .constructor
      [("span", span.toJson), ("key", json key.record?), ("params", .arr params.toJsons),
        ("body", json body.record?), ("accessibility", ofOption ofToken accessibility),
        ("is_optional", .bool isOptional)]
  | _, .classMethod span key f traits =>
    tagged .classMethod
      ([("span", span.toJson), ("key", json key.record?), ("function", json f.record?)]
        ++ traits.members)
  | _, .privateMethod span key f traits =>
    tagged .privateMethod
      ([("span", span.toJson), ("key", key.toJson), ("function", json f.record?)]
        ++ traits.members)
  | _, .classProperty span key value decorators traits =>
    tagged .classProperty
      ([("span", span.toJson), ("key", json key.record?), ("value", json value.record?),
        ("decorators", .arr decorators.toJsons)] ++ traits.members)
  | _, .privateProperty span key value decorators traits =>
    tagged .privateProperty
      ([("span", span.toJson), ("key", key.toJson), ("value", json value.record?),
        ("decorators", .arr decorators.toJsons)] ++ traits.members)
  | _, .indexSignature payload => tagged .tsIndexSignature payload.members
  | _, .patternParam p => p.record?
  | _, .propertyParam payload => tagged .tsParameterProperty payload.members
  | _, .decorator span expression =>
    plain [("span", span.toJson), ("expression", json expression.record?)]
  | _, .block span body => plain [("span", span.toJson), ("stmts", .arr body.toJsons)]
  | _, .blockStmt b => withKind .blockStatement b.record?
  | _, .emptyStmt span => tagged .emptyStatement [("span", span.toJson)]
  | _, .debuggerStmt span => tagged .debuggerStatement [("span", span.toJson)]
  | _, .withStmt span object body =>
    tagged .withStatement
      [("span", span.toJson), ("object", json object.record?), ("body", json body.record?)]
  | _, .returnStmt span argument =>
    tagged .returnStatement [("span", span.toJson), ("argument", json argument.record?)]
  | _, .labeledStmt span label body =>
    tagged .labeledStatement
      [("span", span.toJson), ("label", label.toJson), ("body", json body.record?)]
  | _, .breakStmt span label =>
    tagged .breakStatement [("span", span.toJson), ("label", ofOption Ident.toJson label)]
  | _, .continueStmt span label =>
    tagged .continueStatement [("span", span.toJson), ("label", ofOption Ident.toJson label)]
  | _, .ifStmt span test consequent alternate =>
    tagged .ifStatement
      [("span", span.toJson), ("test", json test.record?), ("consequent", json consequent.record?),
        ("alternate", json alternate.record?)]
  | _, .switchStmt span discriminant cases =>
    tagged .switchStatement
      [("span", span.toJson), ("discriminant", json discriminant.record?),
        ("cases", .arr cases.toJsons)]
  | _, .throwStmt span argument =>
    tagged .throwStatement [("span", span.toJson), ("argument", json argument.record?)]
  | _, .tryStmt span block handler finalizer =>
    tagged .tryStatement
      [("span", span.toJson), ("block", json block.record?), ("handler", json handler.record?),
        ("finalizer", json finalizer.record?)]
  | _, .whileStmt span test body =>
    tagged .whileStatement
      [("span", span.toJson), ("test", json test.record?), ("body", json body.record?)]
  | _, .doWhileStmt span test body =>
    tagged .doWhileStatement
      [("span", span.toJson), ("test", json test.record?), ("body", json body.record?)]
  | _, .forStmt span init test update body =>
    tagged .forStatement
      [("span", span.toJson), ("init", json init.record?), ("test", json test.record?),
        ("update", json update.record?), ("body", json body.record?)]
  | _, .forInStmt span target object body =>
    tagged .forInStatement
      [("span", span.toJson), ("left", json target.record?), ("right", json object.record?),
        ("body", json body.record?)]
  | _, .forOfStmt span awaitToken target iterable body =>
    tagged .forOfStatement
      [("span", span.toJson), ("await", ofOption Span.toJson awaitToken),
        ("left", json target.record?), ("right", json iterable.record?), ("body", json body.record?)]
  | _, .declStmt d => d.record?
  | _, .exprStmt e => e.record?
  | _, .switchCase span test consequent =>
    plain
      [("span", span.toJson), ("test", json test.record?), ("consequent", .arr consequent.toJsons)]
  | _, .catchClause span param body =>
    plain [("span", span.toJson), ("param", json param.record?), ("body", json body.record?)]
  | _, .varInit v => withKind .variableDeclaration v.record?
  | _, .exprInit e => e.record?
  | _, .varTarget v => withKind .variableDeclaration v.record?
  | _, .patternTarget p => p.record?
  | _, .classDecl name isDeclare c =>
    tagged .classDeclaration
      (("identifier", name.toJson) :: ("declare", .bool isDeclare) :: membersOf c.record?)
  | _, .functionDecl name isDeclare f =>
    tagged .functionDeclaration
      (("ident", name.toJson) :: ("declare", .bool isDeclare) :: membersOf f.record?)
  | _, .variables v => withKind .variableDeclaration v.record?
  | _, .typeDecl form payload => tagged form.kind payload.members
  | _, .varDecl span kind isDeclare declarators =>
    plain
      [("span", span.toJson), ("kind", ofToken kind), ("declare", .bool isDeclare),
        ("declarations", .arr declarators.toJsons)]
  | _, .declarator span target init isDefinite =>
    plain
      [("span", span.toJson), ("id", json target.record?), ("init", json init.record?),
        ("definite", .bool isDefinite)]
  | _, .jsxMember span object property =>
    plain
      [("span", span.toJson), ("object", json object.record?), ("property", property.toJson)]
  | _, .jsxMemberObject m => withKind .jsxMemberExpression m.record?
  | _, .jsxIdentObject name => tagged .identifier name.members
  | _, .jsxIdentName name => tagged .identifier name.members
  | _, .jsxMemberName m => withKind .jsxMemberExpression m.record?
  | _, .jsxSpaceName name => tagged .jsxNamespacedName name.members
  | _, .jsxNoExpr span => tagged .jsxEmptyExpression [("span", span.toJson)]
  | _, .jsxSomeExpr e => e.record?
  | _, .jsxContainer span expression =>
    plain [("span", span.toJson), ("expression", json expression.record?)]
  | _, .jsxContainerValue c => withKind .jsxExpressionContainer c.record?
  | _, .jsxElementValue e => withKind .jsxElement e.record?
  | _, .jsxFragmentValue f => withKind .jsxFragment f.record?
  | _, .jsxExprValue e => e.record?
  | _, .jsxAttr span name value =>
    plain [("span", span.toJson), ("name", name.toJson), ("value", json value.record?)]
  | _, .jsxPlainAttr a => withKind .jsxAttribute a.record?
  | _, .jsxSpreadAttr s => withKind .spreadElement s.record?
  | _, .jsxOpening span name attrs isSelfClosing typeArguments =>
    plain
      ([("span", span.toJson), ("name", json name.record?), ("attrs", .arr attrs.toJsons),
        ("selfClosing", .bool isSelfClosing)]
        ++ memberIf "typeArguments" Opaque.toJson typeArguments)
  | _, .jsxClosing span name =>
    plain [("span", span.toJson), ("name", json name.record?)]
  | _, .jsxElement span opening children closing =>
    plain
      [("span", span.toJson), ("opening", json opening.record?), ("children", .arr children.toJsons),
        ("closing", json closing.record?)]
  | _, .jsxFragment span opening children closing =>
    plain
      [("span", span.toJson), ("opening", opening.toJson), ("children", .arr children.toJsons),
        ("closing", closing.toJson)]
  | _, .jsxTextChild t => tagged .jsxText t.members
  | _, .jsxContainerChild c => withKind .jsxExpressionContainer c.record?
  | _, .jsxSpreadChild span expression =>
    tagged .jsxSpreadChild [("span", span.toJson), ("expression", json expression.record?)]
  | _, .jsxElementChild e => withKind .jsxElement e.record?
  | _, .jsxFragmentChild f => withKind .jsxFragment f.record?
  | _, .absent => none
  | _, .present n => n.record?

/-- The objects of a list of nodes. -/
def Nodes.toJsons : {c : Category} → Nodes c → List Json
  | _, .nil => []
  | _, .cons n ns => Record.json n.record? :: ns.toJsons
end

/-- The written form of a node. -/
def Node.toJson {c : Category} (n : Node c) : Json := Record.json n.record?

end EcmaPrinter
