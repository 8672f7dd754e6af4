/-
# What is read of an object

A node or a leaf is read from an object by asking for certain members. Its schema lists them: the
keys, and what is read under each. Only payloads keep what they do not ask for; of all other
objects nothing else is read.

Where an object is told apart by its kind, the kind selects the schema. A kind that is spelled
selects one. A kind that is given by a number can select one in each of the categories that are
tried in turn.

The items of an array stand for members, each for the one whose place it has. Lists are read
item by item.

Key definitions: `Shape`, `Shape.read`, `Schema`, `Category.schema`, `Category.chain`,
`Shape.schemas`, `Shape.items`.
-/
import EcmaPrinter.Proofs.Tree.Dispatch

namespace EcmaPrinter

open Json

/-- What a value is read as. -/
inductive Shape where
  /-- A text, a number, a truth value: nothing that has members. -/
  | scalar
  /-- An operator or a keyword, which may be written as the only key of an object. -/
  | token
  /-- A part of a payload, which is kept as a whole. -/
  | kept
  /-- A value that nobody asks for. -/
  | ignored
  | lineCol
  | loc
  | span
  | payload
  | ident
  | privateName
  | str
  | quasi
  | fragmentTag
  | attrName
  | node (c : Category)
  | nodes (c : Category)
  /-- A node of one kind by itself, which does not need its kind. -/
  | nodeOf (c : Category) (kind : NodeKind)
  | typedOf (form : TypedForm)
  | importSpecifier
  | importOf (kind : NodeKind)
  | exportSpecifier
  | exportOf (kind : NodeKind)
  | defaultDecl
  | moduleDecl
  | moduleDeclOf (kind : NodeKind)
  | moduleItem
  | program
  | programOf (kind : NodeKind)
  | nullable (s : Shape)
  | list (item : Shape)
deriving DecidableEq

/-- The members that are read of an object, and whether the others are kept. A member may go by
several keys. -/
structure Schema where
  fields : List (List String × Shape)
  keepsRest : Bool
deriving DecidableEq

namespace Schema

/-- The keys that are asked for. -/
def keys (s : Schema) : List String := s.fields.flatMap Prod.fst

/-- What a member is read as that has a certain key. -/
def shapes (s : Schema) (key : String) : List Shape :=
  if s.keys.contains key then
    (s.fields.filter fun field => field.1.contains key).map Prod.snd
  else [if s.keepsRest then .kept else .ignored]

/-- What the item of an array is read as that has a certain place. -/
def shapesAt (s : Schema) (slots : Option (List Slot)) (i : Nat) : List Shape :=
  match (slots.getD [])[i]? with
  | some slot => s.shapes slot.key
  | none => [.ignored]

/-- A schema of which each member has one key. -/
def of (fields : List (String × Shape)) : Schema :=
  ⟨fields.map fun field => ([field.1], field.2), false⟩

/-- A schema with a span. -/
def spanned (fields : List (String × Shape)) : Schema := of (("span", .span) :: fields)

/-- A schema beside members of its own. -/
def beside (s : Schema) (fields : List (String × Shape)) : Schema :=
  ⟨(fields.map fun field => ([field.1], field.2)) ++ s.fields, s.keepsRest⟩

/-- A schema beside the kind. -/
def tagged (s : Schema) : Schema := s.beside [("type", .scalar)]

/-- Only the kind. -/
def tag : Schema := (of []).tagged

/-- Nothing is asked for, and everything is kept. -/
def everything : Schema := ⟨[], true⟩

/-- Nothing is asked for. -/
def nothing : Schema := of []

/-! ### Leaves -/

def lineCol : Schema := of [("line", .scalar), ("column", .scalar)]

def loc : Schema := of [("start", .lineCol), ("end", .lineCol)]

def span : Schema :=
  ⟨[(["start"], .scalar), (["end"], .scalar), (["loc"], .loc), (["ctxt", "context"], .scalar)],
    false⟩

def payload : Schema := ⟨[(["span"], .span)], true⟩

def ident : Schema :=
  spanned [("value", .scalar), ("optional", .scalar), ("typeAnnotation", .nullable .payload)]

def privateName : Schema := spanned [("id", .ident)]

def str : Schema := spanned [("value", .scalar), ("has_escape", .scalar)]

def num : Schema := spanned [("value", .scalar)]

def regex : Schema := spanned [("pattern", .str), ("flags", .nullable .str)]

def quasi : Schema := spanned [("tail", .scalar), ("cooked", .nullable .str), ("raw", .str)]

def namespacedName : Schema := spanned [("namespace", .ident), ("name", .ident)]

def jsxText : Schema := spanned [("value", .scalar), ("raw", .scalar)]

def fragmentTag : Schema := spanned []

/-! ### Nodes whose place says what they are -/

def spread : Schema := of [("spread", .span), ("arguments", .node .expr)]

def rest : Schema :=
  spanned [("rest", .span), ("argument", .node .pattern), ("typeAnnotation", .nullable .payload)]

def function : Schema :=
  spanned [("params", .nodes .pattern), ("decorators", .nodes .decorator),
    ("body", .node (.opt .block)), ("generator", .scalar), ("async", .scalar),
    ("typeParameters", .nullable .payload), ("returnType", .nullable .payload)]

def functionExpr : Schema := function.beside [("identifier", .nullable .ident)]

def klass : Schema :=
  spanned [("decorators", .nodes .decorator), ("body", .nodes .classMember),
    ("superClass", .node (.opt .expr)), ("is_abstract", .scalar),
    ("typeParams", .nullable .payload), ("superTypeParams", .nullable .payload),
    ("implements", .list .payload)]

def classExpr : Schema := klass.beside [("identifier", .nullable .ident)]

def decorator : Schema := spanned [("expression", .node .expr)]

def block : Schema := spanned [("stmts", .nodes .stmt)]

def switchCase : Schema := spanned [("test", .node (.opt .expr)), ("consequent", .nodes .stmt)]

def catchClause : Schema := spanned [("param", .node (.opt .pattern)), ("body", .node .block)]

def varDecl : Schema :=
  spanned [("kind", .token), ("declare", .scalar), ("declarations", .nodes .declarator)]

def declarator : Schema :=
  spanned [("id", .node .pattern), ("init", .node (.opt .expr)), ("definite", .scalar)]

def jsxMember : Schema := spanned [("object", .node .jsxObject), ("property", .ident)]

def jsxContainer : Schema := spanned [("expression", .node .jsxExpr)]

def jsxAttr : Schema := spanned [("name", .attrName), ("value", .node (.opt .jsxAttrValue))]

def jsxOpening : Schema :=
  spanned [("name", .node .jsxName), ("attrs", .nodes .jsxAttrOrSpread), ("selfClosing", .scalar),
    ("typeArguments", .nullable .payload)]

def jsxClosing : Schema := spanned [("name", .node .jsxName)]

def jsxElement : Schema :=
  spanned [("opening", .node .jsxOpening), ("children", .nodes .jsxChild),
    ("closing", .node (.opt .jsxClosing))]

def jsxFragment : Schema :=
  spanned [("opening", .fragmentTag), ("children", .nodes .jsxChild), ("closing", .fragmentTag)]

/-! ### Nodes that are told apart by their kind -/

/-- An expression with a payload. -/
def typed : Schema := ⟨[(["span"], .span), (["expression"], .node .expr)], true⟩

def expr : NodeKind → Schema
  | .arrayExpression => spanned [("elements", .nodes (.opt .argument))]
  | .objectExpression => spanned [("properties", .nodes .objectMember)]
  | .functionExpression => functionExpr
  | .classExpression => classExpr
  | .unaryExpression => spanned [("operator", .token), ("argument", .node .expr)]
  | .updateExpression =>
    spanned [("operator", .token), ("prefix", .scalar), ("argument", .node .expr)]
  | .binaryExpression =>
    spanned [("operator", .token), ("left", .node .expr), ("right", .node .expr)]
  | .assignmentExpression =>
    spanned [("operator", .token), ("left", .node .pattern), ("right", .node .expr)]
  | .memberExpression =>
    spanned [("object", .node .expr), ("property", .node .expr), ("computed", .scalar)]
  | .conditionalExpression =>
    spanned [("test", .node .expr), ("consequent", .node .expr), ("alternate", .node .expr)]
  | .callExpression =>
    spanned [("callee", .node .expr), ("arguments", .nodes .argument),
      ("typeArguments", .nullable .payload)]
  | .newExpression =>
    spanned [("callee", .node .expr), ("arguments", .nullable (.nodes .argument)),
      ("typeArguments", .nullable .payload)]
  | .sequenceExpression => spanned [("expressions", .nodes .expr)]
  | .identifier => ident
  | .stringLiteral => str
  | .booleanLiteral => spanned [("value", .scalar)]
  | .numericLiteral => num
  | .regExpLiteral => regex
  | .templateLiteral => spanned [("expressions", .nodes .expr), ("quasis", .list .quasi)]
  | .taggedTemplateExpression =>
    spanned [("tag", .node .expr), ("expressions", .nodes .expr), ("quasis", .list .quasi),
      ("typeParameters", .nullable .payload)]
  | .arrowFunctionExpression =>
    spanned [("params", .nodes .pattern), ("body", .node .arrowBody), ("async", .scalar),
      ("generator", .scalar), ("typeParameters", .nullable .payload),
      ("returnType", .nullable .payload)]
  | .yieldExpression => spanned [("argument", .node (.opt .expr)), ("delegate", .scalar)]
  | .metaProperty => spanned [("meta", .ident), ("property", .ident)]
  | .awaitExpression => spanned [("argument", .node .expr)]
  | .parenthesisExpression => spanned [("expression", .node .expr)]
  | .privateName => privateName
  | .jsxMemberExpression => jsxMember
  | .jsxNamespacedName => namespacedName
  | .jsxElement => jsxElement
  | .jsxFragment => jsxFragment
  | .jsxText => jsxText
  | .tsTypeAssertion | .tsNonNullExpression | .tsTypeCastExpression | .tsAsExpression => typed
  | _ => spanned []

def pattern : NodeKind → Schema
  | .identifier => ident
  | .arrayPattern =>
    spanned [("elements", .nodes (.opt .pattern)), ("typeAnnotation", .nullable .payload)]
  | .restElement => rest
  | .objectPattern =>
    spanned [("props", .nodes .patternMember), ("typeAnnotation", .nullable .payload)]
  | .assignmentPattern =>
    spanned [("left", .node .pattern), ("right", .node .expr),
      ("typeAnnotation", .nullable .payload)]
  | _ => of []

def patternMember : NodeKind → Schema
  | .keyValuePatternProperty => of [("key", .node .propertyName), ("value", .node .pattern)]
  | .assignmentPatternProperty => spanned [("key", .ident), ("value", .node (.opt .expr))]
  | .restElement => rest
  | _ => of []

def property : NodeKind → Schema
  | .identifier => ident
  | .keyValueProperty => of [("key", .node .propertyName), ("value", .node .expr)]
  | .assignmentProperty => of [("key", .ident), ("value", .node .expr)]
  | .getterProperty => spanned [("key", .node .propertyName), ("body", .node (.opt .block))]
  | .setterProperty =>
    spanned [("key", .node .propertyName), ("param", .node .pattern),
      ("body", .node (.opt .block))]
  | .methodProperty => function.beside [("key", .node .propertyName)]
  | _ => of []

def propertyName : NodeKind → Schema
  | .identifier => ident
  | .stringLiteral => str
  | .numericLiteral => num
  | _ => of []

def methodTraits : List (String × Shape) :=
  [("kind", .token), ("is_static", .scalar), ("accessibility", .nullable .token),
    ("is_abstract", .scalar), ("is_optional", .scalar)]

def propertyTraits : List (String × Shape) :=
  [("typeAnnotation", .nullable .payload), ("is_static", .scalar), ("computed", .scalar),
    ("accessibility", .nullable .token), ("is_abstract", .scalar), ("is_optional", .scalar),
    ("readonly", .scalar), ("definite", .scalar)]

def classMember : NodeKind → Schema
  | .constructor =>
    spanned [("key", .node .propertyName), ("params", .nodes .param), ("body", .node (.opt .block)),
      ("accessibility", .nullable .token), ("is_optional", .scalar)]
  | .classMethod =>
    (spanned methodTraits).beside [("key", .node .propertyName), ("function", .node .function)]
  | .privateMethod =>
    (spanned methodTraits).beside [("key", .privateName), ("function", .node .function)]
  | .classProperty =>
    (spanned propertyTraits).beside [("key", .node .expr), ("value", .node (.opt .expr)),
      ("decorators", .nodes .decorator)]
  | .privateProperty =>
    (spanned propertyTraits).beside [("key", .privateName), ("value", .node (.opt .expr)),
      ("decorators", .nodes .decorator)]
  | .tsIndexSignature => payload
  | _ => of []

def stmt : NodeKind → Schema
  | .blockStatement => block
  | .withStatement => spanned [("object", .node .expr), ("body", .node .stmt)]
  | .returnStatement => spanned [("argument", .node (.opt .expr))]
  | .labeledStatement => spanned [("label", .ident), ("body", .node .stmt)]
  | .breakStatement | .continueStatement => spanned [("label", .nullable .ident)]
  | .ifStatement =>
    spanned [("test", .node .expr), ("consequent", .node .stmt), ("alternate", .node (.opt .stmt))]
  | .switchStatement => spanned [("discriminant", .node .expr), ("cases", .nodes .switchCase)]
  | .throwStatement => spanned [("argument", .node .expr)]
  | .tryStatement =>
    spanned [("block", .node .block), ("handler", .node (.opt .catchClause)),
      ("finalizer", .node (.opt .block))]
  | .whileStatement | .doWhileStatement => spanned [("test", .node .expr), ("body", .node .stmt)]
  | .forStatement =>
    spanned [("init", .node (.opt .forInit)), ("test", .node (.opt .expr)),
      ("update", .node (.opt .expr)), ("body", .node .stmt)]
  | .forInStatement =>
    spanned [("left", .node .forTarget), ("right", .node .expr), ("body", .node .stmt)]
  | .forOfStatement =>
    spanned [("await", .nullable .span), ("left", .node .forTarget), ("right", .node .expr),
      ("body", .node .stmt)]
  | _ => spanned []

def decl : NodeKind → Schema
  | .classDeclaration => klass.beside [("identifier", .ident), ("declare", .scalar)]
  | .functionDeclaration => function.beside [("ident", .ident), ("declare", .scalar)]
  | .variableDeclaration => varDecl
  | .tsInterfaceDeclaration | .tsTypeAliasDeclaration | .tsEnumDeclaration
  | .tsModuleDeclaration => payload
  | _ => of []

def jsxName : NodeKind → Schema
  | .identifier => ident
  | .jsxMemberExpression => jsxMember
  | .jsxNamespacedName => namespacedName
  | _ => of []

def jsxAttrOrSpread : NodeKind → Schema
  | .jsxAttribute => jsxAttr
  | _ => spread

def jsxAttrValue : NodeKind → Schema
  | .jsxExpressionContainer => jsxContainer
  | .jsxElement => jsxElement
  | .jsxFragment => jsxFragment
  | _ => nothing

def jsxChild : NodeKind → Schema
  | .jsxText => jsxText
  | .jsxSpreadChild => spanned [("expression", .node .expr)]
  | kind => jsxAttrValue kind

/-! ### Programs and their parts -/

def importSpecifier : NodeKind → Schema
  | .importSpecifier => spanned [("local", .ident), ("imported", .nullable .ident)]
  | _ => spanned [("local", .ident)]

def exportSpecifier : NodeKind → Schema
  | .exportSpecifier => spanned [("orig", .ident), ("exported", .nullable .ident)]
  | .exportDefaultSpecifier => spanned [("exported", .ident)]
  | _ => spanned [("name", .ident)]

def defaultDecl : NodeKind → Schema
  | .classExpression => classExpr
  | .functionExpression => functionExpr
  | _ => payload

def moduleDecl : NodeKind → Schema
  | .importDeclaration => spanned [("specifiers", .list .importSpecifier), ("source", .str)]
  | .exportDeclaration => spanned [("declaration", .node .decl)]
  | .exportNamedDeclaration =>
    spanned [("specifiers", .list .exportSpecifier), ("source", .nullable .str)]
  | .exportDefaultDeclaration => spanned [("decl", .defaultDecl)]
  | .exportDefaultExpression => spanned [("expression", .node .expr)]
  | .exportAllDeclaration => spanned [("source", .str)]
  | _ => payload

def program : NodeKind → Schema
  | .moduleRoot => spanned [("body", .list .moduleItem), ("interpreter", .nullable .scalar)]
  | _ => spanned [("body", .list (.node .stmt)), ("interpreter", .nullable .scalar)]

end Schema

namespace Category

/-- The schema of a category with one kind of nodes. -/
def single : Category → Schema
  | .spread => Schema.spread
  | .rest => Schema.rest
  | .function => Schema.function
  | .functionExpr => Schema.functionExpr
  | .klass => Schema.klass
  | .classExpr => Schema.classExpr
  | .decorator => Schema.decorator
  | .block => Schema.block
  | .switchCase => Schema.switchCase
  | .catchClause => Schema.catchClause
  | .varDecl => Schema.varDecl
  | .declarator => Schema.declarator
  | .jsxMember => Schema.jsxMember
  | .jsxContainer => Schema.jsxContainer
  | .jsxAttr => Schema.jsxAttr
  | .jsxOpening => Schema.jsxOpening
  | .jsxClosing => Schema.jsxClosing
  | .jsxElement => Schema.jsxElement
  | .jsxFragment => Schema.jsxFragment
  | _ => Schema.nothing

/-- The schema of a kind that a category tells apart. -/
def schema : Category → NodeKind → Schema
  | .expr => Schema.expr
  | .argument | .objectMember => fun _ => Schema.spread
  | .pattern => Schema.pattern
  | .patternMember => Schema.patternMember
  | .property => Schema.property
  | .propertyName => Schema.propertyName
  | .arrowBody => fun _ => Schema.block
  | .classMember => Schema.classMember
  | .param => fun _ => Schema.payload
  | .stmt => Schema.stmt
  | .forInit | .forTarget => fun _ => Schema.varDecl
  | .decl => Schema.decl
  | .jsxObject | .jsxName => Schema.jsxName
  | .jsxExpr => fun _ => Schema.spanned []
  | .jsxAttrValue => Schema.jsxAttrValue
  | .jsxAttrOrSpread => Schema.jsxAttrOrSpread
  | .jsxChild => Schema.jsxChild
  | _ => fun _ => Schema.nothing

/-- The categories at which an object is tried in turn. -/
def chain : Category → List Category
  | .argument => [.argument, .expr]
  | .pattern => [.pattern, .expr]
  | .propertyName => [.propertyName, .expr]
  | .objectMember => [.objectMember, .property]
  | .arrowBody => [.arrowBody, .expr]
  | .param => [.param, .pattern, .expr]
  | .stmt => [.stmt, .decl, .expr]
  | .forInit => [.forInit, .expr]
  | .forTarget => [.forTarget, .pattern, .expr]
  | .jsxExpr => [.jsxExpr, .expr]
  | .jsxAttrValue => [.jsxAttrValue, .expr]
  | c => [c]

end Category

/-! ### Schemas of objects -/

/-- The kinds of programs, in the order of their numbers. -/
def Program.kinds : List NodeKind := [.moduleRoot, .scriptRoot]

/-- The schema that the kind of an object selects, if it is one of the kinds that are told
apart. -/
def selected (kinds : List NodeKind) (kindAt : Json → Option NodeKind)
    (schema : NodeKind → Schema) (ms : List (String × Json)) : List Schema :=
  match required ms "type" kindAt with
  | some kind => if kind ∈ kinds then [(schema kind).tagged] else []
  | none => []

/-- The schemas of an object that is tried at some categories. Whatever its kind is, it is asked
for it. -/
def Category.schemas : Category → List (String × Json) → List Schema
  | .opt c, ms => c.schemas ms
  | c, ms =>
    if c.kinds.isEmpty then [c.single]
    else .tag :: c.chain.flatMap fun d => selected d.kinds (kindOf true d.kinds) d.schema ms

namespace Shape

/-- The schemas of an object that is read. There is more than one where a kind is given by a
number and selects one in each of several categories. -/
def schemas : Shape → List (String × Json) → List Schema
  | .token, _ | .kept, _ => [.everything]
  | .scalar, _ | .ignored, _ | .nodes _, _ | .list _, _ => [.nothing]
  | .lineCol, _ => [.lineCol]
  | .loc, _ => [.loc]
  | .span, _ => [.span]
  | .payload, _ => [.payload]
  | .ident, _ => [.ident]
  | .privateName, _ => [.privateName]
  | .str, _ => [.str]
  | .quasi, _ => [.quasi]
  | .fragmentTag, _ => [.fragmentTag]
  | .attrName, ms =>
    .tag :: selected Read.jsxAttrNameKinds (kindOf true Read.jsxAttrNameKinds) Schema.jsxName ms
  | .node c, ms => c.schemas ms
  | .nodeOf c kind, _ => [c.schema kind]
  | .typedOf _, _ => [.typed]
  | .importSpecifier, ms =>
    .tag ::
      selected ImportSpecifier.kinds (kindOf true ImportSpecifier.kinds) Schema.importSpecifier ms
  | .importOf kind, _ => [.importSpecifier kind]
  | .exportSpecifier, ms =>
    .tag ::
      selected ExportSpecifier.kinds (ExportSpecifier.exportKindOf true) Schema.exportSpecifier ms
  | .exportOf kind, _ => [.exportSpecifier kind]
  | .defaultDecl, ms =>
    .tag :: selected DefaultDecl.kinds (kindOf true DefaultDecl.kinds) Schema.defaultDecl ms
  | .moduleDecl, ms =>
    .tag :: selected ModuleDecl.kinds (kindOf true ModuleDecl.kinds) Schema.moduleDecl ms
  | .moduleDeclOf kind, _ => [.moduleDecl kind]
  | .moduleItem, ms =>
    selected ModuleDecl.kinds (kindOf true ModuleDecl.kinds) Schema.moduleDecl ms ++
      Category.stmt.schemas ms
  | .program, ms => .tag :: selected Program.kinds (kindOf true Program.kinds) Schema.program ms
  | .programOf kind, _ => [.program kind]
  | .nullable s, ms => s.schemas ms

/-- The fields of a shape that is read as a record without a kind. -/
def slots : Shape → Option (List Slot)
  | .lineCol => LineCol.slots
  | .loc => Loc.slots
  | .span => Span.slots
  | .ident => Ident.slots
  | .privateName => PrivateName.slots
  | .str => StringLit.slots
  | .quasi => Quasi.slots
  | .fragmentTag => JsxFragmentTag.slots
  | .nodeOf _ kind | .importOf kind | .exportOf kind | .moduleDeclOf kind | .programOf kind =>
    kind.slots
  | _ => none

end Shape

/-! ### Items of arrays -/

/-- What the item at a place behind the kind is read as, if the kind of the array is one of the
kinds that are told apart. -/
def selectedAt (kinds : List NodeKind) (kindAt : Json → Option NodeKind)
    (schema : NodeKind → Schema) (items : List Json) (i : Nat) : List Shape :=
  match items.head? >>= kindAt with
  | some kind => if kind ∈ kinds then (schema kind).shapesAt kind.slots i else []
  | none => []

/-- What the item at a place is read as, for arrays whose first item is the kind. -/
def taggedAt (behind : Nat → List Shape) : Nat → List Shape
  | 0 => [.scalar]
  | i + 1 => .ignored :: behind i

/-- What the item of an array at a place is read as if the array is tried at some categories. -/
def Category.items : Category → List Json → Nat → List Shape
  | .opt c, items, i => c.items items i
  | c, items, i =>
    if c.kinds.isEmpty then c.single.shapesAt c.slots i
    else taggedAt (fun i => c.chain.flatMap fun d =>
      selectedAt d.kinds (kindOf true d.kinds) d.schema items i) i

namespace Shape

/-- What the item of an array at a place is read as. -/
def items : Shape → List Json → Nat → List Shape
  | .kept, _, _ => [.kept]
  | .nodes c, _, _ => [.node c]
  | .list s, _, _ => [s]
  | .nullable s, items, i => s.items items i
  | .attrName, items, i =>
    taggedAt (selectedAt Read.jsxAttrNameKinds (kindOf true Read.jsxAttrNameKinds) Schema.jsxName items) i
  | .node c, items, i => c.items items i
  | .importSpecifier, items, i =>
    taggedAt (selectedAt ImportSpecifier.kinds (kindOf true ImportSpecifier.kinds)
      Schema.importSpecifier items) i
  | .exportSpecifier, items, i =>
    taggedAt (selectedAt ExportSpecifier.kinds (ExportSpecifier.exportKindOf true)
      Schema.exportSpecifier items) i
  | .defaultDecl, items, i =>
    taggedAt (selectedAt DefaultDecl.kinds (kindOf true DefaultDecl.kinds) Schema.defaultDecl
      items) i
  | .moduleDecl, items, i =>
    taggedAt (selectedAt ModuleDecl.kinds (kindOf true ModuleDecl.kinds) Schema.moduleDecl
      items) i
  | .moduleItem, items, i =>
    taggedAt (selectedAt ModuleDecl.kinds (kindOf true ModuleDecl.kinds) Schema.moduleDecl
      items) i ++ Category.stmt.items items i
  | .program, items, i =>
    taggedAt (selectedAt Program.kinds (kindOf true Program.kinds) Schema.program items) i
  | s, _, i => (s.schemas []).flatMap fun schema => schema.shapesAt s.slots i

/-- What a value is read to. -/
def Value : Shape → Type
  | .scalar | .token | .kept => Json
  | .ignored => Unit
  | .lineCol => LineCol
  | .loc => Loc
  | .span => Span
  | .payload => Opaque
  | .ident => Ident
  | .privateName => PrivateName
  | .str => StringLit
  | .quasi => Quasi
  | .fragmentTag => JsxFragmentTag
  | .attrName => JsxAttrName
  | .node c | .nodeOf c _ => Node c
  | .nodes c => Nodes c
  | .typedOf _ => Node .expr
  | .importSpecifier | .importOf _ => ImportSpecifier
  | .exportSpecifier | .exportOf _ => ExportSpecifier
  | .defaultDecl => DefaultDecl
  | .moduleDecl | .moduleDeclOf _ => ModuleDecl
  | .moduleItem => ModuleItem
  | .program | .programOf _ => Program
  | .nullable s => Option s.Value
  | .list s => List s.Value

end Shape

/-- What is seen of a value where a scalar is read. -/
def Json.atom : Json → Json
  | .arr _ => .arr []
  | .obj _ => .obj []
  | scalar => scalar

/-- What is seen of a value where a token is read. -/
def Json.soleMember : Json → Json
  | .obj [(key, value)] => .obj [(key, value.canonical)]
  | json => json.atom

/-- Reads a value, as part of a stored object or not. -/
def Shape.read : (s : Shape) → (stored : Bool) → Json → Option s.Value
  | .scalar, _, json => some json.atom
  | .token, _, json => some json.soleMember
  | .kept, _, json => some json.canonical
  | .ignored, _, _ => some ()
  | .lineCol, _, json => LineCol.ofJson? json
  | .loc, _, json => Loc.ofJson? json
  | .span, _, json => Span.ofJson? json
  | .payload, _, json => Opaque.ofJson? json
  | .ident, _, json => Ident.ofJson? json
  | .privateName, _, json => PrivateName.ofJson? json
  | .str, _, json => StringLit.ofJson? json
  | .quasi, _, json => Quasi.ofJson? json
  | .fragmentTag, _, json => JsxFragmentTag.ofJson? json
  | .attrName, stored, json => Read.jsxAttrName stored json
  | .node c, stored, json => json.readAt stored c
  | .nodes c, stored, json => json.readList stored c
  | .nodeOf c kind, _, json => asRecord kind.slots json >>= fun ms => c.table kind (fields ms)
  | .typedOf form, _, json => asMembers json >>= fun ms => Read.typed form (fields ms)
  | .importSpecifier, stored, json => ImportSpecifier.ofJson? stored json
  | .importOf kind, _, json => asRecord kind.slots json >>= ImportSpecifier.ofKind? kind
  | .exportSpecifier, stored, json => ExportSpecifier.ofJson? stored json
  | .exportOf kind, _, json => asRecord kind.slots json >>= ExportSpecifier.ofKind? kind
  | .defaultDecl, stored, json => DefaultDecl.ofJson? stored json
  | .moduleDecl, stored, json => ModuleDecl.ofJson? stored json
  | .moduleDeclOf kind, _, json =>
    asRecord kind.slots json >>= fun ms => ModuleDecl.ofKind? kind (fields ms)
  | .moduleItem, _, json => ModuleItem.ofJson? json
  | .program, _, json => Program.ofJson? json
  | .programOf kind, _, json => asRecord kind.slots json >>= Program.ofKind? kind
  | .nullable s, stored, json => Json.nullable (s.read stored) json
  | .list s, stored, json => asList (s.read stored) json

end EcmaPrinter
