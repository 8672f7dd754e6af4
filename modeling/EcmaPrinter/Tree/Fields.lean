/-
# The parts of a tree's nodes

A node of a tree comes as a JSON object, or as an array with its members in their
places. Every part comes paired with its own readings at all categories, so that reading
a node is a plain function of its parts.

A node of a category with several kinds is told apart by the `type` member of its object,
which may stand anywhere, or by the first item of its array. It is not a part of the node.
For that the value is stored as a whole: nothing in it may be unreadable. The kind is
spelled; inside a stored value it may also be given by its place in the category's list.

Key definitions: `Category.kinds`, `kindOf`, `Reading`, `Fields`, `Fields.byKind`, `Parts`,
`Parts.fields`, `Parts.byKind`, `readTagged`.
-/
import EcmaPrinter.Tree.Slots

namespace EcmaPrinter

open Json

/-- The kinds that a category tells apart, in the order of their numbers. -/
def Category.kinds : Category → List NodeKind
  | .expr =>
    [.thisExpression, .arrayExpression, .objectExpression, .functionExpression, .unaryExpression,
      .updateExpression, .binaryExpression, .assignmentExpression, .memberExpression,
      .conditionalExpression, .callExpression, .newExpression, .sequenceExpression, .identifier,
      .stringLiteral, .booleanLiteral, .nullLiteral, .numericLiteral, .regExpLiteral,
      .templateLiteral, .taggedTemplateExpression, .arrowFunctionExpression, .classExpression,
      .yieldExpression, .metaProperty, .awaitExpression, .parenthesisExpression, .privateName,
      .super, .jsxMemberExpression, .jsxNamespacedName, .jsxEmptyExpression, .jsxElement,
      .jsxFragment, .jsxText, .tsTypeAssertion, .tsNonNullExpression, .tsTypeCastExpression,
      .tsAsExpression]
  | .argument => [.spreadElement]
  | .pattern => [.identifier, .arrayPattern, .restElement, .objectPattern, .assignmentPattern]
  | .patternMember => [.keyValuePatternProperty, .assignmentPatternProperty, .restElement]
  | .property =>
    [.identifier, .keyValueProperty, .assignmentProperty, .getterProperty, .setterProperty,
      .methodProperty]
  | .propertyName => [.identifier, .stringLiteral, .numericLiteral]
  | .objectMember => [.spreadElement]
  | .arrowBody => [.blockStatement]
  | .classMember =>
    [.constructor, .classMethod, .privateMethod, .classProperty, .privateProperty,
      .tsIndexSignature]
  | .param => [.tsParameterProperty]
  | .stmt =>
    [.blockStatement, .emptyStatement, .debuggerStatement, .withStatement, .returnStatement,
      .labeledStatement, .breakStatement, .continueStatement, .ifStatement, .switchStatement,
      .throwStatement, .tryStatement, .whileStatement, .doWhileStatement, .forStatement,
      .forInStatement, .forOfStatement]
  | .forInit | .forTarget => [.variableDeclaration]
  | .decl =>
    [.classDeclaration, .functionDeclaration, .variableDeclaration, .tsInterfaceDeclaration,
      .tsTypeAliasDeclaration, .tsEnumDeclaration, .tsModuleDeclaration]
  | .jsxObject => [.jsxMemberExpression, .identifier]
  | .jsxName => [.identifier, .jsxMemberExpression, .jsxNamespacedName]
  | .jsxExpr => [.jsxEmptyExpression]
  | .jsxAttrValue => [.jsxExpressionContainer, .jsxElement, .jsxFragment]
  | .jsxAttrOrSpread => [.jsxAttribute, .spreadElement]
  | .jsxChild =>
    [.jsxText, .jsxExpressionContainer, .jsxSpreadChild, .jsxElement, .jsxFragment]
  | _ => []

/-- The kind that a tag gives: spelled, or inside a stored value as a place in a list
of kinds. -/
def kindOf (stored : Bool) (kinds : List NodeKind) : Json → Option NodeKind
  | .str s => NodeKind.ofText? s
  | .int n => if stored && decide (0 ≤ n) then kinds[n.toNat]? else none
  | _ => none

/-- A JSON value with its readings at every category, as part of a stored value or
not. -/
structure Reading where
  json : Json
  node : (stored : Bool) → (c : Category) → Option (Node c)
  nodes : (stored : Bool) → (c : Category) → Option (Nodes c)

/-- The members of an object with the readings of their values, and whether the
object is stored. -/
structure Fields where
  stored : Bool
  members : List (String × Reading)

namespace Fields

/-- The members as plain JSON, for parts that hold no nodes. -/
def plain (fs : Fields) : List (String × Json) := fs.members.map fun f => (f.1, f.2.json)

/-- A part that must be there. -/
def node (fs : Fields) (key : String) (c : Category) : Option (Node c) :=
  required fs.members key fun r => r.node fs.stored c

/-- A place that may be empty. -/
def place (fs : Fields) (key : String) (c : Category) : Option (Node (.opt c)) :=
  defaulted fs.members key .absent fun r => r.node fs.stored (.opt c)

/-- A list of parts, empty if absent. -/
def nodes (fs : Fields) (key : String) (c : Category) : Option (Nodes c) :=
  defaulted fs.members key .nil fun r => r.nodes fs.stored c

/-- The members besides the given ones. -/
def without (fs : Fields) (keys : List String) : Fields :=
  { fs with members := fs.members.filter fun f => !keys.contains f.1 }

/-- The same members in a stored object. -/
def store (fs : Fields) : Option Fields :=
  if fs.stored || fs.members.all (fun f => f.2.json.isReadable) then some ⟨true, fs.members⟩
  else none

/-- Reads the object by its kind, which must be given once. -/
def byKind {α : Type} (fs : Fields) (kinds : List NodeKind)
    (table : NodeKind → Fields → Option α) : Option α := do
  let kind ← required fs.members "type" fun r => kindOf fs.stored kinds r.json
  let inner ← (fs.without ["type"]).store
  table kind inner

end Fields

/-- What a node is read from: the members of an object, or the items of an array, which
may be stored. -/
inductive Parts where
  | object (fs : Fields)
  | array (stored : Bool) (items : List Reading)

namespace Parts

/-- The same parts in a stored value. -/
def store : Parts → Option Parts
  | .object fs => fs.store.map .object
  | .array stored items =>
    if stored || items.all (fun r => r.json.isReadable) then some (.array true items) else none

/-- The parts as members, for nodes with the given fields. -/
def fields (slots : Option (List Slot)) : Parts → Option Fields
  | .object fs => some fs
  | .array stored items => do
    let slots ← slots
    let members ← place slots items
    return ⟨stored, members⟩

/-- Reads the parts by their kind, which the first item of an array gives. -/
def byKind {α : Type} (ps : Parts) (kinds : List NodeKind)
    (table : NodeKind → Fields → Option α) : Option α :=
  match ps with
  | .object fs => fs.byKind kinds table
  | .array _ [] => none
  | .array stored (tag :: items) => do
    let kind ← kindOf stored kinds tag.json
    let inner ← (array stored items).store
    let fs ← inner.fields kind.slots
    table kind fs

end Parts

/-! ## Values that hold no nodes -/

/-- The members besides `type`. -/
def untagged (ms : List (String × Json)) : List (String × Json) := ms.filter fun m => m.1 != "type"

/-- Reads a value by its kind from what stands beside the kind. -/
def readTagged {α : Type} (stored : Bool) (kindAt : Json → Option NodeKind)
    (read : NodeKind → List (String × Json) → Option α) : Json → Option α
  | .arr (tag :: items) => do
    let kind ← kindAt tag
    let items ← storedItems stored items
    let ms ← asRecord kind.slots (.arr items)
    read kind ms
  | json => do
    let ms ← storedMembers stored json
    let kind ← required ms "type" kindAt
    read kind (untagged ms)

end EcmaPrinter
