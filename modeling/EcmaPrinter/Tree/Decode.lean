/-
# Reading trees from JSON

A JSON value is read at a category, by recursion on the nesting of the JSON: the
members of an object or the items of an array are read first, each at every category
that it might be asked for, and the value's own table picks what it needs.

Some categories take in the nodes of another one: a statement may be a
declaration or an expression. There the category's own kinds are tried first, and
what is not one of them is read at the other category.

Key definitions: `readParts`, `Json.readAt`, `Json.read`.
-/
import EcmaPrinter.Tree.Read.Expr
import EcmaPrinter.Tree.Read.Jsx
import EcmaPrinter.Tree.Read.Stmt

namespace EcmaPrinter

open Json

open Read in
/-- Reads parts at a category. A category that takes in another one stores the value that
they are parts of. -/
def readParts (ps : Parts) : (c : Category) → Option (Node c)
  | .expr => anyExpr ps
  | .spread => ps.fields Category.spread.slots >>= spread
  | .argument => do
    let ps ← ps.store
    ps.byKind Category.argument.kinds argument <|> (anyExpr ps).map .plainArgument
  | .pattern => ps.store >>= anyPattern
  | .rest => ps.fields Category.rest.slots >>= rest
  | .patternMember => ps.byKind Category.patternMember.kinds patternMember
  | .property => ps.byKind Category.property.kinds property
  | .propertyName => do
    let ps ← ps.store
    ps.byKind Category.propertyName.kinds propertyName <|> (anyExpr ps).map .computedKey
  | .objectMember => do
    let ps ← ps.store
    ps.byKind Category.objectMember.kinds objectMember
      <|> (ps.byKind Category.property.kinds property).map .propertyMember
  | .function => ps.fields Category.function.slots >>= function
  | .functionExpr => ps.fields Category.functionExpr.slots >>= functionExpr
  | .arrowBody => do
    let ps ← ps.store
    ps.byKind Category.arrowBody.kinds arrowBody <|> (anyExpr ps).map .exprBody
  | .klass => ps.fields Category.klass.slots >>= klass
  | .classExpr => ps.fields Category.classExpr.slots >>= classExpr
  | .classMember => ps.byKind Category.classMember.kinds classMember
  | .param => do
    let ps ← ps.store
    ps.byKind Category.param.kinds param <|> (anyPattern ps).map .patternParam
  | .decorator => ps.fields Category.decorator.slots >>= decorator
  | .block => ps.fields Category.block.slots >>= block
  | .stmt => do
    let ps ← ps.store
    ps.byKind Category.stmt.kinds stmt
      <|> (ps.byKind Category.decl.kinds decl).map .declStmt
      <|> (anyExpr ps).map .exprStmt
  | .switchCase => ps.fields Category.switchCase.slots >>= switchCase
  | .catchClause => ps.fields Category.catchClause.slots >>= catchClause
  | .forInit => do
    let ps ← ps.store
    ps.byKind Category.forInit.kinds forInit <|> (anyExpr ps).map .exprInit
  | .forTarget => do
    let ps ← ps.store
    ps.byKind Category.forTarget.kinds forTarget <|> (anyPattern ps).map .patternTarget
  | .decl => ps.byKind Category.decl.kinds decl
  | .varDecl => ps.fields Category.varDecl.slots >>= varDecl
  | .declarator => ps.fields Category.declarator.slots >>= declarator
  | .jsxMember => ps.fields Category.jsxMember.slots >>= jsxMember
  | .jsxObject => ps.byKind Category.jsxObject.kinds jsxObject
  | .jsxName => ps.byKind Category.jsxName.kinds jsxName
  | .jsxExpr => do
    let ps ← ps.store
    ps.byKind Category.jsxExpr.kinds jsxExpr <|> (anyExpr ps).map .jsxSomeExpr
  | .jsxContainer => ps.fields Category.jsxContainer.slots >>= jsxContainer
  | .jsxAttrValue => do
    let ps ← ps.store
    ps.byKind Category.jsxAttrValue.kinds jsxAttrValue <|> (anyExpr ps).map .jsxExprValue
  | .jsxAttr => ps.fields Category.jsxAttr.slots >>= jsxAttr
  | .jsxAttrOrSpread => ps.byKind Category.jsxAttrOrSpread.kinds jsxAttrOrSpread
  | .jsxOpening => ps.fields Category.jsxOpening.slots >>= jsxOpening
  | .jsxClosing => ps.fields Category.jsxClosing.slots >>= jsxClosing
  | .jsxElement => ps.fields Category.jsxElement.slots >>= jsxElement
  | .jsxFragment => ps.fields Category.jsxFragment.slots >>= jsxFragment
  | .jsxChild => ps.byKind Category.jsxChild.kinds jsxChild
  | .opt c => (readParts ps c).map .present

/-- A value without parts is read as an empty place if it is `null`, and at no category
otherwise. -/
def readScalar (json : Json) : (c : Category) → Option (Node c)
  | .opt _ =>
    match json with
    | .null => some .absent
    | _ => none
  | _ => none

mutual
/-- Reads a value at a category, as part of a stored object or not. -/
def Json.readAt : Json → (stored : Bool) → (c : Category) → Option (Node c)
  | .obj members => fun stored => readParts (.object ⟨stored, readMembers members⟩)
  | .arr items => fun stored => readParts (.array stored (readings items))
  | scalar => fun _ => readScalar scalar

/-- Reads a list of nodes of a category. -/
def Json.readList : Json → (stored : Bool) → (c : Category) → Option (Nodes c)
  | .arr items => readItems items
  | _ => fun _ _ => none

/-- Reads the items of a list. -/
def Json.readItems : List Json → (stored : Bool) → (c : Category) → Option (Nodes c)
  | [] => fun _ _ => some .nil
  | item :: items => fun stored c => do
    let n ← item.readAt stored c
    let ns ← readItems items stored c
    return .cons n ns

/-- The items of an array with their readings. -/
def Json.readings : List Json → List Reading
  | [] => []
  | item :: items => ⟨item, item.readAt, item.readList⟩ :: readings items

/-- The members of an object with their readings. -/
def Json.readMembers : List (String × Json) → List (String × Reading)
  | [] => []
  | (key, value) :: members => (key, ⟨value, value.readAt, value.readList⟩) :: readMembers members
end

/-- Reads a value at a category. The outermost kind must be spelled. -/
def Json.read (json : Json) (c : Category) : Option (Node c) := json.readAt false c

/-- The members of an outermost object. -/
def Json.fields (members : List (String × Json)) : Fields := ⟨false, readMembers members⟩

/-- The parts of a value. -/
def Json.parts? (stored : Bool) : Json → Option Parts
  | .obj members => some (.object ⟨stored, readMembers members⟩)
  | .arr items => some (.array stored (readings items))
  | _ => none

end EcmaPrinter
