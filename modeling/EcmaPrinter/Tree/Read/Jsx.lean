/-
# Reading JSX

The parts of JSX that come in several kinds: names, attributes, and children.

Key definitions: `Read.jsxName`, `Read.jsxAttrValue`, `Read.jsxChild`.
-/
import EcmaPrinter.Tree.Read.Parts

namespace EcmaPrinter

namespace Read

def jsxObject (kind : NodeKind) (fs : Fields) : Option (Node .jsxObject) :=
  match kind with
  | .jsxMemberExpression => (jsxMember fs).map .jsxMemberObject
  | .identifier => (Ident.ofMembers? fs.plain).map .jsxIdentObject
  | _ => none

def jsxName (kind : NodeKind) (fs : Fields) : Option (Node .jsxName) :=
  match kind with
  | .identifier => (Ident.ofMembers? fs.plain).map .jsxIdentName
  | .jsxMemberExpression => (jsxMember fs).map .jsxMemberName
  | .jsxNamespacedName => (JsxNamespacedName.ofMembers? fs.plain).map .jsxSpaceName
  | _ => none

def jsxExpr (kind : NodeKind) (fs : Fields) : Option (Node .jsxExpr) :=
  match kind with
  | .jsxEmptyExpression => (spanOf fs.plain).map .jsxNoExpr
  | _ => none

def jsxAttrValue (kind : NodeKind) (fs : Fields) : Option (Node .jsxAttrValue) :=
  match kind with
  | .jsxExpressionContainer => (jsxContainer fs).map .jsxContainerValue
  | .jsxElement => (jsxElement fs).map .jsxElementValue
  | .jsxFragment => (jsxFragment fs).map .jsxFragmentValue
  | _ => none

def jsxAttrOrSpread (kind : NodeKind) (fs : Fields) : Option (Node .jsxAttrOrSpread) :=
  match kind with
  | .jsxAttribute => (jsxAttr fs).map .jsxPlainAttr
  | .spreadElement => (spread fs).map .jsxSpreadAttr
  | _ => none

def jsxChild (kind : NodeKind) (fs : Fields) : Option (Node .jsxChild) :=
  match kind with
  | .jsxText => (JsxText.ofMembers? fs.plain).map .jsxTextChild
  | .jsxExpressionContainer => (jsxContainer fs).map .jsxContainerChild
  | .jsxSpreadChild => do
    let span ← spanOf fs.plain
    let expression ← fs.node "expression" .expr
    return .jsxSpreadChild span expression
  | .jsxElement => (jsxElement fs).map .jsxElementChild
  | .jsxFragment => (jsxFragment fs).map .jsxFragmentChild
  | _ => none

end Read

end EcmaPrinter
