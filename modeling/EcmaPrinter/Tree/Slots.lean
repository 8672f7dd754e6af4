/-
# The fields of nodes in their order

A node may be given as an array: the kind first, where kinds are told apart, and then the
values of its fields in their order. Nodes that take their members from an object around
them, or keep what is not understood, are given as objects only.

Key definitions: `NodeKind.slots`, `Category.slots`.
-/
import EcmaPrinter.Tree.Node

namespace EcmaPrinter

open Json

/-- The fields of nodes of a kind, if they may be given as arrays. -/
def NodeKind.slots : NodeKind → Option (List Slot)
  -- programs and their parts
  | .moduleRoot | .scriptRoot => spanned [may "body", may "interpreter"]
  | .importDeclaration => spanned [may "specifiers", must "source"]
  | .importSpecifier => spanned [must "local", may "imported"]
  | .importDefaultSpecifier | .importNamespaceSpecifier => spanned [must "local"]
  | .exportDeclaration => spanned [must "declaration"]
  | .exportNamedDeclaration => spanned [may "specifiers", may "source"]
  | .exportSpecifier => spanned [must "orig", may "exported"]
  | .exportDefaultSpecifier => spanned [must "exported"]
  | .exportNamespaceSpecifier => spanned [must "name"]
  | .exportDefaultDeclaration => spanned [must "decl"]
  | .exportDefaultExpression => spanned [must "expression"]
  | .exportAllDeclaration => spanned [must "source"]
  -- statements and declarations
  | .blockStatement => spanned [may "stmts"]
  | .emptyStatement | .debuggerStatement => spanned []
  | .withStatement => spanned [must "object", must "body"]
  | .returnStatement => spanned [may "argument"]
  | .labeledStatement => spanned [must "label", must "body"]
  | .breakStatement | .continueStatement => spanned [may "label"]
  | .ifStatement => spanned [must "test", must "consequent", may "alternate"]
  | .switchStatement => spanned [must "discriminant", may "cases"]
  | .switchCase => spanned [may "test", may "consequent"]
  | .throwStatement => spanned [must "argument"]
  | .tryStatement => spanned [must "block", may "handler", may "finalizer"]
  | .catchClause => spanned [may "param", must "body"]
  | .whileStatement | .doWhileStatement => spanned [must "test", must "body"]
  | .forStatement => spanned [may "init", may "test", may "update", must "body"]
  | .forInStatement => spanned [must "left", must "right", must "body"]
  | .forOfStatement => spanned [may "await", must "left", must "right", must "body"]
  | .variableDeclaration => spanned [must "kind", may "declare", may "declarations"]
  | .variableDeclarator => spanned [must "id", may "init", may "definite"]
  -- expressions
  | .thisExpression | .super | .nullLiteral => spanned []
  | .identifier => Ident.slots
  | .privateName => PrivateName.slots
  | .stringLiteral => StringLit.slots
  | .numericLiteral => NumberLit.slots
  | .regExpLiteral => RegexLit.slots
  | .booleanLiteral => spanned [must "value"]
  | .templateLiteral => spanned [may "expressions", may "quasis"]
  | .templateElement => Quasi.slots
  | .taggedTemplateExpression =>
    spanned [must "tag", may "expressions", may "quasis", may "typeParameters"]
  | .arrayExpression => spanned [may "elements"]
  | .objectExpression => spanned [may "properties"]
  | .spreadElement => some [may "spread", must "arguments"]
  | .unaryExpression => spanned [must "operator", must "argument"]
  | .updateExpression => spanned [must "operator", must "prefix", must "argument"]
  | .binaryExpression | .assignmentExpression =>
    spanned [must "operator", must "left", must "right"]
  | .memberExpression => spanned [must "object", must "property", may "computed"]
  | .conditionalExpression => spanned [must "test", must "consequent", must "alternate"]
  | .callExpression | .newExpression =>
    spanned [must "callee", may "arguments", may "typeArguments"]
  | .sequenceExpression => spanned [may "expressions"]
  | .arrowFunctionExpression =>
    spanned [may "params", must "body", may "async", may "generator", may "typeParameters",
      may "returnType"]
  | .yieldExpression => spanned [may "argument", may "delegate"]
  | .metaProperty => spanned [must "meta", must "property"]
  | .awaitExpression => spanned [must "argument"]
  | .parenthesisExpression => spanned [must "expression"]
  -- patterns
  | .arrayPattern => spanned [may "elements", may "typeAnnotation"]
  | .objectPattern => spanned [may "props", may "typeAnnotation"]
  | .assignmentPattern => spanned [must "left", must "right", may "typeAnnotation"]
  | .restElement => spanned [may "rest", must "argument", may "typeAnnotation"]
  | .keyValuePatternProperty => some [must "key", must "value"]
  | .assignmentPatternProperty => spanned [must "key", may "value"]
  -- members of object literals and classes
  | .keyValueProperty | .assignmentProperty => some [must "key", must "value"]
  | .getterProperty => spanned [must "key", may "body"]
  | .setterProperty => spanned [must "key", must "param", may "body"]
  | .constructor =>
    spanned [must "key", may "params", may "body", may "accessibility", may "is_optional"]
  | .classMethod | .privateMethod =>
    spanned [must "key", must "function", must "kind", may "is_static", may "accessibility",
      may "is_abstract", may "is_optional"]
  | .classProperty | .privateProperty =>
    spanned [must "key", may "value", may "typeAnnotation", may "is_static", may "decorators",
      may "computed", may "accessibility", may "is_abstract", may "is_optional", may "readonly",
      may "definite"]
  | .decorator => spanned [must "expression"]
  -- JSX
  | .jsxMemberExpression => spanned [must "object", must "property"]
  | .jsxNamespacedName => JsxNamespacedName.slots
  | .jsxEmptyExpression => spanned []
  | .jsxExpressionContainer | .jsxSpreadChild => spanned [must "expression"]
  | .jsxText => JsxText.slots
  | .jsxElement => spanned [must "opening", may "children", may "closing"]
  | .jsxFragment => spanned [must "opening", may "children", must "closing"]
  | .jsxOpeningElement =>
    spanned [must "name", may "attrs", may "selfClosing", may "typeArguments"]
  | .jsxClosingElement => spanned [must "name"]
  | .jsxAttribute => spanned [must "name", may "value"]
  | .jsxOpeningFragment | .jsxClosingFragment => JsxFragmentTag.slots
  | _ => none

/-- The fields of the nodes of a category whose place says what they are. -/
def Category.slots : Category → Option (List Slot)
  | .spread => NodeKind.spreadElement.slots
  | .rest => NodeKind.restElement.slots
  | .function =>
    spanned [may "params", may "decorators", may "body", may "generator", may "async",
      may "typeParameters", may "returnType"]
  | .klass =>
    spanned [may "decorators", may "body", may "superClass", may "is_abstract",
      may "typeParams", may "superTypeParams", may "implements"]
  | .decorator => NodeKind.decorator.slots
  | .block => NodeKind.blockStatement.slots
  | .switchCase => NodeKind.switchCase.slots
  | .catchClause => NodeKind.catchClause.slots
  | .varDecl => NodeKind.variableDeclaration.slots
  | .declarator => NodeKind.variableDeclarator.slots
  | .jsxMember => NodeKind.jsxMemberExpression.slots
  | .jsxContainer => NodeKind.jsxExpressionContainer.slots
  | .jsxAttr => NodeKind.jsxAttribute.slots
  | .jsxOpening => NodeKind.jsxOpeningElement.slots
  | .jsxClosing => NodeKind.jsxClosingElement.slots
  | .jsxElement => NodeKind.jsxElement.slots
  | .jsxFragment => NodeKind.jsxFragment.slots
  | _ => none

end EcmaPrinter
