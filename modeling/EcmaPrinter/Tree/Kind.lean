/-
# Kinds of nodes

Every node of a tree belongs to one of a closed set of kinds. In the exchange
format a kind is spelled by the `type` member of an object, and reports of what
the printer does not render name kinds the same way.

Key definitions: `NodeKind`, `NodeKind.text`, `NodeKind.ofText?`.
-/

namespace EcmaPrinter

inductive NodeKind where
  | moduleRoot
  | scriptRoot
  | blockStatement
  | emptyStatement
  | debuggerStatement
  | withStatement
  | returnStatement
  | labeledStatement
  | breakStatement
  | continueStatement
  | ifStatement
  | switchStatement
  | switchCase
  | throwStatement
  | tryStatement
  | catchClause
  | whileStatement
  | doWhileStatement
  | forStatement
  | forInStatement
  | forOfStatement
  | classDeclaration
  | functionDeclaration
  | variableDeclaration
  | variableDeclarator
  | tsInterfaceDeclaration
  | tsTypeAliasDeclaration
  | tsEnumDeclaration
  | tsModuleDeclaration
  | thisExpression
  | arrayExpression
  | objectExpression
  | functionExpression
  | unaryExpression
  | updateExpression
  | binaryExpression
  | assignmentExpression
  | memberExpression
  | conditionalExpression
  | callExpression
  | newExpression
  | sequenceExpression
  | identifier
  | stringLiteral
  | booleanLiteral
  | nullLiteral
  | numericLiteral
  | regExpLiteral
  | templateLiteral
  | templateElement
  | taggedTemplateExpression
  | arrowFunctionExpression
  | classExpression
  | yieldExpression
  | metaProperty
  | awaitExpression
  | parenthesisExpression
  | privateName
  | super
  | spreadElement
  | jsxMemberExpression
  | jsxNamespacedName
  | jsxEmptyExpression
  | jsxElement
  | jsxFragment
  | jsxText
  | jsxOpeningElement
  | jsxClosingElement
  | jsxAttribute
  | jsxExpressionContainer
  | jsxSpreadChild
  | jsxOpeningFragment
  | jsxClosingFragment
  | tsTypeAssertion
  | tsNonNullExpression
  | tsTypeCastExpression
  | tsAsExpression
  | arrayPattern
  | objectPattern
  | assignmentPattern
  | restElement
  | keyValuePatternProperty
  | assignmentPatternProperty
  | keyValueProperty
  | assignmentProperty
  | getterProperty
  | setterProperty
  | methodProperty
  | constructor
  | classMethod
  | privateMethod
  | classProperty
  | privateProperty
  | tsIndexSignature
  | tsParameterProperty
  | decorator
  | importDeclaration
  | importSpecifier
  | importDefaultSpecifier
  | importNamespaceSpecifier
  | exportDeclaration
  | exportNamedDeclaration
  | exportDefaultDeclaration
  | exportDefaultExpression
  | exportAllDeclaration
  | exportSpecifier
  | exportDefaultSpecifier
  | exportNamespaceSpecifier
  | tsImportEqualsDeclaration
  | tsExportAssignment
  | tsNamespaceExportDeclaration
  | tsTyping
  | tsTypeParameterDeclaration
  | tsTypeParameterInstantiation
  | tsExpressionWithTypeArguments
  | tsAccessibility
  | tsModifier
deriving DecidableEq

namespace NodeKind

/-- The spelling of a kind. -/
def text : NodeKind → String
  | .moduleRoot => "Module"
  | .scriptRoot => "Script"
  | .blockStatement => "BlockStatement"
  | .emptyStatement => "EmptyStatement"
  | .debuggerStatement => "DebuggerStatement"
  | .withStatement => "WithStatement"
  | .returnStatement => "ReturnStatement"
  | .labeledStatement => "LabeledStatement"
  | .breakStatement => "BreakStatement"
  | .continueStatement => "ContinueStatement"
  | .ifStatement => "IfStatement"
  | .switchStatement => "SwitchStatement"
  | .switchCase => "SwitchCase"
  | .throwStatement => "ThrowStatement"
  | .tryStatement => "TryStatement"
  | .catchClause => "CatchClause"
  | .whileStatement => "WhileStatement"
  | .doWhileStatement => "DoWhileStatement"
  | .forStatement => "ForStatement"
  | .forInStatement => "ForInStatement"
  | .forOfStatement => "ForOfStatement"
  | .classDeclaration => "ClassDeclaration"
  | .functionDeclaration => "FunctionDeclaration"
  | .variableDeclaration => "VariableDeclaration"
  | .variableDeclarator => "VariableDeclarator"
  | .tsInterfaceDeclaration => "TsInterfaceDeclaration"
  | .tsTypeAliasDeclaration => "TsTypeAliasDeclaration"
  | .tsEnumDeclaration => "TsEnumDeclaration"
  | .tsModuleDeclaration => "TsModuleDeclaration"
  | .thisExpression => "ThisExpression"
  | .arrayExpression => "ArrayExpression"
  | .objectExpression => "ObjectExpression"
  | .functionExpression => "FunctionExpression"
  | .unaryExpression => "UnaryExpression"
  | .updateExpression => "UpdateExpression"
  | .binaryExpression => "BinaryExpression"
  | .assignmentExpression => "AssignmentExpression"
  | .memberExpression => "MemberExpression"
  | .conditionalExpression => "ConditionalExpression"
  | .callExpression => "CallExpression"
  | .newExpression => "NewExpression"
  | .sequenceExpression => "SequenceExpression"
  | .identifier => "Identifier"
  | .stringLiteral => "StringLiteral"
  | .booleanLiteral => "BooleanLiteral"
  | .nullLiteral => "NullLiteral"
  | .numericLiteral => "NumericLiteral"
  | .regExpLiteral => "RegExpLiteral"
  | .templateLiteral => "TemplateLiteral"
  | .templateElement => "TemplateElement"
  | .taggedTemplateExpression => "TaggedTemplateExpression"
  | .arrowFunctionExpression => "ArrowFunctionExpression"
  | .classExpression => "ClassExpression"
  | .yieldExpression => "YieldExpression"
  | .metaProperty => "MetaProperty"
  | .awaitExpression => "AwaitExpression"
  | .parenthesisExpression => "ParenthesisExpression"
  | .privateName => "PrivateName"
  | .super => "Super"
  | .spreadElement => "SpreadElement"
  | .jsxMemberExpression => "JSXMemberExpression"
  | .jsxNamespacedName => "JSXNamespacedName"
  | .jsxEmptyExpression => "JSXEmptyExpression"
  | .jsxElement => "JSXElement"
  | .jsxFragment => "JSXFragment"
  | .jsxText => "JSXText"
  | .jsxOpeningElement => "JSXOpeningElement"
  | .jsxClosingElement => "JSXClosingElement"
  | .jsxAttribute => "JSXAttribute"
  | .jsxExpressionContainer => "JSXExpressionContainer"
  | .jsxSpreadChild => "JSXSpreadChild"
  | .jsxOpeningFragment => "JSXOpeningFragment"
  | .jsxClosingFragment => "JSXClosingFragment"
  | .tsTypeAssertion => "TsTypeAssertion"
  | .tsNonNullExpression => "TsNonNullExpression"
  | .tsTypeCastExpression => "TsTypeCastExpression"
  | .tsAsExpression => "TsAsExpression"
  | .arrayPattern => "ArrayPattern"
  | .objectPattern => "ObjectPattern"
  | .assignmentPattern => "AssignmentPattern"
  | .restElement => "RestElement"
  | .keyValuePatternProperty => "KeyValuePatternProperty"
  | .assignmentPatternProperty => "AssignmentPatternProperty"
  | .keyValueProperty => "KeyValueProperty"
  | .assignmentProperty => "AssignmentProperty"
  | .getterProperty => "GetterProperty"
  | .setterProperty => "SetterProperty"
  | .methodProperty => "MethodProperty"
  | .constructor => "Constructor"
  | .classMethod => "ClassMethod"
  | .privateMethod => "PrivateMethod"
  | .classProperty => "ClassProperty"
  | .privateProperty => "PrivateProperty"
  | .tsIndexSignature => "TsIndexSignature"
  | .tsParameterProperty => "TsParameterProperty"
  | .decorator => "Decorator"
  | .importDeclaration => "ImportDeclaration"
  | .importSpecifier => "ImportSpecifier"
  | .importDefaultSpecifier => "ImportDefaultSpecifier"
  | .importNamespaceSpecifier => "ImportNamespaceSpecifier"
  | .exportDeclaration => "ExportDeclaration"
  | .exportNamedDeclaration => "ExportNamedDeclaration"
  | .exportDefaultDeclaration => "ExportDefaultDeclaration"
  | .exportDefaultExpression => "ExportDefaultExpression"
  | .exportAllDeclaration => "ExportAllDeclaration"
  | .exportSpecifier => "ExportSpecifier"
  | .exportDefaultSpecifier => "ExportDefaultSpecifier"
  | .exportNamespaceSpecifier => "ExportNamespaceSpecifier"
  | .tsImportEqualsDeclaration => "TsImportEqualsDeclaration"
  | .tsExportAssignment => "TsExportAssignment"
  | .tsNamespaceExportDeclaration => "TsNamespaceExportDeclaration"
  | .tsTyping => "TsTypeAnnotation"
  | .tsTypeParameterDeclaration => "TsTypeParameterDeclaration"
  | .tsTypeParameterInstantiation => "TsTypeParameterInstantiation"
  | .tsExpressionWithTypeArguments => "TsExpressionWithTypeArguments"
  | .tsAccessibility => "TsAccessibility"
  | .tsModifier => "TsModifier"

/-- All kinds. -/
def all : List NodeKind :=
  [.moduleRoot, .scriptRoot, .blockStatement, .emptyStatement, .debuggerStatement, .withStatement,
   .returnStatement, .labeledStatement, .breakStatement, .continueStatement, .ifStatement,
   .switchStatement, .switchCase, .throwStatement, .tryStatement, .catchClause, .whileStatement,
   .doWhileStatement, .forStatement, .forInStatement, .forOfStatement, .classDeclaration,
   .functionDeclaration, .variableDeclaration, .variableDeclarator, .tsInterfaceDeclaration,
   .tsTypeAliasDeclaration, .tsEnumDeclaration, .tsModuleDeclaration, .thisExpression,
   .arrayExpression, .objectExpression, .functionExpression, .unaryExpression, .updateExpression,
   .binaryExpression, .assignmentExpression, .memberExpression, .conditionalExpression,
   .callExpression, .newExpression, .sequenceExpression, .identifier, .stringLiteral,
   .booleanLiteral, .nullLiteral, .numericLiteral, .regExpLiteral, .templateLiteral,
   .templateElement, .taggedTemplateExpression, .arrowFunctionExpression, .classExpression,
   .yieldExpression, .metaProperty, .awaitExpression, .parenthesisExpression, .privateName,
   .super, .spreadElement, .jsxMemberExpression, .jsxNamespacedName, .jsxEmptyExpression,
   .jsxElement, .jsxFragment, .jsxText, .jsxOpeningElement, .jsxClosingElement, .jsxAttribute,
   .jsxExpressionContainer, .jsxSpreadChild, .jsxOpeningFragment, .jsxClosingFragment,
   .tsTypeAssertion, .tsNonNullExpression, .tsTypeCastExpression, .tsAsExpression, .arrayPattern,
   .objectPattern, .assignmentPattern, .restElement, .keyValuePatternProperty,
   .assignmentPatternProperty, .keyValueProperty, .assignmentProperty, .getterProperty,
   .setterProperty, .methodProperty, .constructor, .classMethod, .privateMethod, .classProperty,
   .privateProperty, .tsIndexSignature, .tsParameterProperty, .decorator, .importDeclaration,
   .importSpecifier, .importDefaultSpecifier, .importNamespaceSpecifier, .exportDeclaration,
   .exportNamedDeclaration, .exportDefaultDeclaration, .exportDefaultExpression,
   .exportAllDeclaration, .exportSpecifier, .exportDefaultSpecifier, .exportNamespaceSpecifier,
   .tsImportEqualsDeclaration, .tsExportAssignment, .tsNamespaceExportDeclaration,
   .tsTyping, .tsTypeParameterDeclaration, .tsTypeParameterInstantiation,
   .tsExpressionWithTypeArguments, .tsAccessibility, .tsModifier]

/-- The kind with a given spelling. -/
def ofText? (s : String) : Option NodeKind := all.find? fun k => k.text == s

/-- Kinds of TypeScript syntax. -/
def isTypeScript (k : NodeKind) : Bool := "Ts".toList.isPrefixOf k.text.toList

/-- Kinds of JSX syntax. -/
def isJsx (k : NodeKind) : Bool := "JSX".toList.isPrefixOf k.text.toList

end NodeKind

end EcmaPrinter
