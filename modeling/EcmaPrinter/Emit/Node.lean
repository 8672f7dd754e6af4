/-
# The document of a node

What every node prints as. The document of a list of nodes is its items; each
owner lays them out under its own format. Expressions, patterns and statements
record where they start; a node inside another that is printed by its owner, like
the name behind a dot, does not.

What is not rendered is refused where it is met: TypeScript parts, decorators and
JSX.

Key definitions: `Node.emit`, `Nodes.items`.
-/
import EcmaPrinter.Emit.Parts

namespace EcmaPrinter

open Doc

open Emit in
mutual
/-- The document of a node. That of a function is what follows its name, and that
of a class what follows the name of the class. -/
def Node.emit : {c : Category} → Node c → Doc
  -- expressions
  | _, .this span => .mark span ++ "this"
  | _, .superRef span => .mark span ++ "super"
  | _, .array span elements =>
    .mark span ++ list span ListFormat.arrayLiteralExpressionElements
      (closeHole (endsWithHole elements) elements.items)
  | _, .object span members =>
    .mark span ++ list span ListFormat.objectLiteralExpressionProperties members.items
  | _, .functionLit f => .mark f.span ++ f.emit
  | _, .classLit c => .mark c.span ++ c.emit
  | _, .unary span op operand =>
    .mark span ++ .text op.text
      ++ (if spaceBeforeOperand op operand then space else when op.isKeyword .softSpace)
      ++ operand.emit
  | _, .update span op isPrefix operand =>
    .mark span ++
      if isPrefix then .text op.text ++ operand.emit else operand.emit ++ .text op.text
  | _, .binary span op left right =>
    .mark span ++ left.emit ++ spaceIf (spaceBeforeBinary op left) ++ .text op.text
      ++ spaceIf (spaceAfterBinary op right) ++ right.emit
  | _, .assign span op target value =>
    .mark span ++ target.emit ++ assignedValue op.text value.emit
  | _, .member span base property isComputed =>
    .mark span ++ member base property isComputed base.emit property.emit
  | _, .conditional span test consequent alternate =>
    .mark span ++ test.emit ++ assignedValue "?" consequent.emit ++ assignedValue ":" alternate.emit
  | _, .call span callee arguments typeArguments =>
    .mark span ++ reject typeArguments.isSome .tsTypeParameterInstantiation ++ callee.emit
      ++ list span ListFormat.callExpressionArguments arguments.items
  | _, .new span callee arguments typeArguments =>
    .mark span ++ reject typeArguments.isSome .tsTypeParameterInstantiation
      ++ keywordBefore "new" callee callee.emit
      ++ listIfAny span ListFormat.newExpressionArguments (some arguments.items)
  | _, .newBare span callee typeArguments =>
    .mark span ++ reject typeArguments.isSome .tsTypeParameterInstantiation
      ++ keywordBefore "new" callee callee.emit
      ++ listIfAny span ListFormat.newExpressionArguments none
  | _, .sequence span expressions =>
    .mark span ++ list span ListFormat.commaListElements expressions.items
  | _, .ident name => .mark name.span ++ Emit.ident name
  | _, .str literal => .mark literal.span ++ Emit.str literal
  | _, .bool span value => .mark span ++ .text (if value then "true" else "false")
  | _, .null span => .mark span ++ "null"
  | _, .num literal => .mark literal.span ++ Emit.num literal
  | _, .regex literal => .mark literal.span ++ Emit.regex literal
  | _, .template span expressions quasis =>
    .mark span ++ Emit.template quasis expressions.items
  | _, .taggedTemplate span tag expressions quasis typeParameters =>
    .mark span ++ reject typeParameters.isSome .tsTypeParameterInstantiation ++ tag.emit
      ++ Emit.template quasis expressions.items
  | _, .arrow span params body isAsync _ typeParameters returnType =>
    .mark span ++ reject typeParameters.isSome .tsTypeParameterDeclaration
      ++ reject returnType.isSome .tsTyping
      ++ when isAsync ("async" ++ .softSpace)
      ++ list span ListFormat.parameters params.items
      ++ assignedValue "=>" (arrowBody body body.emit)
  | _, .yield span argument isDelegate =>
    .mark span ++ "yield" ++ when isDelegate "*" ++ yieldArgument isDelegate argument argument.emit
  | _, .metaProperty span target property =>
    .mark span ++ Emit.ident target ++ "." ++ Emit.ident property
  | _, .await span argument => .mark span ++ keywordBefore "await" argument argument.emit
  | _, .paren span expression => .mark span ++ between "(" ")" expression.emit
  | _, .privateName name => .mark name.span ++ Emit.privateName name
  | _, .jsxEmpty span => .mark span
  | _, .jsxMemberExpr m => .mark m.span ++ reject true .jsxMemberExpression
  | _, .jsxNamespaced name => .mark name.span ++ reject true .jsxNamespacedName
  | _, .jsxElementExpr e => .mark e.span ++ reject true .jsxElement
  | _, .jsxFragmentExpr f => .mark f.span ++ reject true .jsxFragment
  | _, .jsxTextExpr t => .mark t.span ++ reject true .jsxText
  | _, .typed form span _ _ => .mark span ++ reject true form.kind
  | _, .spread _ expression => "..." ++ expression.emit
  | _, .spreadArgument s => s.emit
  | _, .plainArgument e => e.emit
  -- patterns
  | _, .identPattern name => .mark name.span ++ Emit.ident name
  | _, .arrayPattern span elements typing =>
    .mark span ++ reject typing.isSome .tsTyping
      ++ list span ListFormat.arrayBindingPatternElements
        (closeHole (endsWithHole elements) elements.items)
  | _, .restPattern r => .mark r.span ++ r.emit
  | _, .objectPattern span members typing =>
    .mark span ++ reject typing.isSome .tsTyping
      ++ list span ListFormat.objectBindingPatternElements members.items
  | _, .defaultPattern span target value typing =>
    .mark span ++ reject typing.isSome .tsTyping ++ target.emit ++ assignedValue "=" value.emit
  | _, .exprPattern e => .mark e.span ++ e.emit
  | _, .rest _ _ argument typing => reject typing.isSome .tsTyping ++ "..." ++ argument.emit
  | _, .keyedPattern key value => key.emit ++ ":" ++ .softSpace ++ value.emit
  | _, .namedPattern _ name value => Emit.ident name ++ initializer value value.emit
  | _, .restMember r => r.emit
  -- members of object literals
  | _, .shorthand name => Emit.ident name
  | _, .keyValue key value => key.emit ++ ":" ++ .softSpace ++ value.emit
  | _, .assignProperty name value => Emit.ident name ++ assignedValue "=" value.emit
  | _, .getter _ key body =>
    needsBody .getter body ++ "get" ++ space ++ key.emit ++ "()" ++ .softSpace ++ body.emit
  | _, .setter _ key param body =>
    needsBody .setter body ++ "set" ++ space ++ key.emit ++ between "(" ")" param.emit
      ++ .softSpace ++ body.emit
  | _, .method key f => methodWords f ++ key.emit ++ f.emit
  | _, .identKey name => Emit.ident name
  | _, .strKey literal => Emit.str literal
  | _, .numKey literal => Emit.num literal
  | _, .computedKey e => between "[" "]" e.emit
  | _, .spreadMember s => s.emit
  | _, .propertyMember p => p.emit
  -- functions
  | _, .function span params decorators body _ _ typeParameters returnType =>
    reject (!decorators.isEmpty) .decorator
      ++ reject typeParameters.isSome .tsTypeParameterDeclaration
      ++ reject returnType.isSome .tsTyping ++ needsBody .function body
      ++ list span ListFormat.parameters params.items ++ .softSpace ++ body.emit
  | _, .functionExpr name f => functionKeyword f ++ functionName f name ++ f.emit
  | _, .blockBody b => b.emit
  | _, .exprBody e => e.emit
  -- classes
  | _, .klass span _ body superClass _ _ _ _ =>
    heritage superClass superClass.emit ++ .softSpace
      ++ list span ListFormat.classMembers body.items
  | _, .classExpr name c => namedClass name c c.emit
  | _, .classConstructor span key params body accessibility isOptional =>
    rejectModifiers accessibility false isOptional ++ needsBody .classConstructor body ++ key.emit
      ++ list span ListFormat.parameters params.items ++ .softSpace ++ body.emit
  | _, .classMethod _ key f traits =>
    rejectModifiers traits.accessibility traits.isAbstract traits.isOptional
      ++ methodLead traits f ++ key.emit ++ f.emit
  | _, .privateMethod _ key f traits =>
    rejectModifiers traits.accessibility traits.isAbstract traits.isOptional
      ++ methodLead traits f ++ Emit.privateName key ++ f.emit
  | _, .classProperty _ key value decorators traits =>
    rejectTraits decorators traits ++ when traits.isStatic ("static" ++ space)
      ++ (if traits.isComputed then between "[" "]" key.emit else key.emit)
      ++ initializer value value.emit ++ ";"
  | _, .privateProperty _ key value decorators traits =>
    rejectTraits decorators traits ++ when traits.isStatic ("static" ++ space)
      ++ Emit.privateName key ++ initializer value value.emit ++ ";"
  | _, .indexSignature _ => reject true .tsIndexSignature
  | _, .patternParam p => p.emit
  | _, .propertyParam _ => reject true .tsParameterProperty
  | _, .decorator _ _ => reject true .decorator
  -- statements
  | _, .block span body => list span ListFormat.multiLineBlockStatements body.items
  | _, .blockStmt b => .mark b.span ++ b.emit
  | _, .emptyStmt span => .mark span ++ ";"
  | _, .debuggerStmt span => .mark span ++ "debugger" ++ ";"
  | _, .withStmt span object body =>
    .mark span ++ headed "with" object.emit ++ .softSpace ++ body.emit
  | _, .returnStmt span argument =>
    .mark span ++ "return" ++ operandAfter argument argument.emit ++ ";"
  | _, .labeledStmt span label body =>
    .mark span ++ Emit.ident label ++ ":" ++ .softSpace ++ body.emit
  | _, .breakStmt span label => .mark span ++ jump "break" label
  | _, .continueStmt span label => .mark span ++ jump "continue" label
  | _, .ifStmt span test consequent alternate =>
    .mark span ++ headed "if" test.emit ++ .softSpace ++ consequent.emit
      ++ elseBranch consequent alternate alternate.emit
  | _, .switchStmt span discriminant cases =>
    .mark span ++ headed "switch" discriminant.emit ++ .softSpace
      ++ list span ListFormat.caseBlockClauses cases.items
  | _, .throwStmt span argument =>
    .mark span ++ keywordBefore "throw" argument argument.emit ++ ";"
  | _, .tryStmt span block handler finalizer =>
    .mark span ++ "try" ++ .softSpace ++ block.emit ++ spaced handler handler.emit
      ++ finallyBlock finalizer finalizer.emit
  | _, .whileStmt span test body =>
    .mark span ++ headed "while" test.emit ++ .softSpace ++ body.emit
  | _, .doWhileStmt span test body =>
    .mark span ++ keywordBefore "do" body body.emit ++ .softSpace ++ headed "while" test.emit ++ ";"
  | _, .forStmt span init test update body =>
    .mark span
      ++ headed "for" (init.emit ++ ";" ++ spaced test test.emit ++ ";" ++ spaced update update.emit)
      ++ .softSpace ++ body.emit
  | _, .forInStmt span target object body =>
    .mark span
      ++ headed "for" (checkBindings .forIn target ++ target.emit ++ space
        ++ keywordBefore "in" object object.emit)
      ++ .softSpace ++ body.emit
  | _, .forOfStmt span awaitToken target iterable body =>
    .mark span ++ "for" ++ when awaitToken.isSome (space ++ "await") ++ .softSpace
      ++ between "(" ")" (checkBindings .forOf target ++ target.emit ++ space
        ++ keywordBefore "of" iterable iterable.emit)
      ++ .softSpace ++ body.emit
  | _, .declStmt d => .mark d.span ++ d.emit
  | _, .exprStmt e => .mark e.span ++ parensIf (stmtNeedsParens e) e.emit ++ ";"
  | _, .switchCase span test consequent =>
    caseHead test test.emit ++ caseBody span consequent.items
  | _, .catchClause _ param body =>
    "catch" ++ .softSpace ++ catchParam param param.emit ++ body.emit
  | _, .varInit v => v.emit
  | _, .exprInit e => e.emit
  | _, .varTarget v => v.emit
  | _, .patternTarget p => p.emit
  -- declarations
  | _, .classDecl name isDeclare c => reject isDeclare .tsModifier ++ namedClass (some name) c c.emit
  | _, .functionDecl name isDeclare f =>
    reject isDeclare .tsModifier ++ functionKeyword f ++ functionName f (some name) ++ f.emit
  | _, .variables v => v.emit ++ ";"
  | _, .typeDecl form _ => reject true form.kind
  | _, .varDecl span kind isDeclare declarators =>
    reject isDeclare .tsModifier ++ bindingKeyword kind declarators
      ++ list span ListFormat.variableDeclarationList declarators.items
  | _, .declarator _ target init isDefinite =>
    reject isDefinite .tsModifier ++ target.emit ++ initializer init init.emit
  -- JSX parts are refused with the expression they belong to
  | _, .jsxMember _ _ _ | _, .jsxMemberObject _ | _, .jsxMemberName _ =>
    reject true .jsxMemberExpression
  | _, .jsxIdentObject name | _, .jsxIdentName name => Emit.ident name
  | _, .jsxSpaceName _ => reject true .jsxNamespacedName
  | _, .jsxNoExpr _ => .empty
  | _, .jsxSomeExpr e => e.emit
  | _, .jsxContainer _ _ | _, .jsxContainerValue _ | _, .jsxContainerChild _ =>
    reject true .jsxExpressionContainer
  | _, .jsxElement _ _ _ _ | _, .jsxElementValue _ | _, .jsxElementChild _ =>
    reject true .jsxElement
  | _, .jsxFragment _ _ _ _ | _, .jsxFragmentValue _ | _, .jsxFragmentChild _ =>
    reject true .jsxFragment
  | _, .jsxExprValue e => e.emit
  | _, .jsxAttr _ _ _ | _, .jsxPlainAttr _ | _, .jsxSpreadAttr _ => reject true .jsxAttribute
  | _, .jsxOpening _ _ _ _ _ => reject true .jsxOpeningElement
  | _, .jsxClosing _ _ => reject true .jsxClosingElement
  | _, .jsxTextChild _ => reject true .jsxText
  | _, .jsxSpreadChild _ _ => reject true .jsxSpreadChild
  -- places that may be empty
  | _, .absent => .empty
  | _, .present n => n.emit

/-- The items of a list of nodes. -/
def Nodes.items : {c : Category} → Nodes c → List Item
  | _, .nil => []
  | _, .cons n ns => ⟨n.span, n.emit⟩ :: ns.items
end

end EcmaPrinter
