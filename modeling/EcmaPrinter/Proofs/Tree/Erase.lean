/-
# Trees without positions

A tree with every span erased: offsets, lines, columns and contexts, also those of
the dots of a spread or rest and of an `await` token, of which only the presence is
left. A part that is kept without being understood is erased as a whole.

Which blanks and parentheses two neighbours need does not depend on what is erased.

Key definitions: `Node.erase`, `Nodes.erase`, `Program.erase`.
Key theorems: `Node.startsWord_erase`, `Node.leftmost_erase`.
-/
import EcmaPrinter.Emit.Adjacency
import EcmaPrinter.Tree.Program

namespace EcmaPrinter

/-! ### Leaves -/

/-- What is left of a payload is that there is one. -/
def Opaque.erase (_ : Opaque) : Opaque := ⟨.dummy, []⟩

def Ident.erase (i : Ident) : Ident :=
  ⟨.dummy, i.name, i.isOptional, i.typing.map Opaque.erase⟩

def PrivateName.erase (p : PrivateName) : PrivateName := ⟨.dummy, p.id.erase⟩

def StringLit.erase (s : StringLit) : StringLit := { s with span := .dummy }

def NumberLit.erase (n : NumberLit) : NumberLit := { n with span := .dummy }

def RegexLit.erase (r : RegexLit) : RegexLit :=
  ⟨.dummy, r.pattern.erase, r.flags.map StringLit.erase⟩

def Quasi.erase (q : Quasi) : Quasi :=
  ⟨.dummy, q.isTail, q.cooked.map StringLit.erase, q.raw.erase⟩

def JsxNamespacedName.erase (n : JsxNamespacedName) : JsxNamespacedName :=
  ⟨.dummy, n.space.erase, n.name.erase⟩

def JsxText.erase (t : JsxText) : JsxText := { t with span := .dummy }

def JsxFragmentTag.erase (_ : JsxFragmentTag) : JsxFragmentTag := ⟨.dummy⟩

def JsxAttrName.erase : JsxAttrName → JsxAttrName
  | .ident name => .ident name.erase
  | .namespaced name => .namespaced name.erase

def PropertyTraits.erase (t : PropertyTraits) : PropertyTraits :=
  { t with typing := t.typing.map Opaque.erase }

@[simp] theorem PropertyTraits.isStatic_erase (t : PropertyTraits) :
    t.erase.isStatic = t.isStatic := rfl

@[simp] theorem PropertyTraits.isComputed_erase (t : PropertyTraits) :
    t.erase.isComputed = t.isComputed := rfl

/-! ### Nodes -/

mutual
/-- A node with every span erased. -/
def Node.erase : {c : Category} → Node c → Node c
  -- expressions
  | _, .this _ => .this .dummy
  | _, .superRef _ => .superRef .dummy
  | _, .array _ elements => .array .dummy elements.erase
  | _, .object _ members => .object .dummy members.erase
  | _, .functionLit f => .functionLit f.erase
  | _, .classLit c => .classLit c.erase
  | _, .unary _ op operand => .unary .dummy op operand.erase
  | _, .update _ op isPrefix operand => .update .dummy op isPrefix operand.erase
  | _, .binary _ op left right => .binary .dummy op left.erase right.erase
  | _, .assign _ op target value => .assign .dummy op target.erase value.erase
  | _, .member _ object property isComputed => .member .dummy object.erase property.erase isComputed
  | _, .conditional _ test consequent alternate =>
    .conditional .dummy test.erase consequent.erase alternate.erase
  | _, .call _ callee arguments typeArguments =>
    .call .dummy callee.erase arguments.erase (typeArguments.map Opaque.erase)
  | _, .new _ callee arguments typeArguments =>
    .new .dummy callee.erase arguments.erase (typeArguments.map Opaque.erase)
  | _, .newBare _ callee typeArguments =>
    .newBare .dummy callee.erase (typeArguments.map Opaque.erase)
  | _, .sequence _ expressions => .sequence .dummy expressions.erase
  | _, .ident name => .ident name.erase
  | _, .str literal => .str literal.erase
  | _, .bool _ value => .bool .dummy value
  | _, .null _ => .null .dummy
  | _, .num literal => .num literal.erase
  | _, .regex literal => .regex literal.erase
  | _, .template _ expressions quasis => .template .dummy expressions.erase (quasis.map Quasi.erase)
  | _, .taggedTemplate _ tag expressions quasis typeParameters =>
    .taggedTemplate .dummy tag.erase expressions.erase (quasis.map Quasi.erase)
      (typeParameters.map Opaque.erase)
  | _, .arrow _ params body isAsync isGenerator typeParameters returnType =>
    .arrow .dummy params.erase body.erase isAsync isGenerator (typeParameters.map Opaque.erase)
      (returnType.map Opaque.erase)
  | _, .yield _ argument isDelegate => .yield .dummy argument.erase isDelegate
  | _, .metaProperty _ target property => .metaProperty .dummy target.erase property.erase
  | _, .await _ argument => .await .dummy argument.erase
  | _, .paren _ expression => .paren .dummy expression.erase
  | _, .privateName name => .privateName name.erase
  | _, .jsxMemberExpr m => .jsxMemberExpr m.erase
  | _, .jsxNamespaced name => .jsxNamespaced name.erase
  | _, .jsxEmpty _ => .jsxEmpty .dummy
  | _, .jsxElementExpr e => .jsxElementExpr e.erase
  | _, .jsxFragmentExpr f => .jsxFragmentExpr f.erase
  | _, .jsxTextExpr t => .jsxTextExpr t.erase
  | _, .typed form _ expression _ => .typed form .dummy expression.erase []
  -- `...expression`, with the span of the dots
  | _, .spread _ expression => .spread .dummy expression.erase
  | _, .spreadArgument s => .spreadArgument s.erase
  | _, .plainArgument e => .plainArgument e.erase
  -- binding patterns and assignment targets
  | _, .identPattern name => .identPattern name.erase
  | _, .arrayPattern _ elements typing =>
    .arrayPattern .dummy elements.erase (typing.map Opaque.erase)
  | _, .restPattern r => .restPattern r.erase
  | _, .objectPattern _ members typing =>
    .objectPattern .dummy members.erase (typing.map Opaque.erase)
  | _, .defaultPattern _ target value typing =>
    .defaultPattern .dummy target.erase value.erase (typing.map Opaque.erase)
  | _, .exprPattern e => .exprPattern e.erase
  | _, .rest _ _ argument typing => .rest .dummy .dummy argument.erase (typing.map Opaque.erase)
  | _, .keyedPattern key value => .keyedPattern key.erase value.erase
  | _, .namedPattern _ name value => .namedPattern .dummy name.erase value.erase
  | _, .restMember r => .restMember r.erase
  -- members of object literals
  | _, .shorthand name => .shorthand name.erase
  | _, .keyValue key value => .keyValue key.erase value.erase
  | _, .assignProperty name value => .assignProperty name.erase value.erase
  | _, .getter _ key body => .getter .dummy key.erase body.erase
  | _, .setter _ key param body => .setter .dummy key.erase param.erase body.erase
  | _, .method key f => .method key.erase f.erase
  | _, .identKey name => .identKey name.erase
  | _, .strKey literal => .strKey literal.erase
  | _, .numKey literal => .numKey literal.erase
  | _, .computedKey e => .computedKey e.erase
  | _, .spreadMember s => .spreadMember s.erase
  | _, .propertyMember p => .propertyMember p.erase
  -- functions
  | _, .function _ params decorators body isGenerator isAsync typeParameters returnType =>
    .function .dummy params.erase decorators.erase body.erase isGenerator isAsync
      (typeParameters.map Opaque.erase) (returnType.map Opaque.erase)
  | _, .functionExpr name f => .functionExpr (name.map Ident.erase) f.erase
  | _, .blockBody b => .blockBody b.erase
  | _, .exprBody e => .exprBody e.erase
  -- classes
  | _, .klass _ decorators body superClass isAbstract typeParams superTypeParams implements =>
    .klass .dummy decorators.erase body.erase superClass.erase isAbstract
      (typeParams.map Opaque.erase) (superTypeParams.map Opaque.erase)
      (implements.map Opaque.erase)
  | _, .classExpr name c => .classExpr (name.map Ident.erase) c.erase
  | _, .classConstructor _ key params body accessibility isOptional =>
    .classConstructor .dummy key.erase params.erase body.erase accessibility isOptional
  | _, .classMethod _ key f traits => .classMethod .dummy key.erase f.erase traits
  | _, .privateMethod _ key f traits => .privateMethod .dummy key.erase f.erase traits
  | _, .classProperty _ key value decorators traits =>
    .classProperty .dummy key.erase value.erase decorators.erase traits.erase
  | _, .privateProperty _ key value decorators traits =>
    .privateProperty .dummy key.erase value.erase decorators.erase traits.erase
  | _, .indexSignature payload => .indexSignature payload.erase
  | _, .patternParam p => .patternParam p.erase
  | _, .propertyParam payload => .propertyParam payload.erase
  | _, .decorator _ expression => .decorator .dummy expression.erase
  -- statements
  | _, .block _ body => .block .dummy body.erase
  | _, .blockStmt b => .blockStmt b.erase
  | _, .emptyStmt _ => .emptyStmt .dummy
  | _, .debuggerStmt _ => .debuggerStmt .dummy
  | _, .withStmt _ object body => .withStmt .dummy object.erase body.erase
  | _, .returnStmt _ argument => .returnStmt .dummy argument.erase
  | _, .labeledStmt _ label body => .labeledStmt .dummy label.erase body.erase
  | _, .breakStmt _ label => .breakStmt .dummy (label.map Ident.erase)
  | _, .continueStmt _ label => .continueStmt .dummy (label.map Ident.erase)
  | _, .ifStmt _ test consequent alternate =>
    .ifStmt .dummy test.erase consequent.erase alternate.erase
  | _, .switchStmt _ discriminant cases => .switchStmt .dummy discriminant.erase cases.erase
  | _, .throwStmt _ argument => .throwStmt .dummy argument.erase
  | _, .tryStmt _ block handler finalizer =>
    .tryStmt .dummy block.erase handler.erase finalizer.erase
  | _, .whileStmt _ test body => .whileStmt .dummy test.erase body.erase
  | _, .doWhileStmt _ test body => .doWhileStmt .dummy test.erase body.erase
  | _, .forStmt _ init test update body =>
    .forStmt .dummy init.erase test.erase update.erase body.erase
  | _, .forInStmt _ target object body => .forInStmt .dummy target.erase object.erase body.erase
  | _, .forOfStmt _ awaitToken target iterable body =>
    .forOfStmt .dummy (awaitToken.map fun _ => .dummy) target.erase iterable.erase body.erase
  | _, .declStmt d => .declStmt d.erase
  | _, .exprStmt e => .exprStmt e.erase
  | _, .switchCase _ test consequent => .switchCase .dummy test.erase consequent.erase
  | _, .catchClause _ param body => .catchClause .dummy param.erase body.erase
  | _, .varInit v => .varInit v.erase
  | _, .exprInit e => .exprInit e.erase
  | _, .varTarget v => .varTarget v.erase
  | _, .patternTarget p => .patternTarget p.erase
  -- declarations
  | _, .classDecl name isDeclare c => .classDecl name.erase isDeclare c.erase
  | _, .functionDecl name isDeclare f => .functionDecl name.erase isDeclare f.erase
  | _, .variables v => .variables v.erase
  | _, .typeDecl form payload => .typeDecl form payload.erase
  | _, .varDecl _ kind isDeclare declarators => .varDecl .dummy kind isDeclare declarators.erase
  | _, .declarator _ target init isDefinite => .declarator .dummy target.erase init.erase isDefinite
  -- JSX
  | _, .jsxMember _ object property => .jsxMember .dummy object.erase property.erase
  | _, .jsxMemberObject m => .jsxMemberObject m.erase
  | _, .jsxIdentObject name => .jsxIdentObject name.erase
  | _, .jsxIdentName name => .jsxIdentName name.erase
  | _, .jsxMemberName m => .jsxMemberName m.erase
  | _, .jsxSpaceName name => .jsxSpaceName name.erase
  | _, .jsxNoExpr _ => .jsxNoExpr .dummy
  | _, .jsxSomeExpr e => .jsxSomeExpr e.erase
  | _, .jsxContainer _ expression => .jsxContainer .dummy expression.erase
  | _, .jsxContainerValue c => .jsxContainerValue c.erase
  | _, .jsxElementValue e => .jsxElementValue e.erase
  | _, .jsxFragmentValue f => .jsxFragmentValue f.erase
  | _, .jsxExprValue e => .jsxExprValue e.erase
  | _, .jsxAttr _ name value => .jsxAttr .dummy name.erase value.erase
  | _, .jsxPlainAttr a => .jsxPlainAttr a.erase
  | _, .jsxSpreadAttr s => .jsxSpreadAttr s.erase
  | _, .jsxOpening _ name attrs isSelfClosing typeArguments =>
    .jsxOpening .dummy name.erase attrs.erase isSelfClosing (typeArguments.map Opaque.erase)
  | _, .jsxClosing _ name => .jsxClosing .dummy name.erase
  | _, .jsxElement _ opening children closing =>
    .jsxElement .dummy opening.erase children.erase closing.erase
  | _, .jsxFragment _ opening children closing =>
    .jsxFragment .dummy opening.erase children.erase closing.erase
  | _, .jsxTextChild t => .jsxTextChild t.erase
  | _, .jsxContainerChild c => .jsxContainerChild c.erase
  | _, .jsxSpreadChild _ expression => .jsxSpreadChild .dummy expression.erase
  | _, .jsxElementChild e => .jsxElementChild e.erase
  | _, .jsxFragmentChild f => .jsxFragmentChild f.erase
  -- places that may be empty
  | _, .absent => .absent
  | _, .present n => .present n.erase

/-- A list of nodes with every span erased. -/
def Nodes.erase : {c : Category} → Nodes c → Nodes c
  | _, .nil => .nil
  | _, .cons n ns => .cons n.erase ns.erase
end

/-! ### Programs -/

def ImportSpecifier.erase : ImportSpecifier → ImportSpecifier
  | .named _ binding imported => .named .dummy binding.erase (imported.map Ident.erase)
  | .default _ binding => .default .dummy binding.erase
  | .star _ binding => .star .dummy binding.erase

def ExportSpecifier.erase : ExportSpecifier → ExportSpecifier
  | .star _ name => .star .dummy name.erase
  | .default _ exported => .default .dummy exported.erase
  | .named _ source exported => .named .dummy source.erase (exported.map Ident.erase)

def DefaultDecl.erase : DefaultDecl → DefaultDecl
  | .klass c => .klass c.erase
  | .function f => .function f.erase
  | .interface payload => .interface payload.erase

def ModuleDecl.erase : ModuleDecl → ModuleDecl
  | .importDecl _ specifiers source =>
    .importDecl .dummy (specifiers.map ImportSpecifier.erase) source.erase
  | .exportDecl _ declaration => .exportDecl .dummy declaration.erase
  | .exportNamed _ specifiers source =>
    .exportNamed .dummy (specifiers.map ExportSpecifier.erase) (source.map StringLit.erase)
  | .exportDefaultDecl _ declaration => .exportDefaultDecl .dummy declaration.erase
  | .exportDefaultExpr _ expression => .exportDefaultExpr .dummy expression.erase
  | .exportAll _ source => .exportAll .dummy source.erase
  | .typeModule form payload => .typeModule form payload.erase

def ModuleItem.erase : ModuleItem → ModuleItem
  | .decl d => .decl d.erase
  | .stmt s => .stmt s.erase

/-- A program with every span erased. -/
def Program.erase : Program → Program
  | .module _ body interpreter => .module .dummy (body.map ModuleItem.erase) interpreter
  | .script _ body interpreter => .script .dummy (body.map Node.erase) interpreter

/-! ### What neighbours need -/

@[simp] theorem Nodes.isEmpty_erase {c : Category} (ns : Nodes c) :
    ns.erase.isEmpty = ns.isEmpty := by
  cases ns <;> rfl

@[simp] theorem Nodes.length_erase : ∀ {c : Category} (ns : Nodes c),
    ns.erase.length = ns.length
  | _, .nil => rfl
  | _, .cons _ ns => congrArg (· + 1) ns.length_erase

theorem Nodes.toList_erase : ∀ {c : Category} (ns : Nodes c),
    ns.erase.toList = ns.toList.map Node.erase
  | _, .nil => rfl
  | _, .cons n ns => congrArg (n.erase :: ·) ns.toList_erase

@[simp] theorem Node.startsWord_erase {c : Category} (n : Node c) :
    n.erase.startsWord = n.startsWord := by
  cases n with
  | binary _ _ left _ => exact left.startsWord_erase
  | assign _ _ target _ => exact target.startsWord_erase
  | conditional _ test _ _ => exact test.startsWord_erase
  | call _ callee _ _ => exact callee.startsWord_erase
  | member _ base _ _ => exact base.startsWord_erase
  | taggedTemplate _ tag _ _ _ => exact tag.startsWord_erase
  | sequence _ expressions =>
    cases expressions with
    | nil => rfl
    | cons first rest => exact first.startsWord_erase
  | update _ _ isPrefix operand => exact congrArg (!isPrefix && ·) operand.startsWord_erase
  | typed form _ expression _ =>
    cases form with
    | assertion => rfl
    | nonNull | cast | asType => exact expression.startsWord_erase
  | plainArgument e | exprBody e | exprPattern e | exprInit e | exprStmt e =>
    exact e.startsWord_erase
  | defaultPattern _ target _ _ => exact target.startsWord_erase
  | patternTarget p => exact p.startsWord_erase
  | declStmt d => exact d.startsWord_erase
  | _ => rfl

theorem Node.leftmost_erase {c : Category} (n : Node c) : n.erase.leftmost = n.leftmost.erase := by
  cases n with
  | binary _ _ left _ => exact left.leftmost_erase
  | conditional _ test _ _ => exact test.leftmost_erase
  | call _ callee _ _ => exact callee.leftmost_erase
  | member _ base _ _ => exact base.leftmost_erase
  | taggedTemplate _ tag _ _ _ => exact tag.leftmost_erase
  | sequence _ expressions =>
    cases expressions with
    | nil => rfl
    | cons first rest => exact first.leftmost_erase
  | update _ _ isPrefix operand =>
    cases isPrefix with
    | true => rfl
    | false => exact operand.leftmost_erase
  | assign _ _ target _ =>
    cases target with
    | exprPattern left => exact left.leftmost_erase
    | _ => rfl
  | typed form _ expression _ =>
    cases form with
    | assertion => rfl
    | nonNull | cast | asType => exact expression.leftmost_erase
  | _ => rfl

theorem continuesSign_erase (sign : UnaryOp) (double : UpdateOp) (e : Expr) :
    continuesSign sign double e.erase = continuesSign sign double e := by
  cases e <;> rfl

@[simp] theorem spaceBeforeOperand_erase (op : UnaryOp) (operand : Expr) :
    spaceBeforeOperand op operand.erase = spaceBeforeOperand op operand := by
  unfold spaceBeforeOperand
  simp only [Node.startsWord_erase, continuesSign_erase]

@[simp] theorem spaceBeforeBinary_erase (op : BinaryOp) (left : Expr) :
    spaceBeforeBinary op left.erase = spaceBeforeBinary op left := by
  cases left with
  | update _ _ isPrefix _ => cases isPrefix <;> rfl
  | _ => rfl

@[simp] theorem spaceAfterBinary_erase (op : BinaryOp) (right : Expr) :
    spaceAfterBinary op right.erase = spaceAfterBinary op right := by
  have hdecrement (e : Expr) : isPrefixDecrement e.erase = isPrefixDecrement e := by
    cases e with
    | update _ sign isPrefix _ => cases sign <;> cases isPrefix <;> rfl
    | _ => rfl
  unfold spaceAfterBinary
  rw [Node.leftmost_erase]
  congr 1
  cases right.leftmost with
  | update _ _ isPrefix _ => cases isPrefix <;> rfl
  | unary _ sign operand =>
    cases sign with
    | not => exact congrArg (_ && ·) (hdecrement operand)
    | _ => rfl
  | _ => rfl

theorem startsWithBrace_erase (e : Expr) : startsWithBrace e.erase = startsWithBrace e := by
  unfold startsWithBrace
  rw [Node.leftmost_erase]
  cases e.leftmost with
  | assign _ _ target _ => cases target <;> rfl
  | _ => rfl

@[simp] theorem stmtNeedsParens_erase (e : Expr) : stmtNeedsParens e.erase = stmtNeedsParens e := by
  have hdecl : startsWithDeclaration e.erase = startsWithDeclaration e := by
    unfold startsWithDeclaration
    rw [Node.leftmost_erase]
    cases e.leftmost <;> rfl
  unfold stmtNeedsParens
  rw [startsWithBrace_erase, hdecl]

@[simp] theorem bodyNeedsParens_erase (e : Expr) : bodyNeedsParens e.erase = bodyNeedsParens e := by
  have hsequence : isSequence e.erase = isSequence e := by
    cases e <;> rfl
  unfold bodyNeedsParens
  rw [startsWithBrace_erase, hsequence]

end EcmaPrinter
