/-
# What holds everywhere in a tree

A test of single nodes, taken of a node and of everything inside it.

Key definitions: `Node.every`, `Nodes.every`, `Program.every`.
-/
import EcmaPrinter.Tree.Program

namespace EcmaPrinter

mutual
/-- A test passes on a node and on everything inside it. -/
def Node.every (test : {c : Category} → Node c → Bool) : {c : Category} → Node c → Bool
  -- expressions
  | _, n@(.array _ elements) => test n && elements.every test
  | _, n@(.object _ members) => test n && members.every test
  | _, n@(.functionLit f) => test n && f.every test
  | _, n@(.classLit c) => test n && c.every test
  | _, n@(.unary _ _ operand) => test n && operand.every test
  | _, n@(.update _ _ _ operand) => test n && operand.every test
  | _, n@(.binary _ _ left right) => test n && left.every test && right.every test
  | _, n@(.assign _ _ target value) => test n && target.every test && value.every test
  | _, n@(.member _ object property _) => test n && object.every test && property.every test
  | _, n@(.conditional _ condition consequent alternate) =>
    test n && condition.every test && consequent.every test && alternate.every test
  | _, n@(.call _ callee arguments _) => test n && callee.every test && arguments.every test
  | _, n@(.new _ callee arguments _) => test n && callee.every test && arguments.every test
  | _, n@(.newBare _ callee _) => test n && callee.every test
  | _, n@(.sequence _ expressions) => test n && expressions.every test
  | _, n@(.template _ expressions _) => test n && expressions.every test
  | _, n@(.taggedTemplate _ tag expressions _ _) =>
    test n && tag.every test && expressions.every test
  | _, n@(.arrow _ params body _ _ _ _) => test n && params.every test && body.every test
  | _, n@(.yield _ argument _) => test n && argument.every test
  | _, n@(.await _ argument) => test n && argument.every test
  | _, n@(.paren _ expression) => test n && expression.every test
  | _, n@(.jsxMemberExpr m) => test n && m.every test
  | _, n@(.jsxElementExpr e) => test n && e.every test
  | _, n@(.jsxFragmentExpr f) => test n && f.every test
  | _, n@(.typed _ _ expression _) => test n && expression.every test
  | _, n@(.spread _ expression) => test n && expression.every test
  | _, n@(.spreadArgument s) => test n && s.every test
  | _, n@(.plainArgument e) => test n && e.every test
  -- patterns
  | _, n@(.arrayPattern _ elements _) => test n && elements.every test
  | _, n@(.restPattern r) => test n && r.every test
  | _, n@(.objectPattern _ members _) => test n && members.every test
  | _, n@(.defaultPattern _ target value _) => test n && target.every test && value.every test
  | _, n@(.exprPattern e) => test n && e.every test
  | _, n@(.rest _ _ argument _) => test n && argument.every test
  | _, n@(.keyedPattern key value) => test n && key.every test && value.every test
  | _, n@(.namedPattern _ _ value) => test n && value.every test
  | _, n@(.restMember r) => test n && r.every test
  -- members of object literals
  | _, n@(.keyValue key value) => test n && key.every test && value.every test
  | _, n@(.assignProperty _ value) => test n && value.every test
  | _, n@(.getter _ key body) => test n && key.every test && body.every test
  | _, n@(.setter _ key param body) =>
    test n && key.every test && param.every test && body.every test
  | _, n@(.method key f) => test n && key.every test && f.every test
  | _, n@(.computedKey e) => test n && e.every test
  | _, n@(.spreadMember s) => test n && s.every test
  | _, n@(.propertyMember p) => test n && p.every test
  -- functions and classes
  | _, n@(.function _ params decorators body _ _ _ _) =>
    test n && params.every test && decorators.every test && body.every test
  | _, n@(.functionExpr _ f) => test n && f.every test
  | _, n@(.blockBody b) => test n && b.every test
  | _, n@(.exprBody e) => test n && e.every test
  | _, n@(.klass _ decorators body superClass _ _ _ _) =>
    test n && decorators.every test && body.every test && superClass.every test
  | _, n@(.classExpr _ c) => test n && c.every test
  | _, n@(.classConstructor _ key params body _ _) =>
    test n && key.every test && params.every test && body.every test
  | _, n@(.classMethod _ key f _) => test n && key.every test && f.every test
  | _, n@(.privateMethod _ _ f _) => test n && f.every test
  | _, n@(.classProperty _ key value decorators _) =>
    test n && key.every test && value.every test && decorators.every test
  | _, n@(.privateProperty _ _ value decorators _) =>
    test n && value.every test && decorators.every test
  | _, n@(.patternParam p) => test n && p.every test
  | _, n@(.decorator _ expression) => test n && expression.every test
  -- statements
  | _, n@(.block _ body) => test n && body.every test
  | _, n@(.blockStmt b) => test n && b.every test
  | _, n@(.withStmt _ object body) => test n && object.every test && body.every test
  | _, n@(.returnStmt _ argument) => test n && argument.every test
  | _, n@(.labeledStmt _ _ body) => test n && body.every test
  | _, n@(.ifStmt _ condition consequent alternate) =>
    test n && condition.every test && consequent.every test && alternate.every test
  | _, n@(.switchStmt _ discriminant cases) =>
    test n && discriminant.every test && cases.every test
  | _, n@(.throwStmt _ argument) => test n && argument.every test
  | _, n@(.tryStmt _ block handler finalizer) =>
    test n && block.every test && handler.every test && finalizer.every test
  | _, n@(.whileStmt _ condition body) => test n && condition.every test && body.every test
  | _, n@(.doWhileStmt _ condition body) => test n && condition.every test && body.every test
  | _, n@(.forStmt _ init condition update body) =>
    test n && init.every test && condition.every test && update.every test && body.every test
  | _, n@(.forInStmt _ target object body) =>
    test n && target.every test && object.every test && body.every test
  | _, n@(.forOfStmt _ _ target iterable body) =>
    test n && target.every test && iterable.every test && body.every test
  | _, n@(.declStmt d) => test n && d.every test
  | _, n@(.exprStmt e) => test n && e.every test
  | _, n@(.switchCase _ condition consequent) =>
    test n && condition.every test && consequent.every test
  | _, n@(.catchClause _ param body) => test n && param.every test && body.every test
  | _, n@(.varInit v) => test n && v.every test
  | _, n@(.exprInit e) => test n && e.every test
  | _, n@(.varTarget v) => test n && v.every test
  | _, n@(.patternTarget p) => test n && p.every test
  -- declarations
  | _, n@(.classDecl _ _ c) => test n && c.every test
  | _, n@(.functionDecl _ _ f) => test n && f.every test
  | _, n@(.variables v) => test n && v.every test
  | _, n@(.varDecl _ _ _ declarators) => test n && declarators.every test
  | _, n@(.declarator _ target init _) => test n && target.every test && init.every test
  -- JSX
  | _, n@(.jsxMember _ object _) => test n && object.every test
  | _, n@(.jsxMemberObject m) => test n && m.every test
  | _, n@(.jsxMemberName m) => test n && m.every test
  | _, n@(.jsxSomeExpr e) => test n && e.every test
  | _, n@(.jsxContainer _ expression) => test n && expression.every test
  | _, n@(.jsxContainerValue c) => test n && c.every test
  | _, n@(.jsxElementValue e) => test n && e.every test
  | _, n@(.jsxFragmentValue f) => test n && f.every test
  | _, n@(.jsxExprValue e) => test n && e.every test
  | _, n@(.jsxAttr _ _ value) => test n && value.every test
  | _, n@(.jsxPlainAttr a) => test n && a.every test
  | _, n@(.jsxSpreadAttr s) => test n && s.every test
  | _, n@(.jsxOpening _ name attrs _ _) => test n && name.every test && attrs.every test
  | _, n@(.jsxClosing _ name) => test n && name.every test
  | _, n@(.jsxElement _ opening children closing) =>
    test n && opening.every test && children.every test && closing.every test
  | _, n@(.jsxFragment _ _ children _) => test n && children.every test
  | _, n@(.jsxContainerChild c) => test n && c.every test
  | _, n@(.jsxSpreadChild _ expression) => test n && expression.every test
  | _, n@(.jsxElementChild e) => test n && e.every test
  | _, n@(.jsxFragmentChild f) => test n && f.every test
  -- places that may be empty, and nodes without parts
  | _, n@(.present m) => test n && m.every test
  | _, n => test n

/-- A test passes on every node of a list and on everything inside it. -/
def Nodes.every (test : {c : Category} → Node c → Bool) : {c : Category} → Nodes c → Bool
  | _, .nil => true
  | _, .cons n ns => n.every test && ns.every test
end

/-- The test that passes everywhere. -/
theorem Node.every_true {c : Category} (n : Node c) : n.every (fun _ => true) = true := by
  apply @Node.rec (fun _ n => n.every (fun _ => true) = true)
    (fun _ ns => ns.every (fun _ => true) = true)
  all_goals intros
  all_goals simp! [*]

/-- A node is the first one in itself. -/
theorem Node.test_of_every {test : {c : Category} → Node c → Bool} {c : Category} (n : Node c)
    (h : n.every test = true) : test n = true := by
  cases n
  all_goals dsimp! only at h
  all_goals try simp only [Bool.and_eq_true] at h
  all_goals first
    | exact h
    | exact h.1
    | exact h.1.1
    | exact h.1.1.1
    | exact h.1.1.1.1

/-- Two pairs taken together, each part on its own. -/
theorem and_imp₂ {a a' b b' c d : Prop} (hc : a → a' → c) (hd : b → b' → d) :
    a ∧ b → a' ∧ b' → c ∧ d :=
  fun h h' => ⟨hc h.1 h'.1, hd h.2 h'.2⟩

/-- Where two tests pass everywhere, so does a test that passes wherever both do. -/
theorem Node.every_imp₂ {test test' both : {c : Category} → Node c → Bool}
    (himp : ∀ {c : Category} (n : Node c), test n = true → test' n = true → both n = true)
    {c : Category} (n : Node c) :
    n.every test = true → n.every test' = true → n.every both = true := by
  apply @Node.rec
    (fun _ n => n.every test = true → n.every test' = true → n.every both = true)
    (fun _ ns => ns.every test = true → ns.every test' = true → ns.every both = true)
  all_goals intros
  all_goals rename_i h h'
  all_goals revert h h'
  all_goals dsimp! only
  all_goals try exact himp _
  all_goals try exact fun _ h => h
  -- a node passes if it and its parts do: one implication for each
  all_goals simp only [Bool.and_eq_true]
  all_goals repeat' apply and_imp₂
  all_goals first
    | exact himp _
    | assumption

/-- A test that passes wherever another one does. -/
theorem Node.every_mono {test test' : {c : Category} → Node c → Bool}
    (himp : ∀ {c : Category} (n : Node c), test n = true → test' n = true) {c : Category}
    (n : Node c) (h : n.every test = true) : n.every test' = true :=
  n.every_imp₂ (fun m hm _ => himp m hm) h h

/-- Two tests that pass everywhere. -/
theorem Node.every_and {test test' : {c : Category} → Node c → Bool} {c : Category} (n : Node c) :
    n.every test = true → n.every test' = true → n.every (fun m => test m && test' m) = true :=
  n.every_imp₂ fun _ h h' => Bool.and_eq_true_iff.mpr ⟨h, h'⟩

theorem Node.every_assign {test : {c : Category} → Node c → Bool} {span : Span} {op : AssignOp}
    {target : Pattern} {value : Expr} : (Node.assign span op target value).every test = true ↔
      test (Node.assign span op target value) = true ∧ target.every test = true ∧
        value.every test = true := by
  rw [← Bool.and_eq_true, ← Bool.and_eq_true, ← Bool.and_assoc]
  rfl

theorem Node.every_binary {test : {c : Category} → Node c → Bool} {span : Span} {op : BinaryOp}
    {left right : Expr} : (Node.binary span op left right).every test = true ↔
      test (Node.binary span op left right) = true ∧ left.every test = true ∧
        right.every test = true := by
  rw [← Bool.and_eq_true, ← Bool.and_eq_true, ← Bool.and_assoc]
  rfl

/-! ### Programs -/

section Programs

variable (test : {c : Category} → Node c → Bool)

def DefaultDecl.every : DefaultDecl → Bool
  | .klass c => c.every test
  | .function f => f.every test
  | .interface _ => true

/-- A test passes on every node in an import or export. -/
def ModuleDecl.every : ModuleDecl → Bool
  | .exportDecl _ declaration => declaration.every test
  | .exportDefaultDecl _ declaration => declaration.every test
  | .exportDefaultExpr _ expression => expression.every test
  | .importDecl _ _ _ | .exportNamed _ _ _ | .exportAll _ _ | .typeModule _ _ => true

def ModuleItem.every : ModuleItem → Bool
  | .decl d => d.every test
  | .stmt s => s.every test

/-- A test passes on every node of a program. -/
def Program.every : Program → Bool
  | .module _ body _ => body.all fun item => item.every test
  | .script _ body _ => body.all fun s => s.every test

end Programs

theorem DefaultDecl.every_true (d : DefaultDecl) : d.every (fun _ => true) = true := by
  cases d with
  | klass c => exact c.every_true
  | function f => exact f.every_true
  | interface _ => rfl

theorem ModuleDecl.every_true (d : ModuleDecl) : d.every (fun _ => true) = true := by
  cases d with
  | exportDecl _ declaration => exact declaration.every_true
  | exportDefaultDecl _ declaration => exact declaration.every_true
  | exportDefaultExpr _ expression => exact expression.every_true
  | importDecl _ _ _ | exportNamed _ _ _ | exportAll _ _ | typeModule _ _ => rfl

theorem ModuleDecl.every_and {test test' : {c : Category} → Node c → Bool} (d : ModuleDecl) :
    d.every test = true → d.every test' = true →
      d.every (fun m => test m && test' m) = true := by
  cases d with
  | exportDecl _ declaration => exact declaration.every_and
  | exportDefaultDecl _ declaration =>
    cases declaration with
    | klass c => exact c.every_and
    | function f => exact f.every_and
    | interface _ => exact fun _ h => h
  | exportDefaultExpr _ expression => exact expression.every_and
  | importDecl _ _ _ | exportNamed _ _ _ | exportAll _ _ | typeModule _ _ => exact fun _ h => h

theorem ModuleItem.every_true (item : ModuleItem) : item.every (fun _ => true) = true := by
  cases item with
  | decl d => exact d.every_true
  | stmt s => exact s.every_true

theorem Program.every_true (program : Program) : program.every (fun _ => true) = true := by
  cases program with
  | module _ body _ => exact List.all_eq_true.mpr fun item _ => item.every_true
  | script _ body _ => exact List.all_eq_true.mpr fun s _ => s.every_true

end EcmaPrinter
