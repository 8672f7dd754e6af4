/-
# Trees as they are read back

Several forms of node are written alike: a name, and a pattern that wraps a name. What is
read from such a value is the form that the category has for the kind. A tree is settled
by giving every wrapped expression that form; settling does not change what is written,
and what it gives is settled.

Key definitions: `Node.asPattern`, `Node.asKey`, `Node.settle`, `Program.settle`.
Key theorems: `Node.record?_settle`, `Node.every_settle`, `Program.ofJson?_toJson`,
`Node.firstSettles`.
-/
import EcmaPrinter.Emit.Adjacency
import EcmaPrinter.Proofs.Tree.Roots

namespace EcmaPrinter

/-! ### Expressions in place of other nodes -/

namespace Node

/-- An expression as a pattern. A name is one by itself. -/
def asPattern : Node .expr → Node .pattern
  | .ident name => .identPattern name
  | e => .exprPattern e

/-- An expression as a key. Names, strings and numbers are keys by themselves. -/
def asKey : Node .expr → Node .propertyName
  | .ident name => .identKey name
  | .str literal => .strKey literal
  | .num literal => .numKey literal
  | e => .computedKey e

/-- An expression in the braces of JSX. -/
def asJsxExpr : Node .expr → Node .jsxExpr
  | .jsxEmpty span => .jsxNoExpr span
  | e => .jsxSomeExpr e

/-- An expression as the value of a JSX attribute. -/
def asAttrValue : Node .expr → Node .jsxAttrValue
  | .jsxElementExpr e => .jsxElementValue e
  | .jsxFragmentExpr f => .jsxFragmentValue f
  | e => .jsxExprValue e

theorem asPattern_cases (e : Expr) :
    (∃ name, e = .ident name ∧ e.asPattern = .identPattern name) ∨
      (exprPattern e).isSettled = true ∧ e.asPattern = .exprPattern e := by
  cases e with
  | ident name => exact .inl ⟨name, rfl, rfl⟩
  | typed form _ _ _ => cases form <;> exact .inr ⟨rfl, rfl⟩
  | _ => exact .inr ⟨rfl, rfl⟩

theorem asKey_cases (e : Expr) :
    (∃ name, e = .ident name ∧ e.asKey = .identKey name) ∨
      (∃ literal, e = .str literal ∧ e.asKey = .strKey literal) ∨
      (∃ literal, e = .num literal ∧ e.asKey = .numKey literal) ∨
      (computedKey e).isSettled = true ∧ e.asKey = .computedKey e := by
  cases e with
  | ident name => exact .inl ⟨name, rfl, rfl⟩
  | str literal => exact .inr (.inl ⟨literal, rfl, rfl⟩)
  | num literal => exact .inr (.inr (.inl ⟨literal, rfl, rfl⟩))
  | typed form _ _ _ => cases form <;> exact .inr (.inr (.inr ⟨rfl, rfl⟩))
  | _ => exact .inr (.inr (.inr ⟨rfl, rfl⟩))

theorem asJsxExpr_cases (e : Expr) :
    (∃ span, e = .jsxEmpty span ∧ e.asJsxExpr = .jsxNoExpr span) ∨
      (jsxSomeExpr e).isSettled = true ∧ e.asJsxExpr = .jsxSomeExpr e := by
  cases e with
  | jsxEmpty span => exact .inl ⟨span, rfl, rfl⟩
  | typed form _ _ _ => cases form <;> exact .inr ⟨rfl, rfl⟩
  | _ => exact .inr ⟨rfl, rfl⟩

theorem asAttrValue_cases (e : Expr) :
    (∃ element, e = .jsxElementExpr element ∧ e.asAttrValue = .jsxElementValue element) ∨
      (∃ f, e = .jsxFragmentExpr f ∧ e.asAttrValue = .jsxFragmentValue f) ∨
      (jsxExprValue e).isSettled = true ∧ e.asAttrValue = .jsxExprValue e := by
  cases e with
  | jsxElementExpr element => exact .inl ⟨element, rfl, rfl⟩
  | jsxFragmentExpr f => exact .inr (.inl ⟨f, rfl, rfl⟩)
  | typed form _ _ _ => cases form <;> exact .inr (.inr ⟨rfl, rfl⟩)
  | _ => exact .inr (.inr ⟨rfl, rfl⟩)

@[simp] theorem record?_asPattern (e : Expr) : e.asPattern.record? = e.record? := by
  obtain ⟨name, rfl, h⟩ | ⟨-, h⟩ := e.asPattern_cases <;> rw [h] <;> rfl

@[simp] theorem record?_asKey (e : Expr) : e.asKey.record? = e.record? := by
  obtain ⟨_, rfl, h⟩ | ⟨_, rfl, h⟩ | ⟨_, rfl, h⟩ | ⟨-, h⟩ := e.asKey_cases <;> rw [h] <;> rfl

@[simp] theorem record?_asJsxExpr (e : Expr) : e.asJsxExpr.record? = e.record? := by
  obtain ⟨span, rfl, h⟩ | ⟨-, h⟩ := e.asJsxExpr_cases <;> rw [h] <;> rfl

@[simp] theorem record?_asAttrValue (e : Expr) : e.asAttrValue.record? = e.record? := by
  obtain ⟨_, rfl, h⟩ | ⟨_, rfl, h⟩ | ⟨-, h⟩ := e.asAttrValue_cases <;> rw [h] <;> rfl

end Node

/-! ### Settled trees -/

mutual
/-- A node in which every wrapped expression has the form that its category has for its
kind. -/
def Node.settle : {c : Category} → Node c → Node c
  -- expressions
  | _, .array span elements => .array span elements.settle
  | _, .object span members => .object span members.settle
  | _, .functionLit f => .functionLit f.settle
  | _, .classLit c => .classLit c.settle
  | _, .unary span op operand => .unary span op operand.settle
  | _, .update span op isPrefix operand => .update span op isPrefix operand.settle
  | _, .binary span op left right => .binary span op left.settle right.settle
  | _, .assign span op target value => .assign span op target.settle value.settle
  | _, .member span object property isComputed =>
    .member span object.settle property.settle isComputed
  | _, .conditional span test consequent alternate =>
    .conditional span test.settle consequent.settle alternate.settle
  | _, .call span callee arguments typeArguments =>
    .call span callee.settle arguments.settle typeArguments
  | _, .new span callee arguments typeArguments =>
    .new span callee.settle arguments.settle typeArguments
  | _, .newBare span callee typeArguments => .newBare span callee.settle typeArguments
  | _, .sequence span expressions => .sequence span expressions.settle
  | _, .template span expressions quasis => .template span expressions.settle quasis
  | _, .taggedTemplate span tag expressions quasis typeParameters =>
    .taggedTemplate span tag.settle expressions.settle quasis typeParameters
  | _, .arrow span params body isAsync isGenerator typeParameters returnType =>
    .arrow span params.settle body.settle isAsync isGenerator typeParameters returnType
  | _, .yield span argument isDelegate => .yield span argument.settle isDelegate
  | _, .await span argument => .await span argument.settle
  | _, .paren span expression => .paren span expression.settle
  | _, .jsxMemberExpr m => .jsxMemberExpr m.settle
  | _, .jsxElementExpr e => .jsxElementExpr e.settle
  | _, .jsxFragmentExpr f => .jsxFragmentExpr f.settle
  | _, .typed form span expression rest => .typed form span expression.settle rest
  -- `...expression`, with the span of the dots
  | _, .spread dots expression => .spread dots expression.settle
  | _, .spreadArgument s => .spreadArgument s.settle
  | _, .plainArgument e => .plainArgument e.settle
  -- binding patterns and assignment targets
  | _, .arrayPattern span elements typing => .arrayPattern span elements.settle typing
  | _, .restPattern r => .restPattern r.settle
  | _, .objectPattern span members typing => .objectPattern span members.settle typing
  | _, .defaultPattern span target value typing =>
    .defaultPattern span target.settle value.settle typing
  | _, .exprPattern e => e.settle.asPattern
  | _, .rest span dots argument typing => .rest span dots argument.settle typing
  | _, .keyedPattern key value => .keyedPattern key.settle value.settle
  | _, .namedPattern span name value => .namedPattern span name value.settle
  | _, .restMember r => .restMember r.settle
  -- members of object literals
  | _, .keyValue key value => .keyValue key.settle value.settle
  | _, .assignProperty name value => .assignProperty name value.settle
  | _, .getter span key body => .getter span key.settle body.settle
  | _, .setter span key param body => .setter span key.settle param.settle body.settle
  | _, .method key f => .method key.settle f.settle
  | _, .computedKey e => e.settle.asKey
  | _, .spreadMember s => .spreadMember s.settle
  | _, .propertyMember p => .propertyMember p.settle
  -- functions
  | _, .function span params decorators body isGenerator isAsync typeParameters returnType =>
    .function span params.settle decorators.settle body.settle isGenerator isAsync typeParameters
      returnType
  | _, .functionExpr name f => .functionExpr name f.settle
  | _, .blockBody b => .blockBody b.settle
  | _, .exprBody e => .exprBody e.settle
  -- classes
  | _, .klass span decorators body superClass isAbstract typeParams superTypeParams implements =>
    .klass span decorators.settle body.settle superClass.settle isAbstract typeParams
      superTypeParams implements
  | _, .classExpr name c => .classExpr name c.settle
  | _, .classConstructor span key params body accessibility isOptional =>
    .classConstructor span key.settle params.settle body.settle accessibility isOptional
  | _, .classMethod span key f traits => .classMethod span key.settle f.settle traits
  | _, .privateMethod span key f traits => .privateMethod span key f.settle traits
  | _, .classProperty span key value decorators traits =>
    .classProperty span key.settle value.settle decorators.settle traits
  | _, .privateProperty span key value decorators traits =>
    .privateProperty span key value.settle decorators.settle traits
  | _, .patternParam p => .patternParam p.settle
  | _, .decorator span expression => .decorator span expression.settle
  -- statements
  | _, .block span body => .block span body.settle
  | _, .blockStmt b => .blockStmt b.settle
  | _, .withStmt span object body => .withStmt span object.settle body.settle
  | _, .returnStmt span argument => .returnStmt span argument.settle
  | _, .labeledStmt span label body => .labeledStmt span label body.settle
  | _, .ifStmt span test consequent alternate =>
    .ifStmt span test.settle consequent.settle alternate.settle
  | _, .switchStmt span discriminant cases => .switchStmt span discriminant.settle cases.settle
  | _, .throwStmt span argument => .throwStmt span argument.settle
  | _, .tryStmt span block handler finalizer =>
    .tryStmt span block.settle handler.settle finalizer.settle
  | _, .whileStmt span test body => .whileStmt span test.settle body.settle
  | _, .doWhileStmt span test body => .doWhileStmt span test.settle body.settle
  | _, .forStmt span init test update body =>
    .forStmt span init.settle test.settle update.settle body.settle
  | _, .forInStmt span target object body => .forInStmt span target.settle object.settle body.settle
  | _, .forOfStmt span awaitToken target iterable body =>
    .forOfStmt span awaitToken target.settle iterable.settle body.settle
  | _, .declStmt d => .declStmt d.settle
  | _, .exprStmt e => .exprStmt e.settle
  | _, .switchCase span test consequent => .switchCase span test.settle consequent.settle
  | _, .catchClause span param body => .catchClause span param.settle body.settle
  | _, .varInit v => .varInit v.settle
  | _, .exprInit e => .exprInit e.settle
  | _, .varTarget v => .varTarget v.settle
  | _, .patternTarget p => .patternTarget p.settle
  -- declarations
  | _, .classDecl name isDeclare c => .classDecl name isDeclare c.settle
  | _, .functionDecl name isDeclare f => .functionDecl name isDeclare f.settle
  | _, .variables v => .variables v.settle
  | _, .varDecl span kind isDeclare declarators => .varDecl span kind isDeclare declarators.settle
  | _, .declarator span target init isDefinite =>
    .declarator span target.settle init.settle isDefinite
  -- JSX
  | _, .jsxMember span object property => .jsxMember span object.settle property
  | _, .jsxMemberObject m => .jsxMemberObject m.settle
  | _, .jsxMemberName m => .jsxMemberName m.settle
  | _, .jsxSomeExpr e => e.settle.asJsxExpr
  | _, .jsxContainer span expression => .jsxContainer span expression.settle
  | _, .jsxContainerValue c => .jsxContainerValue c.settle
  | _, .jsxElementValue e => .jsxElementValue e.settle
  | _, .jsxFragmentValue f => .jsxFragmentValue f.settle
  | _, .jsxExprValue e => e.settle.asAttrValue
  | _, .jsxAttr span name value => .jsxAttr span name value.settle
  | _, .jsxPlainAttr a => .jsxPlainAttr a.settle
  | _, .jsxSpreadAttr s => .jsxSpreadAttr s.settle
  | _, .jsxOpening span name attrs isSelfClosing typeArguments =>
    .jsxOpening span name.settle attrs.settle isSelfClosing typeArguments
  | _, .jsxClosing span name => .jsxClosing span name.settle
  | _, .jsxElement span opening children closing =>
    .jsxElement span opening.settle children.settle closing.settle
  | _, .jsxFragment span opening children closing =>
    .jsxFragment span opening children.settle closing
  | _, .jsxContainerChild c => .jsxContainerChild c.settle
  | _, .jsxSpreadChild span expression => .jsxSpreadChild span expression.settle
  | _, .jsxElementChild e => .jsxElementChild e.settle
  | _, .jsxFragmentChild f => .jsxFragmentChild f.settle
  -- places that may be empty, and nodes without parts
  | _, .present n => .present n.settle
  | _, n => n

/-- A list of settled nodes. -/
def Nodes.settle : {c : Category} → Nodes c → Nodes c
  | _, .nil => .nil
  | _, .cons n ns => .cons n.settle ns.settle
end

@[simp] theorem Node.exprKind_settle (e : Expr) : e.settle.exprKind = e.exprKind := by
  cases e <;> rfl

@[simp] theorem Node.isAbsent_settle {c : Category} (n : Node c) :
    n.settle.isAbsent = n.isAbsent := by
  cases n with
  | exprPattern | computedKey | jsxSomeExpr | jsxExprValue => exact isAbsent_eq_false _ rfl
  | _ => rfl

/-- **A settled node is written as the node was.** -/
@[simp] theorem Node.record?_settle {c : Category} (n : Node c) : n.settle.record? = n.record? := by
  apply @Node.rec (fun _ n => n.settle.record? = n.record?)
    (fun _ ns => ns.settle.toJsons = ns.toJsons)
  all_goals intros
  all_goals simp! [*]

/-- A node whose leaves are such as are read, and that is settled. -/
def Node.isReturned {c : Category} (n : Node c) : Bool := n.isKept && n.isSettled

namespace Node

variable {e : Expr}

theorem every_asPattern (h : e.every isReturned = true) : e.asPattern.every isReturned = true := by
  obtain ⟨name, rfl, hcase⟩ | ⟨hsettled, hcase⟩ := e.asPattern_cases
  · rw [hcase]
    exact h
  · rw [hcase]
    exact Bool.and_eq_true_iff.mpr ⟨hsettled, h⟩

theorem every_asKey (h : e.every isReturned = true) : e.asKey.every isReturned = true := by
  obtain ⟨_, rfl, hcase⟩ | ⟨_, rfl, hcase⟩ | ⟨_, rfl, hcase⟩ | ⟨hsettled, hcase⟩ := e.asKey_cases
  all_goals rw [hcase]
  case inr.inr.inr => exact Bool.and_eq_true_iff.mpr ⟨hsettled, h⟩
  all_goals exact h

theorem every_asJsxExpr (h : e.every isReturned = true) : e.asJsxExpr.every isReturned = true := by
  obtain ⟨span, rfl, hcase⟩ | ⟨hsettled, hcase⟩ := e.asJsxExpr_cases
  · rw [hcase]
    exact h
  · rw [hcase]
    exact Bool.and_eq_true_iff.mpr ⟨hsettled, h⟩

theorem every_asAttrValue (h : e.every isReturned = true) :
    e.asAttrValue.every isReturned = true := by
  obtain ⟨_, rfl, hcase⟩ | ⟨_, rfl, hcase⟩ | ⟨hsettled, hcase⟩ := e.asAttrValue_cases
  all_goals rw [hcase]
  case inr.inr => exact Bool.and_eq_true_iff.mpr ⟨hsettled, h⟩
  all_goals exact h

end Node

/-- **A settled node is settled**, and its leaves are those of the node. -/
theorem Node.every_settle {c : Category} (n : Node c) :
    n.every isKept = true → n.settle.every isReturned = true := by
  apply @Node.rec (fun _ n => n.every isKept = true → n.settle.every isReturned = true)
    (fun _ ns => ns.every isKept = true → ns.settle.every isReturned = true)
  case exprPattern => exact fun e ih h => every_asPattern (ih h)
  case computedKey => exact fun e ih h => every_asKey (ih h)
  case jsxSomeExpr => exact fun e ih h => every_asJsxExpr (ih h)
  case jsxExprValue => exact fun e ih h => every_asAttrValue (ih h)
  all_goals intros
  all_goals rename_i h
  all_goals dsimp! only at h ⊢
  all_goals try simp only [Bool.and_eq_true] at h
  all_goals simp! [isReturned, -List.all_eq_true, *]

/-! ### Programs -/

def DefaultDecl.settle : DefaultDecl → DefaultDecl
  | .klass c => .klass c.settle
  | .function f => .function f.settle
  | .interface payload => .interface payload

def ModuleDecl.settle : ModuleDecl → ModuleDecl
  | .exportDecl span declaration => .exportDecl span declaration.settle
  | .exportDefaultDecl span declaration => .exportDefaultDecl span declaration.settle
  | .exportDefaultExpr span expression => .exportDefaultExpr span expression.settle
  | d => d

def ModuleItem.settle : ModuleItem → ModuleItem
  | .decl d => .decl d.settle
  | .stmt s => .stmt s.settle

def Program.settle : Program → Program
  | .module span body interpreter => .module span (body.map ModuleItem.settle) interpreter
  | .script span body interpreter => .script span (body.map Node.settle) interpreter

theorem DefaultDecl.record_settle (d : DefaultDecl) : d.settle.record = d.record := by
  cases d <;> simp [settle, record]

theorem ModuleDecl.record_settle (d : ModuleDecl) : d.settle.record = d.record := by
  cases d <;> simp [settle, record, kind, members, Node.toJson, DefaultDecl.record_settle]

theorem ModuleItem.toJson_settle (item : ModuleItem) : item.settle.toJson = item.toJson := by
  cases item <;> simp [settle, toJson, Node.toJson, ModuleDecl.record_settle]

/-- **A settled program is written as the program was.** -/
theorem Program.toJson_settle (program : Program) : program.settle.toJson = program.toJson := by
  have hstmt (s : Stmt) : s.settle.toJson = s.toJson := congrArg Record.json s.record?_settle
  cases program <;>
    simp [settle, toJson, record, Function.comp_def, hstmt, ModuleItem.toJson_settle]

theorem Node.settle_returned {c : Category} {n : Node c} (h : n.every isKept = true) :
    n.settle.every isKept = true ∧ n.settle.every isSettled = true := by
  have hreturned := n.every_settle h
  exact ⟨n.settle.every_mono (fun _ hm => (Bool.and_eq_true_iff.mp hm).1) hreturned,
    n.settle.every_mono (fun _ hm => (Bool.and_eq_true_iff.mp hm).2) hreturned⟩

theorem DefaultDecl.settle_returned {d : DefaultDecl} (h : d.isKept = true) :
    d.settle.isKept = true ∧ d.settle.every Node.isSettled = true := by
  cases d with
  | klass k => exact Node.settle_returned h
  | function f => exact Node.settle_returned h
  | interface payload => exact ⟨h, rfl⟩

theorem ModuleDecl.settle_returned {d : ModuleDecl} (h : d.isKept = true) :
    d.settle.isKept = true ∧ d.settle.every Node.isSettled = true := by
  cases d with
  | exportDecl _ declaration => exact Node.settle_returned h
  | exportDefaultDecl _ declaration => exact DefaultDecl.settle_returned h
  | exportDefaultExpr _ expression => exact Node.settle_returned h
  | importDecl | exportNamed | exportAll | typeModule => exact ⟨h, rfl⟩

theorem ModuleItem.settle_returned {item : ModuleItem} (h : item.isKept = true) :
    item.settle.isKept = true ∧ item.settle.every Node.isSettled = true := by
  cases item with
  | decl d => exact ModuleDecl.settle_returned h
  | stmt s => exact Node.settle_returned h

theorem Program.settle_returned {program : Program} (h : program.isKept = true) :
    program.settle.isKept = true ∧ program.settle.every Node.isSettled = true := by
  cases program with
  | module span body interpreter =>
    have hbody := fun item hitem => ModuleItem.settle_returned (List.all_eq_true.mp h item hitem)
    simp only [settle, isKept, every, List.all_map, List.all_eq_true]
    exact ⟨fun item hitem => (hbody item hitem).1, fun item hitem => (hbody item hitem).2⟩
  | script span body interpreter =>
    have hbody := fun s hs => Node.settle_returned (List.all_eq_true.mp h s hs)
    simp only [settle, isKept, every, List.all_map, List.all_eq_true]
    exact ⟨fun s hs => (hbody s hs).1, fun s hs => (hbody s hs).2⟩

/-- **A program is read back as the settled program.** -/
theorem Program.ofJson?_toJson {program : Program} (h : program.isKept = true) :
    program.toJson.isSound = true ∧ ofJson? program.toJson = some program.settle := by
  obtain ⟨hkept, hsettled⟩ := settle_returned h
  obtain ⟨hsound, program', hread, hsame⟩ := rereads hkept
  rw [toJson_settle] at hsound hread
  rw [hsame.mpr hsettled] at hread
  exact ⟨hsound, hread true⟩

/-! ### What neighbours need -/

@[simp] theorem Nodes.isEmpty_settle {c : Category} (ns : Nodes c) :
    ns.settle.isEmpty = ns.isEmpty := by
  cases ns <;> rfl

@[simp] theorem Nodes.length_settle : ∀ {c : Category} (ns : Nodes c),
    ns.settle.length = ns.length
  | _, .nil => rfl
  | _, .cons _ ns => congrArg (· + 1) ns.length_settle

theorem Nodes.toList_settle : ∀ {c : Category} (ns : Nodes c),
    ns.settle.toList = ns.toList.map Node.settle
  | _, .nil => rfl
  | _, .cons n ns => congrArg (n.settle :: ·) ns.toList_settle

theorem Node.startsWord_asPattern (e : Expr) : e.asPattern.startsWord = e.startsWord := by
  obtain ⟨name, rfl, h⟩ | ⟨-, h⟩ := e.asPattern_cases <;> rw [h] <;> rfl

@[simp] theorem Node.startsWord_settle {c : Category} (n : Node c) :
    n.settle.startsWord = n.startsWord := by
  have hkey (k : Node .propertyName) : k.startsWord = false := by cases k <;> rfl
  have hjsx (e : Node .jsxExpr) : e.startsWord = false := by cases e <;> rfl
  have hvalue (v : Node .jsxAttrValue) : v.startsWord = false := by cases v <;> rfl
  apply @Node.rec (fun _ n => n.settle.startsWord = n.startsWord)
    (fun _ ns => ∀ n ∈ ns.toList, n.settle.startsWord = n.startsWord)
  case nil => exact fun n hn => nomatch hn
  case cons => exact fun n ns hn hns => List.forall_mem_cons.mpr ⟨hn, hns⟩
  case exprPattern => exact fun e ih => (startsWord_asPattern _).trans ih
  case computedKey => exact fun e _ => hkey _
  case jsxSomeExpr => exact fun e _ => hjsx _
  case jsxExprValue => exact fun e _ => hvalue _
  all_goals intros
  case sequence expressions ih =>
    cases expressions with
    | nil => rfl
    | cons first rest => exact ih first (List.mem_cons_self ..)
  case typed form _ _ _ ih => cases form <;> simp! [ih]
  all_goals simp! [*]

/-- What stands first in a settled node: the settled node that stood first, or an
assignment to a name that stood first as a wrapped expression. -/
inductive Node.SettlesTo : {c : Category} → Node c → Node c → Prop where
  | settle {c : Category} (n : Node c) : SettlesTo n n.settle
  | name (name : Ident) (span : Span) (op : AssignOp) (value : Expr) :
    SettlesTo (.ident name) (.assign span op (.identPattern name) value)

/-- Settling a node settles what stands first in it; for a pattern, what stands first in
an assignment to it. -/
def Node.FirstSettles : {c : Category} → Node c → Prop
  | .pattern, target => ∀ span op value,
    SettlesTo (assign span op target value).leftmost (assign span op target value).settle.leftmost
  | _, n => SettlesTo n.leftmost n.settle.leftmost

/-- Only expressions start with other nodes of their category. -/
theorem Node.leftmost_eq_self {c : Category} (n : Node c) (hc : c ≠ .expr) : n.leftmost = n := by
  cases n <;> first | rfl | exact absurd rfl hc

theorem Node.firstSettles {c : Category} (n : Node c) : n.FirstSettles := by
  have hother {c : Category} (n : Node c) (hc : c ≠ .expr) :
      SettlesTo n.leftmost n.settle.leftmost := by
    rw [n.leftmost_eq_self hc, n.settle.leftmost_eq_self hc]
    exact .settle n
  apply @Node.rec (fun _ n => n.FirstSettles) (fun _ ns => ∀ n ∈ ns.toList, n.FirstSettles)
  case nil => exact fun n hn => nomatch hn
  case cons => exact fun n ns hn hns => List.forall_mem_cons.mpr ⟨hn, hns⟩
  all_goals intros
  case sequence expressions ih =>
    cases expressions with
    | nil => exact .settle _
    | cons first rest => exact ih first (List.mem_cons_self ..)
  case update isPrefix _ ih =>
    cases isPrefix with
    | true => exact .settle _
    | false => exact ih
  case typed form _ _ _ ih =>
    cases form with
    | assertion => exact .settle _
    | nonNull | cast | asType => exact ih
  case assign span op target value htarget _ => exact htarget span op value
  case exprPattern left ih =>
    intro span op value
    obtain ⟨name, hname, hleft⟩ | ⟨-, hleft⟩ := left.settle.asPattern_cases
    · cases left with
      | ident name' =>
        cases hname
        exact .name _ _ _ _
      | _ => cases hname
    · change SettlesTo left.leftmost (assign span op left.settle.asPattern value.settle).leftmost
      rw [hleft]
      exact ih
  case identPattern | arrayPattern | restPattern | objectPattern | defaultPattern =>
    exact fun _ _ _ => .settle _
  case binary | conditional | call | member | taggedTemplate => assumption
  case computedKey | jsxSomeExpr | jsxExprValue => exact hother _ (by decide)
  all_goals exact .settle _

theorem continuesSign_settle (sign : UnaryOp) (double : UpdateOp) (e : Expr) :
    continuesSign sign double e.settle = continuesSign sign double e := by
  cases e <;> rfl

@[simp] theorem spaceBeforeOperand_settle (op : UnaryOp) (operand : Expr) :
    spaceBeforeOperand op operand.settle = spaceBeforeOperand op operand := by
  unfold spaceBeforeOperand
  simp only [Node.startsWord_settle, continuesSign_settle]

@[simp] theorem spaceBeforeBinary_settle (op : BinaryOp) (left : Expr) :
    spaceBeforeBinary op left.settle = spaceBeforeBinary op left := by
  cases left with
  | update _ _ isPrefix _ => cases isPrefix <;> rfl
  | _ => rfl

@[simp] theorem spaceAfterBinary_settle (op : BinaryOp) (right : Expr) :
    spaceAfterBinary op right.settle = spaceAfterBinary op right := by
  have hdecrement (e : Expr) : isPrefixDecrement e.settle = isPrefixDecrement e := by
    cases e with
    | update _ sign isPrefix _ => cases sign <;> cases isPrefix <;> rfl
    | _ => rfl
  have hfirst : Node.SettlesTo right.leftmost right.settle.leftmost := right.firstSettles
  unfold spaceAfterBinary
  congr 1
  generalize right.leftmost = first, right.settle.leftmost = first' at hfirst ⊢
  cases hfirst with
  | name => rfl
  | settle =>
    cases first with
    | update _ _ isPrefix _ => cases isPrefix <;> rfl
    | unary _ sign operand =>
      cases sign with
      | not => exact congrArg (_ && ·) (hdecrement operand)
      | _ => rfl
    | _ => rfl

theorem startsWithBrace_settle (e : Expr) : startsWithBrace e.settle = startsWithBrace e := by
  have hfirst : Node.SettlesTo e.leftmost e.settle.leftmost := e.firstSettles
  unfold startsWithBrace
  generalize e.leftmost = first, e.settle.leftmost = first' at hfirst ⊢
  cases hfirst with
  | name => rfl
  | settle =>
    cases first with
    | assign span op target value =>
      cases target with
      | exprPattern left =>
        have hassign : (Node.assign span op (.exprPattern left) value).settle =
            .assign span op left.settle.asPattern value.settle := rfl
        obtain ⟨_, -, hleft⟩ | ⟨-, hleft⟩ := left.settle.asPattern_cases <;>
          rw [hassign, hleft]
      | _ => rfl
    | _ => rfl

@[simp] theorem stmtNeedsParens_settle (e : Expr) :
    stmtNeedsParens e.settle = stmtNeedsParens e := by
  have hdecl : startsWithDeclaration e.settle = startsWithDeclaration e := by
    have hfirst : Node.SettlesTo e.leftmost e.settle.leftmost := e.firstSettles
    unfold startsWithDeclaration
    generalize e.leftmost = first, e.settle.leftmost = first' at hfirst ⊢
    cases hfirst with
    | name => rfl
    | settle => cases first <;> rfl
  unfold stmtNeedsParens
  rw [startsWithBrace_settle, hdecl]

@[simp] theorem bodyNeedsParens_settle (e : Expr) :
    bodyNeedsParens e.settle = bodyNeedsParens e := by
  have hsequence : isSequence e.settle = isSequence e := by
    cases e <;> rfl
  unfold bodyNeedsParens
  rw [startsWithBrace_settle, hsequence]

end EcmaPrinter
