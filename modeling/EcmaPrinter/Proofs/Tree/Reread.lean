/-
# Written trees are read back

By induction over nodes, with one case for each form: the written form of every
node whose leaves are such as are read is read, and it is read as the node if and
only if no expression in it is wrapped where its category has a node of its own.

Key theorems: `Node.returns`.
-/
import EcmaPrinter.Proofs.Tree.Returns

namespace EcmaPrinter

open Json

/-! ### Forms that only TypeScript has -/

theorem TypedForm.table_kind (form : TypedForm) (fs : Fields) :
    Category.expr.table form.kind fs = Read.typed form fs := by
  cases form <;> rfl

theorem TypeDeclForm.table_kind (form : TypeDeclForm) (fs : Fields) :
    Category.decl.table form.kind fs = (Opaque.ofMembers? fs.plain).map (.typeDecl form) := by
  cases form <;> rfl

/-! ### Members of functions and classes -/

/-- The members of a function stand beside these. -/
theorem Node.hasKey_function (f : Node .function) :
    ∀ key ∈ ["key", "identifier", "ident", "declare"],
      hasKey (Record.membersOf f.record?) key = false := by
  cases f
  dsimp! only
  simp [Record.membersOf, Record.plain]

/-- The members of a class stand beside these. -/
theorem Node.hasKey_klass (k : Node .klass) :
    ∀ key ∈ ["identifier", "declare"], hasKey (Record.membersOf k.record?) key = false := by
  cases k
  dsimp! only
  simp [Record.membersOf, Record.plain]

theorem keys_of_list (ms : List (String × Json)) : ∀ m ∈ ms, m.1 ∈ ms.map Prod.fst :=
  fun _ hm => List.mem_map_of_mem hm

theorem mem_memberIf {β : Type} {key : String} {write : β → Json} {value : Option β}
    {m : String × Json} (h : m ∈ memberIf key write value) : m.1 ∈ [key] := by
  cases value with
  | none => cases h
  | some x =>
    rw [List.mem_singleton.mp h]
    exact List.mem_singleton.mpr rfl

namespace Node.Returns

variable {keys : List String} {front : List (String × Json)}

/-- A function is read from its members and some beside them. -/
theorem read_function {f : Node .function} (hf : f.Returns) (hfront : ∀ m ∈ front, m.1 ∈ keys)
    (hkeys : keys ⊆ ["key", "identifier", "ident", "declare"]) (stored : Bool) :
    ((Fields.of stored (front ++ Record.membersOf f.record?)).without keys).store.bind
      Read.function = some f.reread := by
  obtain ⟨-, hsound, hread⟩ := hf.flat rfl rfl
  rw [Fields.store_without_of front hfront (fun _ h => f.hasKey_function _ (hkeys h)) hsound]
  exact hread true

/-- A class is read from its members and some beside them. -/
theorem read_klass {k : Node .klass} (hk : k.Returns) (hfront : ∀ m ∈ front, m.1 ∈ keys)
    (hkeys : keys ⊆ ["identifier", "declare"]) (stored : Bool) :
    ((Fields.of stored (front ++ Record.membersOf k.record?)).without keys).store.bind
      Read.klass = some k.reread := by
  obtain ⟨-, hsound, hread⟩ := hk.flat rfl rfl
  rw [Fields.store_without_of front hfront (fun _ h => k.hasKey_klass _ (hkeys h)) hsound]
  exact hread true

theorem ofMethod {key : Node .propertyName} {f : Node .function} (hkey : key.Returns)
    (hf : f.Returns) : (method key f).Returns := by
  obtain ⟨htype, hsound, -⟩ := hf.flat rfl rfl
  have hkeys := f.hasKey_function "key" (by simp)
  refine .tagged (.method key.reread f.reread) (by rfl) rfl (by simp [*]) (by simp [*])
    (fun stored => ?_) (by simp! [and_assoc, *])
  have hread := hf.read_function (keys_of_list [("key", Record.json key.record?)]) (by simp) stored
  simp only [List.cons_append, List.nil_append, List.map_cons, List.map_nil] at hread
  simp [Category.body, Category.table, Read.property, hkeys, hkey, hread]

theorem ofFunctionDecl {name : Ident} {isDeclare : Bool} {f : Node .function}
    (hname : name.isKept = true) (hf : f.Returns) : (functionDecl name isDeclare f).Returns := by
  obtain ⟨htype, hsound, -⟩ := hf.flat rfl rfl
  have hident := f.hasKey_function "ident" (by simp)
  have hdeclare := f.hasKey_function "declare" (by simp)
  refine .tagged (.functionDecl name isDeclare f.reread) (by rfl) rfl (by simp [*]) (by simp [*])
    (fun stored => ?_) (by simp! [and_assoc, *])
  have hread := hf.read_function
    (keys_of_list [("ident", name.toJson), ("declare", .bool isDeclare)]) (by simp) stored
  simp only [List.cons_append, List.nil_append, List.map_cons, List.map_nil] at hread
  simp [Category.body, Category.table, Read.decl, asBool, hident, hdeclare, hname, hread]

theorem ofClassDecl {name : Ident} {isDeclare : Bool} {k : Node .klass}
    (hname : name.isKept = true) (hk : k.Returns) : (classDecl name isDeclare k).Returns := by
  obtain ⟨htype, hsound, -⟩ := hk.flat rfl rfl
  have hident := k.hasKey_klass "identifier" (by simp)
  have hdeclare := k.hasKey_klass "declare" (by simp)
  refine .tagged (.classDecl name isDeclare k.reread) (by rfl) rfl (by simp [*]) (by simp [*])
    (fun stored => ?_) (by simp! [and_assoc, *])
  have hread := hk.read_klass
    (keys_of_list [("identifier", name.toJson), ("declare", .bool isDeclare)]) (by simp) stored
  simp only [List.cons_append, List.nil_append, List.map_cons, List.map_nil] at hread
  simp [Category.body, Category.table, Read.decl, asBool, hident, hdeclare, hname, hread]

theorem ofFunctionExpr {name : Option Ident} {f : Node .function}
    (hname : name.all Ident.isKept = true) (hf : f.Returns) : (functionExpr name f).Returns := by
  obtain ⟨htype, hsound, -⟩ := hf.flat rfl rfl
  have hident := f.hasKey_function "identifier" (by simp)
  refine .plain (.functionExpr name f.reread) (by rfl) rfl (by simp [*]) (by simp [*])
    (fun stored => ?_) (by simp! [and_assoc, *])
  have hread : ((Fields.of stored (memberIf "identifier" Ident.toJson name ++
      Record.membersOf f.record?)).without ["identifier"]).store.bind Read.function =
        some f.reread :=
    hf.read_function (fun _ => mem_memberIf) (by simp) stored
  simp [readParts, Read.functionExpr, hident, hname, hread]

theorem ofClassExpr {name : Option Ident} {k : Node .klass}
    (hname : name.all Ident.isKept = true) (hk : k.Returns) : (classExpr name k).Returns := by
  obtain ⟨htype, hsound, -⟩ := hk.flat rfl rfl
  have hident := k.hasKey_klass "identifier" (by simp)
  refine .plain (.classExpr name k.reread) (by rfl) rfl (by simp [*]) (by simp [*])
    (fun stored => ?_) (by simp! [and_assoc, *])
  have hread : ((Fields.of stored (memberIf "identifier" Ident.toJson name ++
      Record.membersOf k.record?)).without ["identifier"]).store.bind Read.klass =
        some k.reread :=
    hk.read_klass (fun _ => mem_memberIf) (by simp) stored
  simp [readParts, Read.classExpr, hident, hname, hread]

end Node.Returns

/-! ### Expressions where a category has its own nodes -/

theorem Node.exprKind_of_record {e : Node .expr} {kind : NodeKind} {ms : List (String × Json)}
    (h : e.record? = some ⟨some kind, ms⟩) : kind = e.exprKind := by
  cases e with
  | functionLit f => cases f; cases h; rfl
  | classLit c => cases c; cases h; rfl
  | jsxMemberExpr m => cases m; cases h; rfl
  | jsxElementExpr e => cases e; cases h; rfl
  | jsxFragmentExpr f => cases f; cases h; rfl
  | _ => cases h; rfl

namespace Node

variable {c c' : Category} {e : Node .expr}

namespace Returns

/-- An expression of a kind that the category has no node of its own for. -/
theorem notMem_kinds_of_exprKind (h : e.exprKind ∉ c.kinds) (kind : NodeKind)
    (ms : List (String × Json)) (hrecord : e.record? = some ⟨some kind, ms⟩) : kind ∉ c.kinds := by
  rwa [exprKind_of_record hrecord]

theorem ofExprPattern (he : e.Returns) (h : e.every isKept = true) : (exprPattern e).Returns := by
  by_cases hkind : e.exprKind ∈ Category.pattern.kinds
  · cases e with
    | ident name =>
      have hname : name.isKept = true := h
      exact .tagged (.identPattern name)
    | typed form => cases form <;> simp [exprKind, TypedForm.kind, Category.kinds] at hkind
    | _ => simp [exprKind, Category.kinds] at hkind
  · exact he.wrapped .exprPattern (notMem_kinds_of_exprKind hkind) (decide_eq_true hkind)

theorem ofComputedKey (he : e.Returns) (h : e.every isKept = true) : (computedKey e).Returns := by
  by_cases hkind : e.exprKind ∈ Category.propertyName.kinds
  · cases e with
    | ident name =>
      have hname : name.isKept = true := h
      exact .tagged (.identKey name)
    | str literal => exact .tagged (.strKey literal)
    | num literal =>
      have hliteral : literal.isKept = true := h
      exact .tagged (.numKey literal)
    | typed form => cases form <;> simp [exprKind, TypedForm.kind, Category.kinds] at hkind
    | _ => simp [exprKind, Category.kinds] at hkind
  · exact he.wrapped .computedKey (notMem_kinds_of_exprKind hkind) (decide_eq_true hkind)

theorem ofJsxSomeExpr (he : e.Returns) : (jsxSomeExpr e).Returns := by
  by_cases hkind : e.exprKind ∈ Category.jsxExpr.kinds
  · cases e with
    | jsxEmpty span => exact .tagged (.jsxNoExpr span)
    | typed form => cases form <;> simp [exprKind, TypedForm.kind, Category.kinds] at hkind
    | _ => simp [exprKind, Category.kinds] at hkind
  · exact he.wrapped .jsxSomeExpr (notMem_kinds_of_exprKind hkind) (decide_eq_true hkind)

/-- A node of another category that is given a kind, in the place of an expression of
that kind. -/
theorem ofRead (he : e.Returns) (kind : NodeKind) (hkind : e.exprKind = kind)
    {w : Node c → Node .expr} (w' : Node c → Node c') {read : Fields → Option (Node c)}
    (hexpr : ∀ fs, Category.expr.body kind fs = (read fs).map w)
    (hbody : ∀ fs m, read fs = some m → c'.body kind fs = some (w' m))
    (hw : ∀ m m', w m = w m' → m = m' := by simp)
    {n : Node c'} (hrecord : n.record? = e.record? := by rfl)
    (hc' : c'.tellsKinds = true := by rfl)
    (hsettled : ∀ m, w' m = n ↔ n.every Node.isSettled = true := by simp!) : n.Returns := by
  obtain ⟨kind', ms, h⟩ := he.recorded (e.isAbsent_eq_false rfl)
  obtain ⟨hsome, htype⟩ := he.spelled h
  obtain ⟨kind', rfl⟩ := Option.isSome_iff_exists.mp hsome
  obtain rfl : kind' = kind := (exprKind_of_record h).trans hkind
  have hsound : membersSound ms = true := by
    have hjson := he.sound
    rw [h] at hjson
    exact hjson
  have hread (stored : Bool) := (hexpr _).symm.trans (he.body h stored)
  obtain ⟨m, hm, hreread⟩ := Option.map_eq_some_iff.mp (hread true)
  refine .tagged (w' m) (hrecord.trans h) hc' htype hsound (fun stored => ?_) (hsettled m)
  obtain ⟨m', hm', hreread'⟩ := Option.map_eq_some_iff.mp (hread stored)
  rw [hw m m' (hreread.trans hreread'.symm)]
  exact hbody _ m' hm'

theorem ofJsxExprValue (he : e.Returns) : (jsxExprValue e).Returns := by
  by_cases hkind : e.exprKind ∈ Category.jsxAttrValue.kinds
  · cases e with
    | jsxElementExpr element =>
      exact he.ofRead .jsxElement rfl .jsxElementValue (fun fs => rfl)
        (by simp +contextual [Category.body, Category.table, Read.jsxAttrValue])
    | jsxFragmentExpr fragment =>
      exact he.ofRead .jsxFragment rfl .jsxFragmentValue (fun fs => rfl)
        (by simp +contextual [Category.body, Category.table, Read.jsxAttrValue])
    | typed form => cases form <;> simp [exprKind, TypedForm.kind, Category.kinds] at hkind
    | _ => simp [exprKind, Category.kinds] at hkind
  · exact he.wrapped .jsxExprValue (notMem_kinds_of_exprKind hkind) (decide_eq_true hkind)

end Returns

end Node

/-! ### The induction -/

theorem Node.returns_absent {c : Category} : (Node.absent : Node (.opt c)).Returns :=
  ⟨rfl, fun _ => rfl, iff_of_true rfl rfl, nofun, nofun, nofun⟩

/-- **The written form of a node is read, and it is read as the node if and only if
the node is settled.** -/
theorem Node.returns {c : Category} (n : Node c) (h : n.every Node.isKept = true) : n.Returns := by
  revert h
  apply @Node.rec (fun _ n => n.every Node.isKept = true → n.Returns)
    (fun _ ns => ns.every Node.isKept = true → ns.Returns)
  all_goals intros
  all_goals rename_i h
  all_goals try dsimp! only at h
  all_goals try simp only [Bool.and_eq_true, Bool.not_eq_true'] at h
  case this span => exact .tagged (.this span)
  case superRef span => exact .tagged (.superRef span)
  case array span elements ih => exact .tagged (.array span elements.reread)
  case object span members ih => exact .tagged (.object span members.reread)
  case unary span op operand ih => exact .tagged (.unary span op operand.reread)
  case update span op isPrefix operand ih => exact .tagged (.update span op isPrefix operand.reread)
  case binary span op left right ihl ihr =>
    exact .tagged (.binary span op left.reread right.reread)
  case assign span op target value iht ihv =>
    exact .tagged (.assign span op target.reread value.reread)
  case member span object property isComputed iho ihp =>
    exact .tagged (.member span object.reread property.reread isComputed)
  case conditional span test consequent alternate iht ihc iha =>
    exact .tagged (.conditional span test.reread consequent.reread alternate.reread)
  case call span callee arguments types ihc iha =>
    exact .tagged (.call span callee.reread arguments.reread types)
  case sequence span expressions ih => exact .tagged (.sequence span expressions.reread)
  case ident name => exact .tagged (.ident name)
  case str literal => exact .tagged (.str literal)
  case bool span value => exact .tagged (.bool span value)
  case null span => exact .tagged (.null span)
  case num literal => exact .tagged (.num literal)
  case regex literal => exact .tagged (.regex literal)
  case template span expressions quasis ih =>
    exact .tagged (.template span expressions.reread quasis)
  case taggedTemplate span tag expressions quasis types iht ihe =>
    exact .tagged (.taggedTemplate span tag.reread expressions.reread quasis types)
  case arrow span params body isAsync isGenerator types result ihp ihb =>
    exact .tagged (.arrow span params.reread body.reread isAsync isGenerator types result)
  case yield span argument isDelegate ih => exact .tagged (.yield span argument.reread isDelegate)
  case metaProperty span target property => exact .tagged (.metaProperty span target property)
  case await span argument ih => exact .tagged (.await span argument.reread)
  case paren span expression ih => exact .tagged (.paren span expression.reread)
  case privateName name => exact .tagged (.privateName name)
  case jsxNamespaced name => exact .tagged (.jsxNamespaced name)
  case jsxEmpty span => exact .tagged (.jsxEmpty span)
  case jsxTextExpr t => exact .tagged (.jsxTextExpr t)
  case spread dots expression ih => exact .plain (.spread dots expression.reread)
  case identPattern name => exact .tagged (.identPattern name)
  case arrayPattern span elements typing ih =>
    exact .tagged (.arrayPattern span elements.reread typing)
  case objectPattern span members typing ih =>
    exact .tagged (.objectPattern span members.reread typing)
  case defaultPattern span target value typing iht ihv =>
    exact .tagged (.defaultPattern span target.reread value.reread typing)
  case rest span dots argument typing ih => exact .plain (.rest span dots argument.reread typing)
  case keyedPattern key value ihk ihv => exact .tagged (.keyedPattern key.reread value.reread)
  case namedPattern span name value ih => exact .tagged (.namedPattern span name value.reread)
  case shorthand name => exact .tagged (.shorthand name)
  case keyValue key value ihk ihv => exact .tagged (.keyValue key.reread value.reread)
  case assignProperty name value ih => exact .tagged (.assignProperty name value.reread)
  case getter span key body ihk ihb => exact .tagged (.getter span key.reread body.reread)
  case setter span key param body ihk ihp ihb =>
    exact .tagged (.setter span key.reread param.reread body.reread)
  case identKey name => exact .tagged (.identKey name)
  case strKey literal => exact .tagged (.strKey literal)
  case numKey literal => exact .tagged (.numKey literal)
  case function span params decorators body isGenerator isAsync types result ihp ihd ihb =>
    exact .plain (.function span params.reread decorators.reread body.reread isGenerator isAsync
      types result)
  case klass span decorators body superClass isAbstract types superTypes implements ihd ihb ihs =>
    exact .plain (.klass span decorators.reread body.reread superClass.reread isAbstract types
      superTypes implements)
  case classConstructor span key params body accessibility isOptional ihk ihp ihb =>
    exact .tagged (.classConstructor span key.reread params.reread body.reread accessibility
      isOptional)
  case classMethod span key f traits ihk ihf =>
    exact .tagged (.classMethod span key.reread f.reread traits)
  case privateMethod span key f traits ihf =>
    exact .tagged (.privateMethod span key f.reread traits)
  case classProperty span key value decorators traits ihk ihv ihd =>
    exact .tagged (.classProperty span key.reread value.reread decorators.reread traits)
  case privateProperty span key value decorators traits ihv ihd =>
    exact .tagged (.privateProperty span key value.reread decorators.reread traits)
  case indexSignature payload => exact .tagged (.indexSignature payload)
  case propertyParam payload => exact .tagged (.propertyParam payload)
  case decorator span expression ih => exact .plain (.decorator span expression.reread)
  case block span body ih => exact .plain (.block span body.reread)
  case emptyStmt span => exact .tagged (.emptyStmt span)
  case debuggerStmt span => exact .tagged (.debuggerStmt span)
  case withStmt span object body iho ihb => exact .tagged (.withStmt span object.reread body.reread)
  case returnStmt span argument ih => exact .tagged (.returnStmt span argument.reread)
  case labeledStmt span label body ih => exact .tagged (.labeledStmt span label body.reread)
  case breakStmt span label => exact .tagged (.breakStmt span label)
  case continueStmt span label => exact .tagged (.continueStmt span label)
  case ifStmt span test consequent alternate iht ihc iha =>
    exact .tagged (.ifStmt span test.reread consequent.reread alternate.reread)
  case switchStmt span discriminant cases ihd ihc =>
    exact .tagged (.switchStmt span discriminant.reread cases.reread)
  case throwStmt span argument ih => exact .tagged (.throwStmt span argument.reread)
  case tryStmt span block handler finalizer ihb ihh ihf =>
    exact .tagged (.tryStmt span block.reread handler.reread finalizer.reread)
  case whileStmt span test body iht ihb => exact .tagged (.whileStmt span test.reread body.reread)
  case doWhileStmt span test body iht ihb =>
    exact .tagged (.doWhileStmt span test.reread body.reread)
  case forStmt span init test update body ihi iht ihu ihb =>
    exact .tagged (.forStmt span init.reread test.reread update.reread body.reread)
  case forInStmt span target object body iht iho ihb =>
    exact .tagged (.forInStmt span target.reread object.reread body.reread)
  case forOfStmt span awaitToken target iterable body iht ihi ihb =>
    exact .tagged (.forOfStmt span awaitToken target.reread iterable.reread body.reread)
  case switchCase span test consequent iht ihc =>
    exact .plain (.switchCase span test.reread consequent.reread)
  case catchClause span param body ihp ihb =>
    exact .plain (.catchClause span param.reread body.reread)
  case varDecl span kind isDeclare declarators ih =>
    exact .plain (.varDecl span kind isDeclare declarators.reread)
  case declarator span target init isDefinite iht ihi =>
    exact .plain (.declarator span target.reread init.reread isDefinite)
  case jsxMember span object property ih => exact .plain (.jsxMember span object.reread property)
  case jsxIdentObject name => exact .tagged (.jsxIdentObject name)
  case jsxIdentName name => exact .tagged (.jsxIdentName name)
  case jsxSpaceName name => exact .tagged (.jsxSpaceName name)
  case jsxNoExpr span => exact .tagged (.jsxNoExpr span)
  case jsxContainer span expression ih => exact .plain (.jsxContainer span expression.reread)
  case jsxAttr span name value ih => exact .plain (.jsxAttr span name value.reread)
  case jsxOpening span name attrs isSelfClosing types ihn iha =>
    exact .plain (.jsxOpening span name.reread attrs.reread isSelfClosing types)
  case jsxClosing span name ih => exact .plain (.jsxClosing span name.reread)
  case jsxElement span opening children closing iho ihc ihcl =>
    exact .plain (.jsxElement span opening.reread children.reread closing.reread)
  case jsxFragment span opening children closing ih =>
    exact .plain (.jsxFragment span opening children.reread closing)
  case jsxTextChild t => exact .tagged (.jsxTextChild t)
  case jsxSpreadChild span expression ih => exact .tagged (.jsxSpreadChild span expression.reread)
  case new span callee arguments types ihc iha =>
    exact .tagged (.new span callee.reread arguments.reread types)
  case newBare span callee types ih => exact .tagged (.newBare span callee.reread types)
  case functionLit f ih => exact (ih h).ofKind .functionLit .functionExpression
  case classLit k ih => exact (ih h).ofKind .classLit .classExpression
  case jsxMemberExpr m ih => exact (ih h).ofKind .jsxMemberExpr .jsxMemberExpression
  case jsxElementExpr e ih => exact (ih h).ofKind .jsxElementExpr .jsxElement
  case jsxFragmentExpr f ih => exact (ih h).ofKind .jsxFragmentExpr .jsxFragment
  case spreadArgument s ih => exact (ih h).ofKind .spreadArgument .spreadElement
  case restPattern r ih => exact (ih h).ofKind .restPattern .restElement
  case restMember r ih => exact (ih h).ofKind .restMember .restElement
  case spreadMember s ih => exact (ih h).ofKind .spreadMember .spreadElement
  case blockBody b ih => exact (ih h).ofKind .blockBody .blockStatement
  case blockStmt b ih => exact (ih h).ofKind .blockStmt .blockStatement
  case varInit v ih => exact (ih h).ofKind .varInit .variableDeclaration
  case varTarget v ih => exact (ih h).ofKind .varTarget .variableDeclaration
  case «variables» v ih => exact (ih h).ofKind .variables .variableDeclaration
  case jsxMemberObject m ih => exact (ih h).ofKind .jsxMemberObject .jsxMemberExpression
  case jsxMemberName m ih => exact (ih h).ofKind .jsxMemberName .jsxMemberExpression
  case jsxContainerValue k ih => exact (ih h).ofKind .jsxContainerValue .jsxExpressionContainer
  case jsxElementValue e ih => exact (ih h).ofKind .jsxElementValue .jsxElement
  case jsxFragmentValue f ih => exact (ih h).ofKind .jsxFragmentValue .jsxFragment
  case jsxPlainAttr a ih => exact (ih h).ofKind .jsxPlainAttr .jsxAttribute
  case jsxSpreadAttr s ih => exact (ih h).ofKind .jsxSpreadAttr .spreadElement
  case jsxContainerChild k ih => exact (ih h).ofKind .jsxContainerChild .jsxExpressionContainer
  case jsxElementChild e ih => exact (ih h).ofKind .jsxElementChild .jsxElement
  case jsxFragmentChild f ih => exact (ih h).ofKind .jsxFragmentChild .jsxFragment
  case plainArgument e ih => exact (ih h).wrapped .plainArgument ((ih h).notMem_kinds (by decide))
  case exprBody e ih => exact (ih h).wrapped .exprBody ((ih h).notMem_kinds (by decide))
  case exprInit e ih => exact (ih h).wrapped .exprInit ((ih h).notMem_kinds (by decide))
  case patternParam p ih => exact (ih h).wrapped .patternParam ((ih h).notMem_kinds (by decide))
  case patternTarget p ih => exact (ih h).wrapped .patternTarget ((ih h).notMem_kinds (by decide))
  case propertyMember p ih => exact (ih h).wrapped .propertyMember ((ih h).notMem_kinds (by decide))
  case declStmt d ih => exact (ih h).wrapped .declStmt ((ih h).notMem_kinds (by decide))
  case exprStmt e ih =>
    refine (ih h).wrapped .exprStmt ((ih h).notMem_kinds (by decide)) rfl
      fun kind fs m hkind hm => ?_
    have hdisjoint : ∀ kind ∈ Category.expr.allKinds, kind ∉ Category.decl.kinds := by decide
    have hdecl := hdisjoint kind (Category.mem_allKinds_of_body hm)
    simp only [Category.body] at hm ⊢
    simp [Category.table_eq_none hkind, Category.table_eq_none hdecl, hm]
  case exprPattern e ih => exact (ih h).ofExprPattern h
  case computedKey e ih => exact (ih h).ofComputedKey h
  case jsxSomeExpr e ih => exact (ih h).ofJsxSomeExpr
  case jsxExprValue e ih => exact (ih h).ofJsxExprValue
  case typed form span expression rest ih =>
    obtain ⟨hrest, he⟩ := h
    have hkeys {key : String} (hkey : key ∈ _) := hasKey_of_isPayload hrest hkey
    have hsound := membersSound_of_isPayload hrest
    have hsub : ["span", "expression"] ⊆ ["span", "expression", "type"] := by simp
    have hkept := restOf_payload (isPayload_of_subset hrest hsub)
      [("span", span.toJson), ("expression", Record.json expression.record?)] (by simp)
    rw [List.cons_append, List.cons_append, List.nil_append] at hkept
    refine .tagged (.typed form span expression.reread rest) (by rfl) rfl (by simp [hkeys])
      (by simp [hsound, ih he]) fun stored => ?_
    simp [Category.body, TypedForm.table_kind, Read.typed, hkeys, hkept, ih he]
  case typeDecl form payload =>
    refine .tagged (.typeDecl form payload) (by rfl) rfl (by simp [h]) (by simp [h])
      fun stored => ?_
    simp [Category.body, TypeDeclForm.table_kind, h]
  case method key f ihk ihf => exact (ihk h.1).ofMethod (ihf h.2)
  case functionExpr name f ih => exact (ih h.2).ofFunctionExpr h.1
  case classExpr name k ih => exact (ih h.2).ofClassExpr h.1
  case classDecl name isDeclare k ih => exact (ih h.2).ofClassDecl h.1
  case functionDecl name isDeclare f ih => exact (ih h.2).ofFunctionDecl h.1
  case absent => exact Node.returns_absent
  case present n ih => exact (ih h.2).ofPresent h.1
  case nil => exact ⟨rfl, fun _ => rfl, iff_of_true rfl rfl⟩
  case cons n ns ihn ihns => exact (ihn h.1).cons (ihns h.2)

end EcmaPrinter
