/-
# Documents of nodes are phrases

The punctuation of a node comes in pairs, so its document is a phrase of a reader if the
texts that nodes hold themselves are: names, literals and operators that are or hold
quotes or slashes (`Node.emit_phrase`). What exactly a reader asks of them is `Node.Asks`,
and the rest is shown for all readers at once, by induction over the tree.

Key definitions: `Node.Asks`, `ModuleDecl.Asks`.
Key theorems: `Node.emit_phrase`, `ModuleDecl.emit_phrase`.
-/
import EcmaPrinter.Proofs.Emit.Support
import EcmaPrinter.Proofs.Layout.Phrasing
import EcmaPrinter.Proofs.Lexical.Numerals

namespace EcmaPrinter

/-! ### Fixed texts -/

theorem UnaryOp.isPlainText_text (op : UnaryOp) : isPlainText op.text = true := by
  cases op <;> decide

theorem UpdateOp.isPlainText_text (op : UpdateOp) : isPlainText op.text = true := by
  cases op <;> decide

theorem BindingKind.isPlainText_text (kind : BindingKind) : isPlainText kind.text = true := by
  cases kind <;> decide

/-! ### Phrases that nodes share -/

open Doc Emit

namespace Doc.Phrasing

variable {P : Doc → Prop} (h : Phrasing P) {d : Doc}
include h

protected theorem ident {name : Ident} (hname : P (text name.name)) : P (ident name) :=
  h.append (h.append (h.reject _ _) hname) (h.when _ (h.plain (by decide)))

protected theorem privateName {name : PrivateName} (hname : P (text name.id.name)) :
    P (privateName name) :=
  h.append (h.plain (by decide)) (h.ident hname)

/-- Numbers are made of digits, letters, signs and a dot. -/
protected theorem num (literal : NumberLit) : P (num literal) :=
  h.plain (numeral_all (by decide) literal.value)

protected theorem word (value : Bool) : P (text (if value then "true" else "false")) :=
  h.plain (by cases value <;> decide)

protected theorem assignedValue {sign : String} (hsign : P (.softSpace ++ text sign))
    (hd : P d) : P (assignedValue sign d) :=
  h.append (h.append hsign h.softSpace) hd

protected theorem plainSign {sign : String} (hsign : isPlainText sign = true) :
    P (.softSpace ++ text sign) :=
  h.append h.softSpace (h.plain hsign)

protected theorem initializer {value : Node (.opt .expr)} (hd : P d) :
    P (initializer value d) := by
  cases value with
  | absent => exact h.empty
  | present e => exact h.assignedValue (h.plainSign (by decide)) hd

protected theorem dotted {property : Expr}
    (hproperty : ∀ name ∈ property.names, P (text name.name)) : P (dotted property) := by
  cases property with
  | ident name => exact h.ident (hproperty name (List.mem_singleton_self _))
  | privateName name => exact h.privateName (hproperty name.id (List.mem_singleton_self _))
  | _ => exact h.silent rfl

protected theorem member {object property : Expr} (isComputed : Bool) {propertyDoc : Doc}
    (hd : P d) (hdoc : P propertyDoc) (hproperty : ∀ name ∈ property.names, P (text name.name)) :
    P (member object property isComputed d propertyDoc) := by
  have hlookup : P (when (isWholeNumeral object) "." ++ "." ++ dotted property) :=
    h.append (h.append (h.when _ (h.plain (by decide))) (h.plain (by decide)))
      (h.dotted hproperty)
  exact h.append hd (iteInduction (fun _ => h.square hdoc) fun _ => hlookup)

protected theorem keywordBefore {c : Category} {keyword : String}
    (hkeyword : isPlainText keyword = true) {next : Node c} (hd : P d) :
    P (keywordBefore keyword next d) :=
  h.append (h.append (h.plain hkeyword) (h.spaceIf _)) hd

protected theorem parensIf (condition : Bool) (hd : P d) : P (parensIf condition d) :=
  iteInduction (fun _ => h.parens hd) fun _ => hd

protected theorem yieldArgument (isDelegate : Bool) {argument : Node (.opt .expr)} (hd : P d) :
    P (yieldArgument isDelegate argument d) := by
  cases argument with
  | absent => exact h.empty
  | present e => exact h.append (h.spaceIf _) hd

protected theorem needsBody (owner : BodyOwner) (body : Node (.opt .block)) :
    P (needsBody owner body) := by
  cases body with
  | absent => exact h.silent rfl
  | present b => exact h.empty

protected theorem functionKeyword (f : Node .function) : P (functionKeyword f) :=
  h.append (h.append (h.when _ (h.append (h.plain (by decide)) h.space)) (h.plain (by decide)))
    (h.when _ (h.plain (by decide)))

protected theorem functionName {name : Option Ident}
    (hname : ∀ n ∈ name.toList, P (text n.name)) (f : Node .function) :
    P (functionName f name) := by
  cases name with
  | none => exact h.empty
  | some name => exact h.append (h.spaceIf _) (h.ident (hname name (List.mem_singleton_self _)))

protected theorem methodWords (f : Node .function) : P (methodWords f) :=
  h.append (h.when _ (h.append (h.plain (by decide)) h.space)) (h.when _ (h.plain (by decide)))

protected theorem staticWord (isStatic : Bool) : P (when isStatic ("static" ++ .space)) :=
  h.when _ (h.append (h.plain (by decide)) h.space)

protected theorem methodLead (traits : MethodTraits) (f : Node .function) :
    P (methodLead traits f) := by
  refine h.append (h.staticWord _) ?_
  split
  · exact h.append (h.plain (by decide)) h.space
  · exact h.append (h.plain (by decide)) h.space
  · exact h.methodWords f

protected theorem arrowBody {body : Node .arrowBody} (hd : P d) : P (arrowBody body d) := by
  cases body with
  | blockBody b => exact hd
  | exprBody e => exact h.parensIf _ hd

protected theorem rejectModifiers (accessibility : Option Accessibility)
    (isAbstract isOptional : Bool) : P (rejectModifiers accessibility isAbstract isOptional) :=
  h.append (h.reject _ _) (h.reject _ _)

protected theorem rejectTraits (decorators : Nodes .decorator) (traits : PropertyTraits) :
    P (rejectTraits decorators traits) :=
  h.append (h.append (h.append (h.reject _ _) (h.rejectModifiers _ _ _)) (h.reject _ _))
    (h.reject _ _)

protected theorem rejectClass (k : Node .klass) : P (rejectClass k) := by
  cases k
  exact h.append (h.append (h.append (h.append (h.reject _ _) (h.reject _ _)) (h.reject _ _))
    (h.reject _ _)) (h.reject _ _)

protected theorem namedClass {name : Option Ident} (hname : ∀ n ∈ name.toList, P (text n.name))
    (k : Node .klass) (hd : P d) : P (namedClass name k d) := by
  refine h.append (h.append (h.append (h.rejectClass k) (h.plain (by decide))) ?_) hd
  cases name with
  | none => exact h.empty
  | some name => exact h.append h.space (h.ident (hname name (List.mem_singleton_self _)))

protected theorem heritage {superClass : Node (.opt .expr)} (hd : P d) :
    P (heritage superClass d) := by
  cases superClass with
  | absent => exact h.empty
  | present e => exact h.append h.space (h.keywordBefore (by decide) hd)

protected theorem headed {keyword : String} (hkeyword : isPlainText keyword = true) (hd : P d) :
    P (headed keyword d) :=
  h.append (h.append (h.plain hkeyword) h.softSpace) (h.parens hd)

protected theorem operandAfter {argument : Node (.opt .expr)} (hd : P d) :
    P (operandAfter argument d) := by
  cases argument with
  | absent => exact h.empty
  | present e => exact h.append (h.spaceIf _) hd

protected theorem jump {keyword : String} (hkeyword : isPlainText keyword = true)
    {label : Option Ident} (hlabel : ∀ n ∈ label.toList, P (text n.name)) :
    P (jump keyword label) := by
  refine h.append (h.append (h.plain hkeyword) ?_) (h.plain (by decide))
  cases label with
  | none => exact h.empty
  | some label => exact h.append h.space (h.ident (hlabel label (List.mem_singleton_self _)))

protected theorem elseBranch (consequent : Stmt) {alternate : Node (.opt .stmt)} (hd : P d) :
    P (elseBranch consequent alternate d) := by
  cases alternate with
  | absent => exact h.empty
  | present s => exact h.append (h.when _ h.softSpace) (h.keywordBefore (by decide) hd)

protected theorem spaced {c : Category} {place : Node (.opt c)} (hd : P d) :
    P (spaced place d) := by
  cases place with
  | absent => exact h.empty
  | present n => exact h.append h.softSpace hd

protected theorem finallyBlock {finalizer : Node (.opt .block)} (hd : P d) :
    P (finallyBlock finalizer d) := by
  cases finalizer with
  | absent => exact h.empty
  | present b =>
    exact h.append (h.append (h.append h.softSpace (h.plain (by decide))) h.softSpace) hd

protected theorem catchParam {param : Node (.opt .pattern)} (hd : P d) :
    P (catchParam param d) := by
  cases param with
  | absent => exact h.empty
  | present p => exact h.append (h.parens hd) h.softSpace

protected theorem checkBindings (head : ForHead) (target : Node .forTarget) :
    P (checkBindings head target) := by
  unfold checkBindings
  split
  · exact h.check _ _
  · exact h.empty

protected theorem caseHead {value : Node (.opt .expr)} (hd : P d) : P (caseHead value d) := by
  refine h.append ?_ (h.plain (by decide))
  cases value with
  | absent => exact h.plain (by decide)
  | present e => exact h.keywordBefore (by decide) hd

protected theorem caseBody {span : Span} {items : List Item} (hitems : ∀ item ∈ items, P item.doc) :
    P (caseBody span items) := by
  unfold caseBody
  exact iteInduction (fun _ => h.append h.softSpace (h.list hitems)) fun _ => h.list hitems

protected theorem bindingKeyword (kind : BindingKind) (ds : Nodes .declarator) :
    P (bindingKeyword kind ds) := by
  cases ds with
  | nil => exact h.silent rfl
  | cons d ds =>
    cases d
    exact h.append (h.plain kind.isPlainText_text) (h.spaceIf _)

/-- The comma of a hole is one. -/
protected theorem closeHole (isHole : Bool) : ∀ {items : List Item}, (∀ item ∈ items, P item.doc) →
    ∀ item ∈ closeHole isHole items, P item.doc
  | [], _ => nofun
  | [item], hitems => by
    cases isHole with
    | false => exact hitems
    | true => exact List.forall_mem_singleton.mpr (h.plain (by decide))
  | item :: next :: items, hitems => by
    obtain ⟨hitem, hrest⟩ := List.forall_mem_cons.mp hitems
    exact List.forall_mem_cons.mpr ⟨hitem, Phrasing.closeHole isHole hrest⟩

end Doc.Phrasing

/-! ### Nodes -/

/-- What a reader asks of the texts that a node holds itself. -/
def Node.Asks (P : Doc → Prop) : {c : Category} → Node c → Prop
  | _, .str literal | _, .strKey literal => P (Emit.str literal)
  | _, .regex literal => P (Doc.mark literal.span ++ Emit.regex literal)
  | _, .template _ expressions quasis | _, .taggedTemplate _ _ expressions quasis _ =>
    (∀ item ∈ expressions.items, P item.doc) → P (Emit.template quasis expressions.items)
  | _, .binary _ op left right =>
    P right.emit → P (spaceIf (spaceBeforeBinary op left) ++ .text op.text
      ++ spaceIf (spaceAfterBinary op right) ++ right.emit)
  | _, .assign _ op _ _ => P (.softSpace ++ .text op.text)
  | _, n => ∀ name ∈ n.names, P (.text name.name)

section Nodes

variable {P : Doc → Prop} {test : {c : Category} → Node c → Bool}

/-- Any node that passes the tests has names that are phrases, or none. -/
theorem Node.Asks.names {c : Category} {n : Node c} (hn : n.Asks P) :
    ∀ name ∈ n.names, P (.text name.name) := by
  cases n <;> first | exact hn | exact List.forall_mem_nil _

/-- **The document of a node is a phrase** of a reader if the texts in the node are as the
reader asks. -/
theorem Node.emit_phrase (h : Phrasing P)
    (hasks : ∀ {c : Category} (n : Node c), n.every test = true → n.Asks P)
    {c : Category} (n : Node c) (hn : n.every test = true) : P n.emit := by
  revert hn
  -- every constructor's document is put together from the documents of its parts
  apply @Node.rec (fun _ n => n.every test = true → P n.emit)
    (fun _ ns => ns.every test = true → ∀ item ∈ ns.items, P item.doc)
  case nil => exact fun _ => nofun
  case cons =>
    intro c n ns hn hns h
    obtain ⟨h, h'⟩ := Bool.and_eq_true_iff.mp h
    exact List.forall_mem_cons.mpr ⟨hn h, hns h'⟩
  case member =>
    intro span base property isComputed hbase hproperty hn
    dsimp! only at hn ⊢
    simp only [Bool.and_eq_true] at hn
    have hnames := (hasks property hn.2).names
    exact h.append (h.mark span) (h.member isComputed (hbase hn.1.2) (hproperty hn.2) hnames)
  all_goals intros
  all_goals rename_i hn
  all_goals have hask := hasks _ hn
  all_goals clear hasks
  all_goals dsimp! only at hn hask ⊢
  all_goals try simp_all only [Bool.and_eq_true, forall_const, List.forall_mem_singleton]
  -- operators, which may be slashes
  case binary span _ _ _ hleft _ =>
    have hwhole := h.append (h.append (h.mark span) hleft) hask
    exact h.congr (by simp only [steps_append, List.append_assoc]) hwhole
  case assign htarget hvalue =>
    exact h.append (h.append (h.mark _) htarget) (h.assignedValue hask hvalue)
  -- lists that may be absent or end in a hole
  case new hcallee harguments =>
    exact h.append (h.append (h.append (h.mark _) (h.reject _ _))
      (h.keywordBefore (by decide) hcallee)) (h.listIfAny harguments)
  case newBare hcallee =>
    exact h.append (h.append (h.append (h.mark _) (h.reject _ _))
      (h.keywordBefore (by decide) hcallee)) (h.listIfAny (List.forall_mem_nil _))
  case array helements => exact h.append (h.mark _) (h.list (h.closeHole _ helements))
  case arrayPattern helements =>
    exact h.append (h.append (h.mark _) (h.reject _ _)) (h.list (h.closeHole _ helements))
  -- documents that depend on a condition
  case unary op _ hoperand =>
    refine h.append (h.append (h.append (h.mark _) (h.plain op.isPlainText_text)) ?_) hoperand
    exact iteInduction (fun _ => h.space) fun _ => h.when _ h.softSpace
  case update op _ _ hoperand =>
    have hop : P (.text op.text) := h.plain op.isPlainText_text
    refine h.append (h.mark _) ?_
    exact iteInduction (fun _ => h.append hop hoperand) fun _ => h.append hoperand hop
  case classProperty hkey hvalue _ =>
    refine h.append (h.append (h.append (h.append (h.rejectTraits _ _) (h.staticWord _)) ?_)
      (h.initializer hvalue)) (h.plain (by decide))
    exact iteInduction (fun _ => h.square hkey) fun _ => hkey
  case privateProperty hvalue _ =>
    exact h.append (h.append (h.append (h.append (h.rejectTraits _ _) (h.staticWord _))
      (h.privateName hask)) (h.initializer hvalue)) (h.plain (by decide))
  case arrow hparams hbody =>
    have hasync : P ("async" ++ .softSpace) := h.append (h.plain (by decide)) h.softSpace
    refine h.append (h.append (h.append ?_ (h.when _ hasync)) (h.list hparams))
      (h.assignedValue (h.plainSign (by decide)) (h.arrowBody hbody))
    exact h.append (h.append (h.mark _) (h.reject _ _)) (h.reject _ _)
  case yield hargument =>
    exact h.append (h.append (h.append (h.mark _) (h.plain (by decide)))
      (h.when _ (h.plain (by decide)))) (h.yieldArgument _ hargument)
  -- names
  case metaProperty =>
    obtain ⟨htarget, hproperty⟩ := List.forall_mem_cons.mp hask
    have hproperty := h.ident (hproperty _ (List.mem_singleton_self _))
    exact h.append (h.append (h.append (h.mark _) (h.ident htarget)) (h.plain (by decide))) hproperty
  case breakStmt | continueStmt => exact h.append (h.mark _) (h.jump (by decide) hask)
  case functionExpr hf =>
    exact h.append (h.append (h.functionKeyword _) (h.functionName hask _)) hf
  case functionDecl hf =>
    exact h.append (h.append (h.append (h.reject _ _) (h.functionKeyword _))
      (h.append (h.spaceIf _) (h.ident hask))) hf
  case classExpr hc => exact h.namedClass hask _ hc
  case classDecl name _ _ hc =>
    have hnames : ∀ n ∈ (some name).toList, P (.text n.name) := by simpa using hask
    exact h.append (h.reject _ _) (h.namedClass hnames _ hc)
  -- heads of loops
  case forStmt hinit htest hupdate hbody =>
    have hsemicolon : P (.text ";") := h.plain (by decide)
    refine h.append (h.append (h.append (h.mark _) (h.headed (by decide) ?_)) h.softSpace) hbody
    exact h.append (h.append (h.append (h.append hinit hsemicolon) (h.spaced htest)) hsemicolon)
      (h.spaced hupdate)
  case forInStmt htarget hobject hbody =>
    refine h.append (h.append (h.append (h.mark _) (h.headed (by decide) ?_)) h.softSpace) hbody
    exact h.append (h.append (h.append (h.checkBindings _ _) htarget) h.space)
      (h.keywordBefore (by decide) hobject)
  case forOfStmt htarget hiterable hbody =>
    have hawait : P (space ++ "await") := h.append h.space (h.plain (by decide))
    refine h.append (h.append (h.append (h.append (h.append (h.append (h.mark _)
      (h.plain (by decide))) (h.when _ hawait)) h.softSpace) (h.parens ?_)) h.softSpace) hbody
    exact h.append (h.append (h.append (h.checkBindings _ _) htarget) h.space)
      (h.keywordBefore (by decide) hiterable)
  -- parts one behind the other
  all_goals repeat' with_reducible apply h.append
  all_goals try exact h.plain (by decide)
  all_goals with_reducible first
    | assumption
    | exact h.mark _
    | exact h.reject _ _
    | exact h.softSpace
    | exact h.space
    | exact h.empty
    | exact h.num _
    | exact h.word _
    | exact h.needsBody _ _
    | exact h.methodWords _
    | exact h.methodLead _ _
    | exact h.rejectModifiers _ _ _
    | exact h.bindingKeyword _ _
    | exact h.ident (by assumption)
    | exact h.privateName (by assumption)
    | exact h.list (by assumption)
    | exact h.emptyParens
    | exact h.parens (by assumption)
    | exact h.square (by assumption)
    | exact h.headed (by decide) (by assumption)
    | exact h.keywordBefore (by decide) (by assumption)
    | exact h.assignedValue (h.plainSign (by decide)) (by assumption)
    | exact h.initializer (by assumption)
    | exact h.spaced (by assumption)
    | exact h.parensIf _ (by assumption)
    | exact h.heritage (by assumption)
    | exact h.operandAfter (by assumption)
    | exact h.elseBranch _ (by assumption)
    | exact h.finallyBlock (by assumption)
    | exact h.catchParam (by assumption)
    | exact h.caseHead (by assumption)
    | exact h.caseBody (by assumption)

end Nodes

/-! ### Imports and exports -/

/-- The names that an import or export holds besides its nodes. -/
def ModuleDecl.names : ModuleDecl → List Ident
  | .importDecl _ specifiers _ => specifiers.flatMap ImportSpecifier.names
  | .exportNamed _ specifiers _ => specifiers.flatMap ExportSpecifier.names
  | _ => []

/-- The module that something is imported or exported from. -/
def ModuleDecl.sources : ModuleDecl → List StringLit
  | .importDecl _ _ source | .exportAll _ source => [source]
  | .exportNamed _ _ source => source.toList
  | _ => []

/-- What a reader asks of the texts of an import or export besides those of its nodes. -/
structure ModuleDecl.Asks (P : Doc → Prop) (d : ModuleDecl) : Prop where
  names : ∀ name ∈ d.names, P (.text name.name)
  sources : ∀ source ∈ d.sources, P (str source)

namespace SpecifierGroups

variable {P : Doc → Prop}

/-- The specifiers in groups are phrases. -/
structure IsPhrase (P : Doc → Prop) (g : SpecifierGroups) : Prop where
  default : ∀ name ∈ g.default.toList, P (.text name.name)
  star : ∀ name ∈ g.star.toList, P (.text name.name)
  named : ∀ item ∈ g.named, P item.doc

theorem empty_isPhrase : empty.IsPhrase P :=
  ⟨List.forall_mem_nil _, List.forall_mem_nil _, List.forall_mem_nil _⟩

theorem IsPhrase.withNamed {g : SpecifierGroups} (hg : g.IsPhrase P) {item : Item}
    (h : P item.doc) : { g with named := g.named ++ [item] : SpecifierGroups }.IsPhrase P :=
  ⟨hg.default, hg.star, List.forall_mem_append.mpr ⟨hg.named, List.forall_mem_singleton.mpr h⟩⟩

theorem importItem_isPhrase (h : Phrasing P) {span : Span} {binding : Ident}
    {imported : Option Ident}
    (hnames : ∀ n ∈ (ImportSpecifier.named span binding imported).names, P (.text n.name)) :
    P (importItem span binding imported).doc := by
  cases imported with
  | none => exact h.append h.empty (h.ident (hnames _ (by simp [ImportSpecifier.names])))
  | some name =>
    have hname := h.ident (hnames name (by simp [ImportSpecifier.names]))
    exact h.append (h.append (h.append (h.append hname h.space) (h.plain (by decide))) h.space)
      (h.ident (hnames _ (by simp [ImportSpecifier.names])))

theorem exportItem_isPhrase (h : Phrasing P) {span : Span} {name : Ident} {exported : Option Ident}
    (hnames : ∀ n ∈ (ExportSpecifier.named span name exported).names, P (.text n.name)) :
    P (exportItem span name exported).doc := by
  have hname := h.ident (hnames name (by simp [ExportSpecifier.names]))
  cases exported with
  | none => exact h.append hname h.empty
  | some exported =>
    exact h.append hname (h.append (h.append (h.append h.space (h.plain (by decide))) h.space)
      (h.ident (hnames _ (by simp [ExportSpecifier.names]))))

theorem addImports_isPhrase (h : Phrasing P) {specifiers : List ImportSpecifier}
    {g g' : SpecifierGroups} (hg : g.IsPhrase P)
    (hnames : ∀ name ∈ specifiers.flatMap ImportSpecifier.names, P (.text name.name))
    (hadd : addImports g specifiers = some g') : g'.IsPhrase P := by
  fun_induction addImports g specifiers with
  | case1 g =>
    cases hadd
    exact hg
  | case2 => cases hadd
  | case3 g span binding rest ih =>
    obtain ⟨hs, hrest⟩ := List.forall_mem_append.mp hnames
    exact ih ⟨hg.default, hs, hg.named⟩ hrest hadd
  | case4 g span binding imported rest ih =>
    obtain ⟨hs, hrest⟩ := List.forall_mem_append.mp hnames
    exact ih (hg.withNamed (importItem_isPhrase h hs)) hrest hadd

theorem ofImports?_isPhrase (h : Phrasing P) {specifiers : List ImportSpecifier}
    {g : SpecifierGroups}
    (hnames : ∀ name ∈ specifiers.flatMap ImportSpecifier.names, P (.text name.name))
    (hg : ofImports? specifiers = some g) : g.IsPhrase P := by
  unfold ofImports? at hg
  split at hg
  · rename_i binding rest
    obtain ⟨hs, hrest⟩ := List.forall_mem_append.mp hnames
    have hfirst : { empty with default := some binding : SpecifierGroups }.IsPhrase P :=
      ⟨hs, List.forall_mem_nil _, List.forall_mem_nil _⟩
    exact addImports_isPhrase h hfirst hrest hg
  · exact addImports_isPhrase h empty_isPhrase hnames hg

theorem addExports_isPhrase (h : Phrasing P) {specifiers : List ExportSpecifier}
    {g : SpecifierGroups} (hg : g.IsPhrase P)
    (hnames : ∀ name ∈ specifiers.flatMap ExportSpecifier.names, P (.text name.name)) :
    (addExports g specifiers).IsPhrase P := by
  fun_induction addExports g specifiers with
  | case1 g => exact hg
  | case2 g span exported rest ih =>
    obtain ⟨hs, hrest⟩ := List.forall_mem_append.mp hnames
    exact ih ⟨hs, hg.star, hg.named⟩ hrest
  | case3 g span name rest ih =>
    obtain ⟨hs, hrest⟩ := List.forall_mem_append.mp hnames
    exact ih ⟨hg.default, hs, hg.named⟩ hrest
  | case4 g span name exported rest ih =>
    obtain ⟨hs, hrest⟩ := List.forall_mem_append.mp hnames
    exact ih (hg.withNamed (exportItem_isPhrase h hs)) hrest

end SpecifierGroups

namespace Doc.Phrasing

variable {P : Doc → Prop} (h : Phrasing P)
include h

protected theorem defaultClause {name : Option Ident}
    (hname : ∀ n ∈ name.toList, P (text n.name)) : P (defaultClause name) := by
  cases name with
  | none => exact h.empty
  | some name => exact h.append h.space (h.ident (hname name (List.mem_singleton_self _)))

protected theorem groupGap (isAfterGroup : Bool) : P (groupGap isAfterGroup) :=
  h.append (h.when _ (h.plain (by decide))) h.softSpace

protected theorem starClause {name : Option Ident} (hname : ∀ n ∈ name.toList, P (text n.name))
    (isAfterGroup : Bool) : P (starClause isAfterGroup name) := by
  cases name with
  | none => exact h.empty
  | some name =>
    exact h.append (h.append (h.append (h.append (h.append (h.groupGap _) (h.plain (by decide)))
      h.softSpace) (h.plain (by decide))) h.space) (h.ident (hname name (List.mem_singleton_self _)))

protected theorem namedClause {items : List Item} (hitems : ∀ item ∈ items, P item.doc)
    (parent : Span) (isAfterGroup : Bool) : P (namedClause parent isAfterGroup items) :=
  h.append (h.groupGap _) (h.list hitems)

protected theorem fromClause {source : StringLit} (hsource : P (str source)) (isAfterName : Bool) :
    P (fromClause isAfterName source) :=
  h.append (h.append (h.append (h.spaceIf _) (h.plain (by decide))) h.softSpace) hsource

protected theorem importDecl {span : Span} {specifiers : List ImportSpecifier}
    {source : StringLit} (hasks : (ModuleDecl.importDecl span specifiers source).Asks P) :
    P (importDecl span specifiers source) := by
  have hsource : P (str source) := hasks.sources source (List.mem_singleton_self _)
  have hsemicolon : P (text ";") := h.plain (by decide)
  refine h.append (h.plain (by decide)) (iteInduction (fun _ => ?_) fun _ => ?_)
  · exact h.append (h.append h.softSpace hsource) hsemicolon
  · split
    · exact h.silent rfl
    · rename_i g hg
      have hgroups := SpecifierGroups.ofImports?_isPhrase h hasks.names hg
      exact h.append (h.append (h.append (h.append (h.defaultClause hgroups.default)
        (h.starClause hgroups.star _)) (h.when _ (h.namedClause hgroups.named _ _)))
        (h.fromClause hsource _)) hsemicolon

protected theorem exportNamed {span : Span} {specifiers : List ExportSpecifier}
    {source : Option StringLit} (hasks : (ModuleDecl.exportNamed span specifiers source).Asks P) :
    P (exportNamed span specifiers source) := by
  have hgroups : (SpecifierGroups.ofExports specifiers).IsPhrase P :=
    SpecifierGroups.addExports_isPhrase h SpecifierGroups.empty_isPhrase hasks.names
  refine h.append (h.append (h.append (h.append (h.append (h.plain (by decide))
    (h.defaultClause hgroups.default)) (h.starClause hgroups.star _))
    (h.when _ (h.namedClause hgroups.named _ _))) ?_) (h.plain (by decide))
  cases source with
  | none => exact h.empty
  | some source => exact h.fromClause (hasks.sources source (List.mem_singleton_self _)) _

end Doc.Phrasing

section Modules

variable {P : Doc → Prop} {test : {c : Category} → Node c → Bool} (h : Phrasing P)
  (hasks : ∀ {c : Category} (n : Node c), n.every test = true → n.Asks P)
include h hasks

theorem DefaultDecl.emit_phrase {d : DefaultDecl} (hd : d.every test = true) :
    P (defaultDecl d) := by
  cases d with
  | klass c => exact c.emit_phrase h hasks hd
  | function f => exact f.emit_phrase h hasks hd
  | interface _ => exact h.reject true _

theorem ModuleDecl.emit_phrase {d : ModuleDecl} (hown : d.Asks P) (hd : d.every test = true) :
    P d.emit := by
  have hexport : P ("export" ++ space) := h.append (h.plain (by decide)) h.space
  unfold emit
  refine h.append (h.mark _) ?_
  cases d with
  | importDecl span specifiers source => exact h.importDecl hown
  | exportNamed span specifiers source => exact h.exportNamed hown
  | exportDecl span declaration =>
    exact h.append hexport (declaration.emit_phrase h hasks hd)
  | exportDefaultDecl span declaration =>
    exact h.append (h.append (h.append hexport (h.plain (by decide))) h.space)
      (DefaultDecl.emit_phrase h hasks hd)
  | exportDefaultExpr span expression =>
    have hexpression : P expression.emit := expression.emit_phrase h hasks hd
    have hdefault : P (defaultExpr expression) := iteInduction
      (fun _ => h.append (h.append (h.plain (by decide)) h.softSpace) (h.parens hexpression))
      fun _ => h.keywordBefore (by decide) hexpression
    exact h.append (h.append hexport hdefault) (h.plain (by decide))
  | exportAll span source =>
    have hsource : P (str source) := hown.sources source (List.mem_singleton_self _)
    exact h.append (h.append (h.append (h.append (h.append (h.append (h.append
      (h.plain (by decide)) h.softSpace) (h.plain (by decide))) h.softSpace) (h.plain (by decide)))
      h.softSpace) hsource) (h.plain (by decide))
  | typeModule form payload => exact h.reject true _

end Modules

end EcmaPrinter
