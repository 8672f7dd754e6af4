/-
# What can be printed

Printing succeeds exactly on the trees it supports, so nothing that it does not
render is dropped without an error (`print_ok_iff_supported`). What is supported
is said node by node (`Node.isSupported`): no TypeScript, no modifier, no
decorator, no JSX, and the rules that parsed trees keep. A tree is supported if
all its nodes are.

The document of a node fails if and only if some node inside it is not supported
(`Node.ok_eq_every`), by induction over the tree: what a phrase can fail with is
what the rule of its node says. A class is checked by the expression or the
declaration that owns it, in front of its name, so the induction speaks of a class
together with that check (`Node.ok`).

Key definitions: `Node.isSupported`, `Program.isSupported`.
Key theorems: `Node.ok_eq_every`, `print_ok_iff_supported`.
-/
import EcmaPrinter.Print
import EcmaPrinter.Proofs.Emit.Atoms
import EcmaPrinter.Proofs.Tree.Every

namespace EcmaPrinter

/-! ### The rules -/

/-- A name without a type. -/
def Ident.isUntyped (name : Ident) : Bool := name.typing.isNone

namespace Node

/-- The names that a node holds itself. -/
def names : {c : Category} → Node c → List Ident
  | _, .ident name | _, .identPattern name | _, .shorthand name | _, .identKey name
  | _, .assignProperty name _ | _, .namedPattern _ name _ | _, .labeledStmt _ name _
  | _, .classDecl name _ _ | _, .functionDecl name _ _ | _, .jsxIdentObject name
  | _, .jsxIdentName name => [name]
  | _, .privateName name | _, .privateMethod _ name _ _ | _, .privateProperty _ name _ _ _ =>
    [name.id]
  | _, .metaProperty _ target property => [target, property]
  | _, .functionExpr name _ | _, .classExpr name _ => name.toList
  | _, .breakStmt _ label | _, .continueStmt _ label => label.toList
  | _, _ => []

/-- Nodes that only TypeScript has, and nodes with a type annotation, type
parameters, type arguments or implemented interfaces. -/
def hasTypes : {c : Category} → Node c → Bool
  | _, .typed _ _ _ _ | _, .typeDecl _ _ | _, .indexSignature _ | _, .propertyParam _ => true
  | _, .call _ _ _ types | _, .new _ _ _ types | _, .newBare _ _ types
  | _, .taggedTemplate _ _ _ _ types => types.isSome
  | _, .arrow _ _ _ _ _ typeParameters returnType => typeParameters.isSome || returnType.isSome
  | _, .arrayPattern _ _ typing | _, .objectPattern _ _ typing | _, .defaultPattern _ _ _ typing
  | _, .rest _ _ _ typing => typing.isSome
  | _, .function _ _ _ _ _ _ typeParameters returnType =>
    typeParameters.isSome || returnType.isSome
  | _, .klass _ _ _ _ _ typeParams superTypeParams implements =>
    typeParams.isSome || superTypeParams.isSome || !implements.isEmpty
  | _, .classProperty _ _ _ _ traits => traits.typing.isSome
  | _, .privateProperty _ _ _ _ traits => traits.typing.isSome
  | _, _ => false

/-- Modifiers: accessibility, `declare`, `abstract`, `readonly`, and the marks of
an optional member or a definite variable. -/
def hasModifier : {c : Category} → Node c → Bool
  | _, .klass _ _ _ _ isAbstract _ _ _ => isAbstract
  | _, .classConstructor _ _ _ _ accessibility isOptional => accessibility.isSome || isOptional
  | _, .classMethod _ _ _ traits | _, .privateMethod _ _ _ traits =>
    traits.accessibility.isSome || traits.isAbstract || traits.isOptional
  | _, .classProperty _ _ _ _ traits | _, .privateProperty _ _ _ _ traits =>
    traits.accessibility.isSome || traits.isAbstract || traits.isOptional || traits.isReadonly
      || traits.isDefinite
  | _, .classDecl _ isDeclare _ | _, .functionDecl _ isDeclare _ | _, .varDecl _ _ isDeclare _ =>
    isDeclare
  | _, .declarator _ _ _ isDefinite => isDefinite
  | _, _ => false

/-- Decorators. -/
def isDecorator : {c : Category} → Node c → Bool
  | _, .decorator _ _ => true
  | _, _ => false

/-- JSX, of which only an empty expression prints. -/
def isJsx : {c : Category} → Node c → Bool
  | _, .jsxMemberExpr _ | _, .jsxNamespaced _ | _, .jsxElementExpr _ | _, .jsxFragmentExpr _
  | _, .jsxTextExpr _ | _, .jsxMember _ _ _ | _, .jsxMemberObject _ | _, .jsxMemberName _
  | _, .jsxSpaceName _ | _, .jsxContainer _ _ | _, .jsxContainerValue _ | _, .jsxContainerChild _
  | _, .jsxElement _ _ _ _ | _, .jsxElementValue _ | _, .jsxElementChild _
  | _, .jsxFragment _ _ _ _ | _, .jsxFragmentValue _ | _, .jsxFragmentChild _
  | _, .jsxAttr _ _ _ | _, .jsxPlainAttr _ | _, .jsxSpreadAttr _ | _, .jsxOpening _ _ _ _ _
  | _, .jsxClosing _ _ | _, .jsxTextChild _ | _, .jsxSpreadChild _ _ => true
  | _, _ => false

/-- An identifier or a private name. -/
def isName : Node .expr → Bool
  | .ident _ | .privateName _ => true
  | _ => false

/-- A place that is not empty. -/
def isPresent {c : Category} : Node (.opt c) → Bool
  | .absent => false
  | .present _ => true

/-- The head of a loop declares exactly one binding if it declares any. -/
def declaresOne : Node .forTarget → Bool
  | .varTarget (.varDecl _ _ _ declarators) => declarators.length == 1
  | .patternTarget _ => true

/-- The rules that parsed trees keep: a template has one text more than it has
expressions, a declaration declares something, the head of a loop one binding,
what follows a dot is a name, and functions have bodies. -/
def keepsContract : {c : Category} → Node c → Bool
  | _, .template _ expressions quasis | _, .taggedTemplate _ _ expressions quasis _ =>
    quasis.length == expressions.length + 1
  | _, .member _ _ property false => property.isName
  | _, .getter _ _ body | _, .setter _ _ _ body | _, .function _ _ _ body _ _ _ _
  | _, .classConstructor _ _ _ body _ _ => body.isPresent
  | _, .varDecl _ _ _ declarators => !declarators.isEmpty
  | _, .forInStmt _ target _ _ | _, .forOfStmt _ _ target _ _ => target.declaresOne
  | _, _ => true

/-- A node is supported, whatever is inside it. -/
def isSupported {c : Category} (n : Node c) : Bool :=
  n.names.all Ident.isUntyped && !n.hasTypes && !n.hasModifier && !n.isDecorator && !n.isJsx
    && n.keepsContract

end Node

/-! ### Nodes -/

/-- The places of a class. -/
def Category.holdsClass : Category → Bool
  | .klass => true
  | .opt c => c.holdsClass
  | _ => false

open Doc in
/-- The document of a node does not fail, nor what its owner checks in front of
it. -/
def Node.ok : {c : Category} → Node c → Bool
  | _, n@(.klass _ _ _ _ _ _ _ _) => (Emit.rejectClass n).all isNoFailure && n.emit.all isNoFailure
  | _, .present n => n.ok
  | _, n => n.emit.all isNoFailure

/-- The documents of a list of nodes do not fail. -/
def Nodes.ok : {c : Category} → Nodes c → Bool
  | _, .nil => true
  | _, .cons n ns => n.ok && ns.ok

open Doc in
/-- Outside the places of a class, nothing is checked in front of a node. -/
theorem Node.emit_ok {c : Category} (n : Node c) (h : c.holdsClass = false) :
    n.emit.all isNoFailure = n.ok := by
  cases n with
  | present n => exact n.emit_ok h
  | klass => cases h
  | _ => rfl

open Doc in
theorem Nodes.items_ok : ∀ {c : Category} (ns : Nodes c), c.holdsClass = false →
    (ns.items.all fun item => item.doc.all isNoFailure) = ns.ok
  | _, .nil, _ => rfl
  | _, .cons n ns, h => by
    have hn := n.emit_ok h
    have hns := ns.items_ok h
    simp! only [List.all_cons, hn, hns]

theorem Node.klass_ok (k : Node .klass) :
    k.ok = ((Emit.rejectClass k).all Doc.isNoFailure && k.emit.all Doc.isNoFailure) := by
  cases k
  rfl

theorem Nodes.length_items : ∀ {c : Category} (ns : Nodes c), ns.items.length = ns.length
  | _, .nil => rfl
  | _, .cons n ns => by simp! [ns.length_items]

/-- No decorator is supported. -/
theorem Nodes.every_decorators (ns : Nodes .decorator) :
    ns.every Node.isSupported = ns.isEmpty := by
  cases ns with
  | nil => rfl
  | cons n ns =>
    cases n
    simp! [Node.isSupported, Nodes.isEmpty]

namespace Emit

open Doc

theorem ident_ok (name : Ident) : (ident name).all isNoFailure = name.isUntyped := by
  simp [Ident.isUntyped]

theorem untyped?_eq (name : Option Ident) :
    name.all Ident.isUntyped = name.toList.all Ident.isUntyped := by
  cases name <;> simp

theorem namedClass_ok (name : Option Ident) (k : Node .klass) :
    (namedClass name k k.emit).all isNoFailure = (name.toList.all Ident.isUntyped && k.ok) := by
  rw [all_namedClass, k.klass_ok, ← untyped?_eq]
  simp only [ident_ok]
  ac_rfl

theorem needsBody_ok (owner : BodyOwner) (body : Node (.opt .block)) :
    (needsBody owner body).all isNoFailure = body.isPresent := by
  cases body <;> rfl

theorem checkBindings_ok (head : ForHead) (target : Node .forTarget) :
    (checkBindings head target).all isNoFailure = target.declaresOne := by
  unfold checkBindings
  split <;> simp [Node.declaresOne]

/-- A name is written behind a dot, and nothing else is. -/
theorem dotted_ok (property : Node .expr) :
    (dotted property).all isNoFailure = (property.isName && property.every Node.isSupported) := by
  cases property with
  | ident name => simp! [dotted_ident, Node.isSupported, Ident.isUntyped]
  | privateName name => simp! [dotted_privateName, Node.isSupported, Ident.isUntyped]
  | _ => rfl

/-- A template with the right number of texts is written as a whole. -/
theorem template_ok (quasis : List Quasi) (ns : Nodes .expr) :
    (template quasis ns.items).all isNoFailure = (quasis.length == ns.length + 1 && ns.ok) := by
  simp only [template, all_append, all_check, all_text, isNoFailure_fail, ns.length_items]
  cases h : quasis.length == ns.length + 1 with
  | false => rfl
  | true =>
    have hlt : ns.items.length < quasis.length := by
      rw [ns.length_items, eq_of_beq h]
      exact Nat.lt_succ_self _
    simp [all_interleave quasis ns.items hlt, ns.items_ok rfl]

theorem rejectModifiers_ok (accessibility : Option Accessibility) (isAbstract isOptional : Bool) :
    (rejectModifiers accessibility isAbstract isOptional).all isNoFailure =
      !(accessibility.isSome || isAbstract || isOptional) := by
  simp [rejectModifiers, Bool.or_assoc]

theorem rejectTraits_ok (decorators : Nodes .decorator) (traits : PropertyTraits) :
    (rejectTraits decorators traits).all isNoFailure =
      (decorators.isEmpty && !traits.typing.isSome
        && !(traits.accessibility.isSome || traits.isAbstract || traits.isOptional
          || traits.isReadonly || traits.isDefinite)) := by
  simp [rejectTraits, rejectModifiers_ok, Bool.and_assoc, Bool.and_comm, Bool.and_left_comm]

end Emit

open Doc Emit in
/-- **The document of a node does not fail if and only if all nodes in it are
supported.** -/
theorem Node.ok_eq_every {c : Category} (n : Node c) : n.ok = n.every Node.isSupported := by
  -- induction over nodes and lists of nodes at once; in every case both sides are conjunctions
  -- over the parts, with what the phrases of the node check on the left and its rule on the right
  apply @Node.rec (fun _ n => n.ok = n.every Node.isSupported)
    (fun _ ns => ns.ok = ns.every Node.isSupported)
  case member =>
    intro span object property isComputed hobject hproperty
    cases isComputed <;>
      simp! (disch := decide) [Node.emit_ok, Node.isSupported, dotted_ok, hobject, hproperty]
    ac_rfl
  all_goals intros
  all_goals try dsimp! only
  all_goals try simp only [Node.isSupported]
  all_goals try dsimp! only
  all_goals simp (disch := decide) [-all_ident, ident_ok, untyped?_eq, Node.emit_ok,
    Nodes.items_ok, namedClass_ok, all_elements, needsBody_ok, checkBindings_ok, template_ok,
    rejectModifiers_ok, rejectTraits_ok, Nodes.every_decorators, Bool.and_assoc, Bool.and_comm,
    Bool.and_left_comm, *]

theorem Node.emit_every {c : Category} (n : Node c) (h : c.holdsClass = false) :
    n.emit.all Doc.isNoFailure = n.every Node.isSupported := by
  rw [n.emit_ok h, n.ok_eq_every]

/-! ### Programs -/

namespace ImportSpecifier

def isDefault : ImportSpecifier → Bool
  | .default _ _ => true
  | _ => false

def isStar : ImportSpecifier → Bool
  | .star _ _ => true
  | _ => false

end ImportSpecifier

namespace ExportSpecifier

def isDefault : ExportSpecifier → Bool
  | .default _ _ => true
  | _ => false

def isStar : ExportSpecifier → Bool
  | .star _ _ => true
  | _ => false

end ExportSpecifier

/-- An import names at most one namespace, an export of names at most one default
and one namespace. -/
def ModuleDecl.namesGroupsOnce : ModuleDecl → Bool
  | .importDecl _ specifiers _ => specifiers.countP ImportSpecifier.isStar ≤ 1
  | .exportNamed _ specifiers _ =>
    specifiers.countP ExportSpecifier.isDefault ≤ 1
      && specifiers.countP ExportSpecifier.isStar ≤ 1
  | _ => true

def ModuleItem.namesGroupsOnce : ModuleItem → Bool
  | .decl d => d.namesGroupsOnce
  | .stmt _ => true

def Program.namesGroupsOnce : Program → Bool
  | .module _ body _ => body.all ModuleItem.namesGroupsOnce
  | .script _ _ _ => true

def DefaultDecl.isSupported : DefaultDecl → Bool
  | .klass c => c.every Node.isSupported
  | .function f => f.every Node.isSupported
  | .interface _ => false

/-- An import or export without TypeScript. A default import comes first. -/
def ModuleDecl.isSupported : ModuleDecl → Bool
  | .importDecl _ specifiers _ =>
    (specifiers.all fun s => s.names.all Ident.isUntyped)
      && specifiers.tail.all fun s => !s.isDefault
  | .exportDecl _ declaration => declaration.every Node.isSupported
  | .exportNamed _ specifiers _ => specifiers.all fun s => s.names.all Ident.isUntyped
  | .exportDefaultDecl _ declaration => declaration.isSupported
  | .exportDefaultExpr _ expression => expression.every Node.isSupported
  | .exportAll _ _ => true
  | .typeModule _ _ => false

def ModuleItem.isSupported : ModuleItem → Bool
  | .decl d => d.isSupported
  | .stmt s => s.every Node.isSupported

/-- All nodes of a program are supported. -/
def Program.isSupported : Program → Bool
  | .module _ body _ => body.all ModuleItem.isSupported
  | .script _ body _ => body.all fun s => s.every Node.isSupported

namespace SpecifierGroups

open Doc Emit

/-- All names in groups are untyped. -/
def ok (g : SpecifierGroups) : Bool := g.all isNoFailure

/-- A group that is named once more had no name yet. -/
theorem toList_eq_nil_of_le {name : Option Ident} {count : Nat}
    (h : name.toList.length + (count + 1) ≤ 1) : name = none := by
  cases name with
  | none => rfl
  | some name =>
    rw [Option.toList_some, List.length_singleton] at h
    omega

/-- Import specifiers are put into groups if none is a default, and with one
namespace at most none is lost on the way. -/
theorem addImports_ok : ∀ (specifiers : List ImportSpecifier) (g : SpecifierGroups),
    g.star.toList.length + specifiers.countP ImportSpecifier.isStar ≤ 1 →
    (addImports g specifiers).any ok =
      (g.ok && (specifiers.all fun s => s.names.all Ident.isUntyped)
        && specifiers.all fun s => !s.isDefault)
  | [], g, _ => by simp [addImports]
  | .default _ _ :: _, g, _ => by simp [addImports, ImportSpecifier.isDefault]
  | .star _ binding :: rest, g, h => by
    rw [List.countP_cons_of_pos rfl] at h
    have hstar : g.star = none := toList_eq_nil_of_le h
    have ih := addImports_ok rest { g with star := some binding } (by
      simp only [Option.toList_some, List.length_singleton]
      omega)
    rw [addImports, ih]
    simp only [ok, all, hstar, ident_ok, ImportSpecifier.names, ImportSpecifier.isDefault,
      List.all_cons, List.all_nil, Option.all_some, Option.all_none, Bool.and_true, Bool.not_false,
      Bool.true_and]
    ac_rfl
  | .named span binding imported :: rest, g, h => by
    rw [List.countP_cons_of_neg (by simp [ImportSpecifier.isStar])] at h
    have ih := addImports_ok rest
      { g with named := g.named ++ [importItem span binding imported] } h
    rw [addImports, ih]
    simp only [ok, all, List.all_append, List.all_cons, List.all_nil, all_importItem, ident_ok,
      ImportSpecifier.isDefault, Bool.and_true, Bool.not_false, Bool.true_and]
    ac_rfl

theorem ofImports?_ok {specifiers : List ImportSpecifier}
    (h : specifiers.countP ImportSpecifier.isStar ≤ 1) :
    (ofImports? specifiers).any ok =
      ((specifiers.all fun s => s.names.all Ident.isUntyped)
        && specifiers.tail.all fun s => !s.isDefault) := by
  unfold ofImports?
  split
  · rename_i span binding rest
    rw [List.countP_cons_of_neg (by simp [ImportSpecifier.isStar])] at h
    rw [addImports_ok rest _ (by simpa [empty] using h)]
    simp [ok, all, empty, ImportSpecifier.names, ← ident_ok]
  · rename_i notDefault
    rw [addImports_ok specifiers _ (by simpa [empty] using h)]
    cases specifiers with
    | nil => rfl
    | cons s rest =>
      have hs : s.isDefault = false := by
        cases s with
        | default span binding => exact absurd rfl (notDefault span binding rest)
        | named _ _ _ | star _ _ => rfl
      simp [ok, all, empty, hs]

/-- Export specifiers are put into groups, and with one default and one namespace
at most none is lost on the way. -/
theorem addExports_ok : ∀ (specifiers : List ExportSpecifier) (g : SpecifierGroups),
    g.default.toList.length + specifiers.countP ExportSpecifier.isDefault ≤ 1 →
    g.star.toList.length + specifiers.countP ExportSpecifier.isStar ≤ 1 →
    (addExports g specifiers).ok =
      (g.ok && specifiers.all fun s => s.names.all Ident.isUntyped)
  | [], g, _, _ => by simp [addExports]
  | .default _ exported :: rest, g, hd, hs => by
    rw [List.countP_cons_of_pos rfl] at hd
    rw [List.countP_cons_of_neg (by simp [ExportSpecifier.isStar])] at hs
    have hnone : g.default = none := toList_eq_nil_of_le hd
    have ih := addExports_ok rest { g with default := some exported } (by
      simp only [Option.toList_some, List.length_singleton]
      omega) hs
    rw [addExports, ih]
    simp only [ok, all, hnone, ident_ok, ExportSpecifier.names, List.all_cons, List.all_nil,
      Option.all_some, Option.all_none, Bool.and_true, Bool.true_and]
    ac_rfl
  | .star _ name :: rest, g, hd, hs => by
    rw [List.countP_cons_of_pos rfl] at hs
    rw [List.countP_cons_of_neg (by simp [ExportSpecifier.isDefault])] at hd
    have hnone : g.star = none := toList_eq_nil_of_le hs
    have ih := addExports_ok rest { g with star := some name } hd (by
      simp only [Option.toList_some, List.length_singleton]
      omega)
    rw [addExports, ih]
    simp only [ok, all, hnone, ident_ok, ExportSpecifier.names, List.all_cons, List.all_nil,
      Option.all_some, Option.all_none, Bool.and_true]
    ac_rfl
  | .named span source exported :: rest, g, hd, hs => by
    rw [List.countP_cons_of_neg (by simp [ExportSpecifier.isStar])] at hs
    rw [List.countP_cons_of_neg (by simp [ExportSpecifier.isDefault])] at hd
    have ih := addExports_ok rest
      { g with named := g.named ++ [exportItem span source exported] } hd hs
    rw [addExports, ih]
    simp only [ok, all, List.all_append, List.all_cons, List.all_nil, all_exportItem, ident_ok,
      Bool.and_true]
    ac_rfl

end SpecifierGroups

open Doc Emit in
/-- **The document of an import or export does not fail if and only if the import
or export is supported**, as long as no group is named twice. -/
theorem ModuleDecl.emit_ok (d : ModuleDecl) (h : d.namesGroupsOnce = true) :
    d.emit.all isNoFailure = d.isSupported := by
  cases d with
  | importDecl span specifiers source =>
    have hstar : specifiers.countP ImportSpecifier.isStar ≤ 1 := by
      simpa [namesGroupsOnce] using h
    have hdoc : (Emit.importDecl span specifiers source).all isNoFailure =
        (SpecifierGroups.ofImports? specifiers).any SpecifierGroups.ok := by
      rw [all_importDecl]
      cases SpecifierGroups.ofImports? specifiers <;> rfl
    simp [emit, isSupported, hdoc, SpecifierGroups.ofImports?_ok hstar]
  | exportNamed span specifiers source =>
    obtain ⟨hdefault, hstar⟩ : specifiers.countP ExportSpecifier.isDefault ≤ 1 ∧
        specifiers.countP ExportSpecifier.isStar ≤ 1 := by
      simpa [namesGroupsOnce] using h
    have hgroups : (SpecifierGroups.ofExports specifiers).all isNoFailure =
        specifiers.all fun s => s.names.all Ident.isUntyped :=
      SpecifierGroups.addExports_ok specifiers .empty
        (by simpa [SpecifierGroups.empty] using hdefault)
        (by simpa [SpecifierGroups.empty] using hstar)
    simp [emit, isSupported, all_exportNamed, hgroups]
  | exportDefaultDecl span declaration =>
    cases declaration with
    | klass c => simp [emit, isSupported, defaultDecl, DefaultDecl.isSupported, c.emit_every rfl]
    | function f => simp [emit, isSupported, defaultDecl, DefaultDecl.isSupported, f.emit_every rfl]
    | interface _ => simp [emit, isSupported, defaultDecl, DefaultDecl.isSupported]
  | exportDecl _ declaration => simp [emit, isSupported, declaration.emit_every rfl]
  | exportDefaultExpr _ expression => simp [emit, isSupported, expression.emit_every rfl]
  | exportAll _ _ | typeModule _ _ => simp [emit, isSupported]

open Doc in
theorem ModuleItem.emit_ok (item : ModuleItem) (h : item.namesGroupsOnce = true) :
    item.emit.all isNoFailure = item.isSupported := by
  cases item with
  | decl d => exact d.emit_ok h
  | stmt s => exact s.emit_every rfl

open Doc in
theorem Program.emit_ok (program : Program) (h : program.namesGroupsOnce = true) :
    program.emit.all isNoFailure = program.isSupported := by
  have hline (name : Option String) : (Emit.interpreter name).all isNoFailure = true := by
    cases name <;> rfl
  cases program with
  | module span body name =>
    have hitems : ∀ item ∈ body, item.emit.all isNoFailure = item.isSupported :=
      fun item hitem => item.emit_ok (List.all_eq_true.mp h item hitem)
    rw [emit, all_append, hline, all_list, List.all_map, Bool.true_and, isSupported,
      Bool.eq_iff_iff, List.all_eq_true, List.all_eq_true]
    exact forall₂_congr fun item hitem => by simp [hitems item hitem]
  | script span body name =>
    rw [emit, all_append, hline, all_list, List.all_map]
    exact List.all_congr rfl fun s => s.emit_every rfl

/-- **Printing succeeds exactly on supported programs.** As long as no import or
export names a group twice, the text of a program is written under any options if
nothing in the program is unsupported, and if anything is, printing fails. -/
theorem print_ok_iff_supported (program : Program) (options : PrintOptions)
    (h : program.namesGroupsOnce = true) :
    (∃ output, print program options = .ok output) ↔ program.isSupported = true := by
  rw [← program.emit_ok h, ← Doc.failure?_eq_none, print, Printer.complete_eq]
  cases program.emit.failure? with
  | none => simp
  | some e => simp

/-- A module that imports a default and a namespace and exports a function. -/
def moduleWithBody (body : Node (.opt .block)) : Program :=
  .module Span.dummy
    [.decl (.importDecl Span.dummy
      [.default Span.dummy (.ofName "a"), .star Span.dummy (.ofName "b")] (.ofValue "m")),
    .decl (.exportDecl Span.dummy (.functionDecl (.ofName "f") false
      (.function Span.dummy .nil .nil body false false none none)))]
    none

/-- Such a module prints if the function has a body, and otherwise it does not. -/
theorem moduleWithBody_ok_iff_supported :
    (∃ output, print (moduleWithBody (.present (.block Span.dummy .nil))) {} = .ok output) ∧
      ¬ ∃ output, print (moduleWithBody .absent) {} = .ok output := by
  constructor
  · exact (print_ok_iff_supported _ {} (by decide)).mpr (by decide)
  · intro h
    exact absurd ((print_ok_iff_supported _ {} (by decide)).mp h) (by decide)

end EcmaPrinter
