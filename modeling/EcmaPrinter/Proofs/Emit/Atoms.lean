/-
# What the documents of nodes are made of

A document is put together from atoms: texts, blanks, marks, failures. `Doc.all`
tests every atom of a document, and the lemmas here push such a test through the
phrases that documents are written with, for any test that blanks, texts, marks
and comments pass (`Doc.Lenient`). What is left of a test then is what it says
about the parts of a phrase, and about the failures that the phrase adds.

Two tests are used: that nothing fails, which is how a document succeeds
(`Doc.failure?_eq_none`), and that no atom depends on the mode. The document of a
node passes the second (`Node.emit_modeFree`): only the first line of a program
breaks a line in compact text.

Key definitions: `Doc.all`, `Doc.Lenient`, `Doc.isModeFree`, `Doc.isNoFailure`.
Key theorems: `Doc.failure?_eq_none`, `Node.emit_modeFree`.
-/
import EcmaPrinter.Emit.Program
import EcmaPrinter.Proofs.Layout.Run

namespace EcmaPrinter

namespace Doc

/-- A test passes on every atom of a document. -/
def all (test : Doc → Bool) : Doc → Bool
  | .nest body => body.all test
  | .append first second => first.all test && second.all test
  | atom => test atom

/-- A test that only failures and compact line breaks may fail. -/
class Lenient (test : Doc → Bool) : Prop where
  empty : test .empty = true
  text : ∀ s, test (.text s) = true
  softSpace : test .softSpace = true
  softLine : test .softLine = true
  mark : ∀ span, test (.mark span) = true
  comments : ∀ span, test (.comments span) = true

/-- The atom does not fail. -/
def isNoFailure : Doc → Bool
  | .fail _ => false
  | _ => true

/-- The atom is not written in one mode only for good. -/
def isModeFree : Doc → Bool
  | .compactLine => false
  | _ => true

instance : Lenient isNoFailure := ⟨rfl, fun _ => rfl, rfl, rfl, fun _ => rfl, fun _ => rfl⟩

instance : Lenient isModeFree := ⟨rfl, fun _ => rfl, rfl, rfl, fun _ => rfl, fun _ => rfl⟩

/-- **A document succeeds if none of its atoms fails.** -/
theorem failure?_eq_none : ∀ d : Doc, d.failure? = none ↔ d.all isNoFailure = true
  | .empty | .text _ | .softSpace | .softLine | .compactLine | .mark _ | .comments _ => by
    simp [failure?, all, isNoFailure]
  | .fail _ => by simp [failure?, all, isNoFailure]
  | .nest body => failure?_eq_none body
  | .append a b => by
    change a.failure?.or b.failure? = none ↔ (a.all isNoFailure && b.all isNoFailure) = true
    rw [Option.or_eq_none_iff, failure?_eq_none a, failure?_eq_none b, Bool.and_eq_true_iff]

/-! ### Phrases of every list and node -/

section Phrases

variable {test : Doc → Bool} [Lenient test]

omit [Lenient test] in
@[simp] theorem all_append (a b : Doc) : (a ++ b).all test = (a.all test && b.all test) := rfl

omit [Lenient test] in
@[simp] theorem all_nest (body : Doc) : (nest body).all test = body.all test := rfl

omit [Lenient test] in
@[simp] theorem all_fail (e : EmitError) : (fail e).all test = test (fail e) := rfl

omit [Lenient test] in
@[simp] theorem all_compactLine : compactLine.all test = test compactLine := rfl

@[simp] theorem all_empty : empty.all test = true := ‹Lenient test›.empty

@[simp] theorem all_text (s : String) : (text s).all test = true := ‹Lenient test›.text s

@[simp] theorem all_softSpace : softSpace.all test = true := ‹Lenient test›.softSpace

@[simp] theorem all_softLine : softLine.all test = true := ‹Lenient test›.softLine

@[simp] theorem all_mark (span : Span) : (mark span).all test = true := ‹Lenient test›.mark span

@[simp] theorem all_comments (span : Span) : (comments span).all test = true :=
  ‹Lenient test›.comments span

@[simp] theorem all_space : space.all test = true := all_text " "

@[simp] theorem all_spaceIf (b : Bool) : (spaceIf b).all test = true := by
  cases b
  · exact all_softSpace
  · exact all_space

@[simp] theorem all_when (b : Bool) (d : Doc) : (when b d).all test = (!b || d.all test) := by
  cases b
  · exact all_empty
  · rfl

@[simp] theorem all_check (b : Bool) (e : EmitError) :
    (check b e).all test = (b || test (fail e)) := by
  cases b
  · rfl
  · exact all_empty

@[simp] theorem all_reject (b : Bool) (kind : NodeKind) :
    (reject b kind).all test = (!b || test (fail (.unimplemented kind))) := all_check (!b) _

omit [Lenient test] in
@[simp] theorem all_ite (b : Bool) (d e : Doc) :
    (if b then d else e).all test = if b then d.all test else e.all test := by
  cases b <;> rfl

@[simp] theorem all_between (opening closing : String) (d : Doc) :
    (between opening closing d).all test = d.all test := by
  simp [between]

@[simp] theorem all_breakOr (isBroken isSpaced : Bool) :
    (breakOr isBroken isSpaced).all test = true := by
  unfold breakOr
  split
  · exact all_softLine
  · split
    · exact all_softSpace
    · exact all_empty

@[simp] theorem all_listItem (f : ListFormat) (item : Item) :
    (listItem f item).all test = item.doc.all test := by
  simp [listItem]

theorem all_listTail (f : ListFormat) : ∀ (previous : Span) (items : List Item),
    (listTail f previous items).all test = items.all fun item => item.doc.all test
  | _, [] => all_empty
  | _, item :: items => by
    simp [listTail, all_listTail f item.span items]

theorem all_listBody (parent : Span) (f : ListFormat) (items : List Item) :
    (listBody parent f items).all test = items.all fun item => item.doc.all test := by
  cases items with
  | nil =>
    simp only [listBody]
    split <;> simp
  | cons first rest =>
    simp only [listBody]
    split <;> simp [all_listTail]

/-- A list passes a test if its items do. -/
@[simp] theorem all_list (parent : Span) (f : ListFormat) (items : List Item) :
    (list parent f items).all test = items.all fun item => item.doc.all test := by
  unfold list
  split
  · rename_i h
    have : items = [] := by simpa using (Bool.and_eq_true_iff.mp h).1
    simp [this]
  · simp [all_listBody]

@[simp] theorem all_listIfAny (parent : Span) (f : ListFormat) (items : Option (List Item)) :
    (listIfAny parent f items).all test =
      (items.getD []).all fun item => item.doc.all test := by
  unfold listIfAny
  split
  · rename_i h
    have : items = none := by simpa using (Bool.and_eq_true_iff.mp h).1
    simp [this]
  · exact all_list parent f _

end Phrases

end Doc

/-! ### Phrases of one kind of node -/

theorem Node.emit_absent {c : Category} : (Node.absent : Node (.opt c)).emit = .empty := rfl

namespace Emit

open Doc

variable {test : Doc → Bool} [Lenient test]

@[simp] theorem all_ident (name : Ident) :
    (ident name).all test = (!name.typing.isSome || test (fail (.unimplemented .tsTyping))) := by
  simp [ident]

@[simp] theorem all_privateName (name : PrivateName) :
    (privateName name).all test = (ident name.id).all test := by
  simp [privateName]

@[simp] theorem all_str (literal : StringLit) : (str literal).all test = true := all_text _

@[simp] theorem all_num (literal : NumberLit) : (num literal).all test = true := all_text _

@[simp] theorem all_regex (literal : RegexLit) : (regex literal).all test = true := by
  simp [regex]

/-- With enough texts, every expression of a template is written. -/
theorem all_interleave : ∀ (quasis : List Quasi) (items : List Item),
    items.length < quasis.length →
    (interleave quasis items).all test = items.all fun item => item.doc.all test
  | quasi :: quasis, [], _ => by
    cases quasis with
    | nil => simp [interleave]
    | cons q qs => simpa [interleave] using all_interleave (q :: qs) [] (by simp)
  | quasi :: quasis, e :: es, h => by
    have ih := all_interleave quasis es (by simpa using h)
    simp [interleave, ih]

/-- Without failures to find, all that is tested of a template are its
expressions. -/
theorem all_interleave_le (quasis : List Quasi) (items : List Item)
    (h : (items.all fun item => item.doc.all test) = true) :
    (interleave quasis items).all test = true := by
  fun_induction interleave quasis items with
  | case1 => exact all_empty
  | case2 quasi quasis ih => simp [ih h]
  | case3 quasi quasis e es ih =>
    rw [List.all_cons, Bool.and_eq_true_iff] at h
    simp [h.1, ih h.2]

@[simp] theorem all_assignedValue (sign : String) (value : Doc) :
    (assignedValue sign value).all test = value.all test := by
  simp [assignedValue]

@[simp] theorem all_initializer (value : Node (.opt .expr)) :
    (initializer value value.emit).all test = value.emit.all test := by
  cases value with
  | absent => rfl
  | present e => simp [initializer]

@[simp] theorem all_parensIf (condition : Bool) (d : Doc) :
    (parensIf condition d).all test = d.all test := by
  unfold parensIf
  split <;> simp

@[simp] theorem all_keywordBefore {c : Category} (keyword : String) (next : Node c) (doc : Doc) :
    (keywordBefore keyword next doc).all test = doc.all test := by
  simp [keywordBefore]

@[simp] theorem all_yieldArgument (isDelegate : Bool) (argument : Node (.opt .expr)) :
    (yieldArgument isDelegate argument argument.emit).all test = argument.emit.all test := by
  cases argument with
  | absent => rfl
  | present e => simp [yieldArgument]

@[simp] theorem all_functionKeyword (f : Node .function) : (functionKeyword f).all test = true := by
  simp [functionKeyword]

@[simp] theorem all_functionNameGap (f : Node .function) : (functionNameGap f).all test = true :=
  all_spaceIf _

@[simp] theorem all_functionName (f : Node .function) (name : Option Ident) :
    (functionName f name).all test = name.all fun name => (ident name).all test := by
  cases name with
  | none => exact all_empty
  | some name => simp [functionName]

@[simp] theorem all_methodWords (f : Node .function) : (methodWords f).all test = true := by
  simp [methodWords]

@[simp] theorem all_methodLead (traits : MethodTraits) (f : Node .function) :
    (methodLead traits f).all test = true := by
  unfold methodLead
  cases traits.kind <;> simp

@[simp] theorem all_arrowBody (body : Node .arrowBody) :
    (arrowBody body body.emit).all test = body.emit.all test := by
  cases body <;> simp [arrowBody]

theorem all_namedClass (name : Option Ident) (c : Node .klass) (doc : Doc) :
    (namedClass name c doc).all test =
      ((rejectClass c).all test && (name.all fun name => (ident name).all test)
        && doc.all test) := by
  cases name <;> simp [namedClass]

@[simp] theorem all_heritage (superClass : Node (.opt .expr)) :
    (heritage superClass superClass.emit).all test = superClass.emit.all test := by
  cases superClass with
  | absent => rfl
  | present e => simp [heritage]

@[simp] theorem all_headed (keyword : String) (head : Doc) :
    (headed keyword head).all test = head.all test := by
  simp [headed]

@[simp] theorem all_operandAfter (argument : Node (.opt .expr)) :
    (operandAfter argument argument.emit).all test = argument.emit.all test := by
  cases argument with
  | absent => rfl
  | present e => simp [operandAfter]

@[simp] theorem all_jump (keyword : String) (label : Option Ident) :
    (jump keyword label).all test = label.all fun label => (ident label).all test := by
  cases label <;> simp [jump]

@[simp] theorem all_elseBranch (consequent : Node .stmt) (alternate : Node (.opt .stmt)) :
    (elseBranch consequent alternate alternate.emit).all test = alternate.emit.all test := by
  cases alternate with
  | absent => rfl
  | present s => simp [elseBranch]

@[simp] theorem all_spaced {c : Category} (place : Node (.opt c)) :
    (spaced place place.emit).all test = place.emit.all test := by
  cases place with
  | absent => rfl
  | present n => simp [spaced]

@[simp] theorem all_finallyBlock (finalizer : Node (.opt .block)) :
    (finallyBlock finalizer finalizer.emit).all test = finalizer.emit.all test := by
  cases finalizer with
  | absent => rfl
  | present b => simp [finallyBlock]

@[simp] theorem all_catchParam (param : Node (.opt .pattern)) :
    (catchParam param param.emit).all test = param.emit.all test := by
  cases param with
  | absent => rfl
  | present p => simp [catchParam]

@[simp] theorem all_caseHead (value : Node (.opt .expr)) :
    (caseHead value value.emit).all test = value.emit.all test := by
  cases value with
  | absent => simp [caseHead, Node.emit_absent]
  | present e => simp [caseHead]

@[simp] theorem all_caseBody (span : Span) (items : List Item) :
    (caseBody span items).all test = items.all fun item => item.doc.all test := by
  simp only [caseBody, apply_ite (Doc.all test), all_append, all_softSpace, all_list,
    Bool.true_and, ite_self]

/-- A hole has nothing to test, so closing it changes nothing. -/
theorem all_closeHole (isHole : Bool) : ∀ items : List Item,
    (isHole = true → ∀ item, items.getLast? = some item → item.doc.all test = true) →
    ((closeHole isHole items).all fun item => item.doc.all test) =
      items.all fun item => item.doc.all test
  | [], _ => rfl
  | [item], h => by
    cases isHole with
    | false => rfl
    | true => simp [closeHole, h rfl item rfl]
  | item :: next :: items, h => by
    have ih := all_closeHole isHole (next :: items) fun hi i hl => h hi i (by simpa using hl)
    rw [closeHole, List.all_cons, List.all_cons, ih]
    simp

@[simp] theorem all_member (object property : Node .expr) (isComputed : Bool)
    (objectDoc propertyDoc : Doc) :
    (member object property isComputed objectDoc propertyDoc).all test =
      (objectDoc.all test &&
        if isComputed then propertyDoc.all test else (dotted property).all test) := by
  cases isComputed <;> simp [member]

@[simp] theorem all_bindingKeyword (kind : BindingKind) (ds : Nodes .declarator) :
    (bindingKeyword kind ds).all test =
      (!ds.isEmpty || test (fail (.contract (.noDeclarators kind)))) := by
  cases ds with
  | nil => rfl
  | cons d ds =>
    cases d
    simp [bindingKeyword, Nodes.isEmpty]

end Emit

/-! ### Nodes -/

theorem Nodes.getLast?_items : ∀ {c : Category} (ns : Nodes c),
    ns.items.getLast? = ns.toList.getLast?.map fun n => ⟨n.span, n.emit⟩
  | _, .nil => rfl
  | _, .cons n .nil => rfl
  | _, .cons n (.cons m ns) => by
    have ih := Nodes.getLast?_items (.cons m ns)
    simpa! using ih

/-- The holes of an array have nothing to test. -/
theorem Emit.all_elements {test : Doc → Bool} [Doc.Lenient test] {c : Category}
    (elements : Nodes (.opt c)) :
    ((closeHole (endsWithHole elements) elements.items).all fun item => item.doc.all test) =
      elements.items.all fun item => item.doc.all test := by
  apply all_closeHole
  intro hole item hlast
  rw [Nodes.getLast?_items, getLast?_of_endsWithHole hole] at hlast
  cases hlast
  exact Doc.all_empty

namespace Doc

@[simp] theorem isModeFree_fail (e : EmitError) : isModeFree (fail e) = true := rfl

@[simp] theorem isNoFailure_fail (e : EmitError) : isNoFailure (fail e) = false := rfl

theorem dotted_modeFree (property : Node .expr) :
    (Emit.dotted property).all isModeFree = true := by
  cases property with
  | ident name => simp [Emit.dotted_ident]
  | privateName name => simp [Emit.dotted_privateName]
  | _ => rfl

theorem template_modeFree (quasis : List Quasi) (items : List Item)
    (h : (items.all fun item => item.doc.all isModeFree) = true) :
    (Emit.template quasis items).all isModeFree = true := by
  simp [Emit.template, Emit.all_interleave_le quasis items h]

theorem needsBody_modeFree (owner : BodyOwner) (body : Node (.opt .block)) :
    (Emit.needsBody owner body).all isModeFree = true := by
  cases body <;> rfl

theorem rejectClass_modeFree (c : Node .klass) : (Emit.rejectClass c).all isModeFree = true := by
  cases c
  simp [Emit.rejectClass]

theorem checkBindings_modeFree (head : ForHead) (target : Node .forTarget) :
    (Emit.checkBindings head target).all isModeFree = true := by
  unfold Emit.checkBindings
  split <;> simp

end Doc

open Doc in
/-- **No atom of a node's document is a compact line break.** -/
theorem Node.emit_modeFree {c : Category} (n : Node c) : n.emit.all isModeFree = true := by
  -- induction over nodes and lists of nodes at once; every constructor's document is a phrase of
  -- the documents of its parts
  apply @Node.rec (fun _ n => n.emit.all isModeFree = true)
    (fun _ ns => (ns.items.all fun item => item.doc.all isModeFree) = true)
  all_goals intros
  all_goals try dsimp! only
  all_goals simp [dotted_modeFree, template_modeFree, needsBody_modeFree, rejectClass_modeFree,
    checkBindings_modeFree, Emit.all_elements, Emit.all_namedClass, Emit.rejectModifiers,
    Emit.rejectTraits, *]

/-! ### Imports and exports -/

/-- The names of an import specifier. -/
def ImportSpecifier.names : ImportSpecifier → List Ident
  | .named _ binding imported => imported.toList ++ [binding]
  | .default _ binding | .star _ binding => [binding]

/-- The names of an export specifier. -/
def ExportSpecifier.names : ExportSpecifier → List Ident
  | .star _ name => [name]
  | .default _ exported => [exported]
  | .named _ source exported => source :: exported.toList

namespace SpecifierGroups

open Doc

variable {test : Doc → Bool} [Lenient test]

/-- A test passes on all groups. -/
def all (test : Doc → Bool) (g : SpecifierGroups) : Bool :=
  (g.default.all fun name => (Emit.ident name).all test)
    && (g.star.all fun name => (Emit.ident name).all test)
    && g.named.all fun item => item.doc.all test

@[simp] theorem all_importItem (span : Span) (binding : Ident) (imported : Option Ident) :
    (importItem span binding imported).doc.all test =
      (ImportSpecifier.named span binding imported).names.all
        fun name => (Emit.ident name).all test := by
  cases imported <;> simp [importItem, ImportSpecifier.names]

@[simp] theorem all_exportItem (span : Span) (source : Ident) (exported : Option Ident) :
    (exportItem span source exported).doc.all test =
      (ExportSpecifier.named span source exported).names.all
        fun name => (Emit.ident name).all test := by
  cases exported <;> simp [exportItem, ExportSpecifier.names]

/-- Groups pass a test if the names that were put into them do. -/
theorem addImports_all {g' : SpecifierGroups} : ∀ (specifiers : List ImportSpecifier)
    (g : SpecifierGroups), addImports g specifiers = some g' → g.all test = true →
    (∀ s ∈ specifiers, (s.names.all fun name => (Emit.ident name).all test) = true) →
    g'.all test = true
  | [], g, h, hg, _ => by
    cases h
    exact hg
  | .default _ _ :: _, _, h, _, _ => by cases h
  | .star _ binding :: rest, g, h, hg, hs => by
    rw [List.forall_mem_cons] at hs
    refine addImports_all rest _ h ?_ hs.2
    simp only [all, Bool.and_eq_true_iff] at hg ⊢
    exact ⟨⟨hg.1.1, by simpa [ImportSpecifier.names] using hs.1⟩, hg.2⟩
  | .named span binding imported :: rest, g, h, hg, hs => by
    rw [List.forall_mem_cons] at hs
    refine addImports_all rest _ h ?_ hs.2
    simp only [all, Bool.and_eq_true_iff, List.all_append, List.all_cons, all_importItem] at hg ⊢
    exact ⟨hg.1, hg.2, hs.1, rfl⟩

theorem ofImports?_all {g : SpecifierGroups} {specifiers : List ImportSpecifier}
    (h : ofImports? specifiers = some g)
    (hs : ∀ s ∈ specifiers, (s.names.all fun name => (Emit.ident name).all test) = true) :
    g.all test = true := by
  unfold ofImports? at h
  split at h
  · rename_i binding rest
    rw [List.forall_mem_cons] at hs
    refine addImports_all rest _ h ?_ hs.2
    simpa [all, empty, ImportSpecifier.names] using hs.1
  · exact addImports_all specifiers _ h rfl hs

theorem addExports_all : ∀ (specifiers : List ExportSpecifier) (g : SpecifierGroups),
    g.all test = true →
    (∀ s ∈ specifiers, (s.names.all fun name => (Emit.ident name).all test) = true) →
    (addExports g specifiers).all test = true
  | [], _, hg, _ => hg
  | .default _ exported :: rest, g, hg, hs => by
    rw [List.forall_mem_cons] at hs
    refine addExports_all rest _ ?_ hs.2
    simp only [all, Bool.and_eq_true_iff] at hg ⊢
    exact ⟨⟨by simpa [ExportSpecifier.names] using hs.1, hg.1.2⟩, hg.2⟩
  | .star _ name :: rest, g, hg, hs => by
    rw [List.forall_mem_cons] at hs
    refine addExports_all rest _ ?_ hs.2
    simp only [all, Bool.and_eq_true_iff] at hg ⊢
    exact ⟨⟨hg.1.1, by simpa [ExportSpecifier.names] using hs.1⟩, hg.2⟩
  | .named span source exported :: rest, g, hg, hs => by
    rw [List.forall_mem_cons] at hs
    refine addExports_all rest _ ?_ hs.2
    simp only [all, Bool.and_eq_true_iff, List.all_append, List.all_cons, all_exportItem] at hg ⊢
    exact ⟨hg.1, hg.2, hs.1, rfl⟩

end SpecifierGroups

namespace Emit

open Doc

variable {test : Doc → Bool} [Lenient test]

@[simp] theorem all_groupGap (isAfterGroup : Bool) : (groupGap isAfterGroup).all test = true := by
  simp [groupGap]

@[simp] theorem all_defaultClause (name : Option Ident) :
    (defaultClause name).all test = name.all fun name => (ident name).all test := by
  cases name <;> simp [defaultClause]

@[simp] theorem all_starClause (isAfterGroup : Bool) (name : Option Ident) :
    (starClause isAfterGroup name).all test = name.all fun name => (ident name).all test := by
  cases name <;> simp [starClause]

@[simp] theorem all_namedClause (parent : Span) (isAfterGroup : Bool) (items : List Item) :
    (namedClause parent isAfterGroup items).all test =
      items.all fun item => item.doc.all test := by
  simp [namedClause]

@[simp] theorem all_fromClause (isAfterName : Bool) (source : StringLit) :
    (fromClause isAfterName source).all test = true := by
  simp [fromClause]

/-- The specifiers of an import are all there is to test, besides its order. -/
theorem all_importDecl (span : Span) (specifiers : List ImportSpecifier) (source : StringLit) :
    (importDecl span specifiers source).all test =
      match SpecifierGroups.ofImports? specifiers with
      | none => test (fail (.contract .lateDefaultImport))
      | some g => g.all test := by
  cases specifiers with
  | nil => simp [importDecl, SpecifierGroups.ofImports?, SpecifierGroups.addImports,
      SpecifierGroups.all, SpecifierGroups.empty]
  | cons s rest =>
    unfold importDecl
    cases hg : SpecifierGroups.ofImports? (s :: rest) with
    | none => simp
    | some g => cases hn : g.named <;> simp [SpecifierGroups.all, hn]

theorem all_exportNamed (span : Span) (specifiers : List ExportSpecifier)
    (source : Option StringLit) :
    (exportNamed span specifiers source).all test =
      (SpecifierGroups.ofExports specifiers).all test := by
  unfold exportNamed SpecifierGroups.all
  cases hn : (SpecifierGroups.ofExports specifiers).named <;> cases source <;> simp [hn]

@[simp] theorem all_defaultExpr (e : Node .expr) : (defaultExpr e).all test = e.emit.all test := by
  unfold defaultExpr
  split <;> simp

end Emit

theorem ident_modeFree (names : List Ident) :
    (names.all fun name => (Emit.ident name).all Doc.isModeFree) = true := by
  simp

open Doc in
theorem ModuleDecl.emit_modeFree (d : ModuleDecl) : d.emit.all isModeFree = true := by
  cases d with
  | importDecl span specifiers source =>
    have h : (Emit.importDecl span specifiers source).all isModeFree = true := by
      rw [Emit.all_importDecl]
      split
      · rfl
      · rename_i g hg
        exact SpecifierGroups.ofImports?_all hg fun s _ => ident_modeFree s.names
    simp [emit, h]
  | exportNamed span specifiers source =>
    have h : (Emit.exportNamed span specifiers source).all isModeFree = true := by
      rw [Emit.all_exportNamed]
      exact SpecifierGroups.addExports_all _ _ rfl fun s _ => ident_modeFree s.names
    simp [emit, h]
  | exportDefaultDecl span declaration =>
    cases declaration <;> simp [emit, Emit.defaultDecl, Node.emit_modeFree]
  | exportDecl _ _ | exportDefaultExpr _ _ | exportAll _ _ | typeModule _ _ =>
    simp [emit, Node.emit_modeFree]

/-- **No atom of a module item's document is a compact line break.** -/
theorem ModuleItem.emit_modeFree (item : ModuleItem) : item.emit.all Doc.isModeFree = true := by
  cases item with
  | decl d => exact d.emit_modeFree
  | stmt s => exact s.emit_modeFree

end EcmaPrinter
