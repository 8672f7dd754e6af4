/-
# Programs print alike after they come back

A program that prints is written as a text that is read again, and what is read has the
same compact text, unless a key in brackets is one that is read without them
(`reread_programs_print_alike`).

What prints has no types, so nothing of it is lost when it is written
(`Program.isKept_of_emit`). What is read is the settled program (`Program.settle`), in
which expressions that were wrapped stand by themselves. Both are printed alike: a wrapped
expression has a mark more, and marks are not written. So what is compared of two documents
is their outline without marks (`Doc.words`), on which their compact text depends.

Key definitions: `Doc.words`, `Node.computesKey`, `Program.keepsSpecifiers`.
Key theorems: `Doc.compactCode_congr`, `Node.words_settle`, `Program.isKept_of_emit`,
`reread_programs_print_alike`.
-/
import EcmaPrinter.Proofs.Emit.Concatenation
import EcmaPrinter.Proofs.Emit.Outline
import EcmaPrinter.Proofs.Tree.RoundTrip
import EcmaPrinter.Proofs.Tree.Settle

namespace EcmaPrinter

/-! ### Words -/

namespace Step

/-- Marks are not written. -/
def isWritten : Step → Bool
  | .mark _ => false
  | _ => true

/-- The text that compact text has for a step. -/
def compactChars : Step → List Char
  | .text s => s.toList
  | .compactLine => ['\n']
  | _ => []

end Step

namespace Doc

/-- The steps of a document that are seen in its compact text. -/
def words (d : Doc) : List Step := d.outline.filter Step.isWritten

theorem words_mark (span : Span) : (mark span).words = [] := rfl

theorem words_append (a b : Doc) : (a ++ b).words = a.words ++ b.words := by
  rw [words, outline_append, List.filter_append]
  rfl

theorem failure?_words (d : Doc) : d.failure? = Step.failure? d.words := by
  have hfilter : ∀ ss : List Step, Step.failure? (ss.filter Step.isWritten) = Step.failure? ss := by
    intro ss
    induction ss with
    | nil => rfl
    | cons s ss ih =>
      cases s with
      | fail e => rfl
      | _ => exact ih
  rw [words, hfilter, outline, Step.failure?_outline, failure?_eq_steps]

theorem chars_steps : ∀ d : Doc, d.failure? = none →
    d.chars false = d.steps.flatMap Step.compactChars
  | .empty, _ | .text _, _ | .softSpace, _ | .softLine, _ | .compactLine, _ | .mark _, _
  | .comments _, _ | .fail _, _ => by simp [chars, steps, Step.compactChars]
  | .nest body, h => by
    have ih := chars_steps body h
    simp [chars, steps, Step.compactChars, ih]
  | .append a b, h => by
    obtain ⟨ha, hb⟩ := Option.or_eq_none_iff.mp h
    simp [chars, steps, ha, chars_steps a ha, chars_steps b hb]

theorem chars_words {d : Doc} (h : d.failure? = none) :
    d.chars false = d.words.flatMap Step.compactChars := by
  rw [chars_steps d h, words, outline]
  induction d.steps with
  | nil => rfl
  | cons s ss ih =>
    rw [List.flatMap_cons, ih]
    cases s <;> rfl

/-- **Compact text depends on words only.** -/
theorem compactCode_congr {a b : Doc} (h : a.words = b.words) : a.compactCode = b.compactCode := by
  have hfailure : a.failure? = b.failure? := by rw [failure?_words, failure?_words, h]
  unfold compactCode
  rw [hfailure]
  cases hb : b.failure? with
  | some e => rfl
  | none => rw [chars_words (hfailure.trans hb), chars_words hb, h]

@[simp] theorem filter_listOutline (f : ListFormat) (inner : List (List Step)) :
    (listOutline f inner).filter Step.isWritten =
      listOutline f (inner.map (List.filter Step.isWritten)) := by
  unfold listOutline
  cases inner with
  | nil => cases f.isOptionalIfEmpty <;> rfl
  | cons first rest =>
    simp [intercalate_cons_eq, List.filter_cons, Step.isWritten, List.filter_flatMap,
      List.flatMap_map]

theorem words_list (parent : Span) (f : ListFormat) (items : List Item) :
    (list parent f items).words = listOutline f (items.map fun item => item.doc.words) := by
  rw [words, outline_list, filter_listOutline, outlines, List.map_map]
  rfl

end Doc

namespace Emit

open Doc

@[simp] theorem map_closeLast (isHole : Bool) : ∀ inner : List (List Step),
    (closeLast isHole inner).map (List.filter Step.isWritten) =
      closeLast isHole (inner.map (List.filter Step.isWritten))
  | [] => rfl
  | [last] => by cases isHole <;> rfl
  | first :: next :: rest =>
    congrArg (first.filter Step.isWritten :: ·) (map_closeLast isHole (next :: rest))

/-- The words of some items. -/
def wordsOf (items : List Item) : List (List Step) :=
  (outlines items).map (List.filter Step.isWritten)

theorem words_interleave : ∀ (quasis : List Quasi) {items items' : List Item},
    wordsOf items' = wordsOf items →
      (interleave quasis items').words = (interleave quasis items).words
  | [], _, _, _ => rfl
  | quasi :: quasis, [], [], _ => rfl
  | quasi :: quasis, e :: es, e' :: es', h => by
    obtain ⟨he, hes⟩ : e'.doc.words = e.doc.words ∧ wordsOf es' = wordsOf es := List.cons.inj h
    simp only [interleave, words_append, he, words_interleave quasis hes]

theorem words_template (quasis : List Quasi) {items items' : List Item}
    (h : wordsOf items' = wordsOf items) :
    (template quasis items').words = (template quasis items).words := by
  have hlength : items'.length = items.length := by
    simpa [wordsOf, outlines] using congrArg List.length h
  simp only [template, words_append, words_interleave quasis h, hlength]

/-! ### Phrases with settled nodes -/

@[simp] theorem dotted_settle (property : Expr) : dotted property.settle = dotted property := by
  cases property <;> rfl

@[simp] theorem isWholeNumeral_settle (e : Expr) : isWholeNumeral e.settle = isWholeNumeral e := by
  cases e <;> rfl

@[simp] theorem endsWithHole_settle {c : Category} (elements : Nodes (.opt c)) :
    endsWithHole elements.settle = endsWithHole elements := by
  unfold endsWithHole
  rw [Nodes.toList_settle, List.getLast?_map]
  cases elements.toList.getLast? with
  | none => rfl
  | some last => cases last <;> rfl

@[simp] theorem needsBody_settle (owner : BodyOwner) (body : Node (.opt .block)) :
    needsBody owner body.settle = needsBody owner body := by
  cases body <;> rfl

@[simp] theorem isAsync_settle (f : Node .function) : isAsync f.settle = isAsync f := by
  cases f
  rfl

@[simp] theorem isGenerator_settle (f : Node .function) : isGenerator f.settle = isGenerator f := by
  cases f
  rfl

@[simp] theorem functionNameGap_settle (f : Node .function) :
    functionNameGap f.settle = functionNameGap f := by
  simp [functionNameGap]

@[simp] theorem functionName_settle (f : Node .function) (name : Option Ident) :
    functionName f.settle name = functionName f name := by
  cases name <;> simp [functionName]

@[simp] theorem needsParens_settle (body : Node .arrowBody) :
    needsParens body.settle = needsParens body := by
  cases body with
  | blockBody b => rfl
  | exprBody e => exact bodyNeedsParens_settle e

@[simp] theorem rejectClass_settle (k : Node .klass) : rejectClass k.settle = rejectClass k := by
  cases k with
  | klass span decorators body superClass isAbstract typeParams superTypeParams implements =>
    simp! [rejectClass]

@[simp] theorem checkBindings_settle (head : ForHead) (target : Node .forTarget) :
    checkBindings head target.settle = checkBindings head target := by
  cases target with
  | varTarget v =>
    cases v with
    | varDecl span kind isDeclare declarators => simp! [checkBindings]
  | patternTarget p => rfl

@[simp] theorem bindingKeyword_settle (kind : BindingKind) (ds : Nodes .declarator) :
    bindingKeyword kind ds.settle = bindingKeyword kind ds := by
  cases ds with
  | nil => rfl
  | cons d ds =>
    cases d with
    | declarator span target init isDefinite => simp! [bindingKeyword]

end Emit

/-! ### Nodes -/

namespace Node

@[simp] theorem isPresent_settle {c : Category} (place : Node (.opt c)) :
    place.settle.isPresent = place.isPresent := by
  cases place <;> rfl

@[simp] theorem startsPlace_settle {c : Category} (place : Node (.opt c)) :
    place.settle.startsPlace = place.startsPlace := by
  cases place with
  | absent => rfl
  | present n => exact n.startsWord_settle

theorem words_asPattern (e : Expr) : e.asPattern.emit.words = e.emit.words := by
  obtain ⟨name, rfl, h⟩ | ⟨-, h⟩ := e.asPattern_cases <;> rw [h] <;> rfl

theorem words_asJsxExpr (e : Expr) : e.asJsxExpr.emit.words = e.emit.words := by
  obtain ⟨span, rfl, h⟩ | ⟨-, h⟩ := e.asJsxExpr_cases <;> rw [h] <;> rfl

theorem words_asAttrValue (e : Expr) : e.asAttrValue.emit.words = e.emit.words := by
  obtain ⟨_, rfl, h⟩ | ⟨_, rfl, h⟩ | ⟨-, h⟩ := e.asAttrValue_cases <;> rw [h] <;> rfl

/-- A key in brackets is not one that is written without them. -/
def computesKey : {c : Category} → Node c → Bool
  | _, .computedKey e => decide (e.exprKind ∉ Category.propertyName.kinds)
  | _, _ => true

/-- Such a key stays in its brackets. -/
theorem asKey_of_computesKey {e : Expr} (h : (computedKey e).computesKey = true) :
    e.asKey = .computedKey e := by
  obtain ⟨_, rfl, -⟩ | ⟨_, rfl, -⟩ | ⟨_, rfl, -⟩ | ⟨-, hkey⟩ := e.asKey_cases
  case inr.inr.inr => exact hkey
  all_goals cases h

open Doc Emit in
/-- **A settled node has the words of the node.** -/
theorem words_settle {c : Category} (n : Node c) :
    n.every computesKey = true → n.settle.emit.words = n.emit.words := by
  -- induction over nodes and lists of nodes at once; the outlines of phrases are made of the
  -- outlines of the parts and of what settling keeps, and marks are filtered out of both
  apply @Node.rec (fun _ n => n.every computesKey = true →
      n.settle.emit.outline.filter Step.isWritten = n.emit.outline.filter Step.isWritten)
    (fun _ ns => ns.every computesKey = true →
      (outlines ns.settle.items).map (List.filter Step.isWritten) =
        (outlines ns.items).map (List.filter Step.isWritten))
  case exprPattern => exact fun e ih h => (words_asPattern _).trans (ih h)
  case jsxSomeExpr => exact fun e ih h => (words_asJsxExpr _).trans (ih h)
  case jsxExprValue => exact fun e ih h => (words_asAttrValue _).trans (ih h)
  case computedKey =>
    intro e ih h
    obtain ⟨hkey, hpart⟩ := Bool.and_eq_true_iff.mp h
    have hsettled : (computedKey e.settle).computesKey = true := by
      change decide (e.settle.exprKind ∉ Category.propertyName.kinds) = true
      rwa [exprKind_settle]
    have hkeeps : (computedKey e).settle = .computedKey e.settle := asKey_of_computesKey hsettled
    rw [hkeeps]
    simp! [List.filter_cons, Step.isWritten, ih hpart]
  all_goals intros
  all_goals rename_i h
  all_goals dsimp! only at h ⊢
  all_goals try simp only [Bool.and_eq_true] at h
  case template quasis ih =>
    have hinner : (Emit.template _ _).words = _ := words_template quasis (ih h)
    rw [words] at hinner
    simp only [outline_append, List.filter_append, hinner, words]
  case taggedTemplate quasis _ ihtag ih =>
    have hinner : (Emit.template _ _).words = _ := words_template quasis (ih h.2)
    simp only [words] at hinner
    simp only [outline_append, List.filter_append, hinner, ihtag h.1]
  case update isPrefix _ ih =>
    cases isPrefix <;> simp [List.filter_cons, Step.isWritten, ih h]
  case classProperty traits ihkey ihvalue _ =>
    cases htraits : traits.isComputed <;>
      simp [List.filter_cons, apply_ite (List.filter Step.isWritten), Step.isWritten,
        rejectTraits, *]
  all_goals
    simp [List.filter_cons, apply_ite (List.filter Step.isWritten), Step.isWritten,
      functionKeyword, methodWords, methodLead, rejectTraits, *]

end Node

/-! ### What prints is kept -/

/-- A place for a place. -/
def Category.isNested : Category → Bool
  | .opt c => c.isPlace
  | _ => false

namespace Node

/-- What is in a place is not an empty place. -/
def isFilled : {c : Category} → Node c → Bool
  | _, .present n => !n.isAbsent
  | _, _ => true

/-- No constructor has a place for a place. -/
theorem every_isFilled {c : Category} (n : Node c) :
    c.isNested = false → n.every isFilled = true := by
  apply @Node.rec (fun c n => c.isNested = false → n.every isFilled = true)
    (fun c ns => c.isNested = false → ns.every isFilled = true)
  case present =>
    intro c n ih hc
    have hplace : c.isPlace = false := hc
    have hnested : c.isNested = false := by
      cases c with
      | opt c => cases hplace
      | _ => rfl
    exact Bool.and_eq_true_iff.mpr ⟨by simp [isFilled, n.isAbsent_eq_false hplace], ih hnested⟩
  all_goals intros
  all_goals simp! (disch := first | assumption | decide) [*]

/-- The numbers of a node are finite. -/
def hasFiniteNumber : {c : Category} → Node c → Bool
  | _, .num literal | _, .numKey literal => literal.value.isFinite
  | _, _ => true

/-- What is supported has no type, so there is no payload that could be lost. -/
theorem isKept_of_isSupported {c : Category} {n : Node c} (hsupported : n.isSupported = true)
    (hnumber : n.hasFiniteNumber = true) (hfilled : n.isFilled = true) : n.isKept = true := by
  cases n
  case functionExpr name _ | classExpr name _ | breakStmt _ name | continueStmt _ name =>
    cases name <;> simp_all! [isSupported, Ident.isUntyped, Ident.isKept]
  all_goals
    simp_all! [isSupported, Ident.isUntyped, Ident.isKept, PrivateName.isKept, NumberLit.isKept]

theorem every_isKept {c : Category} (n : Node c) (hc : c.isNested = false)
    (hsupported : n.every isSupported = true) (hnumbers : n.every hasFiniteNumber = true) :
    n.every isKept = true := by
  have hboth := n.every_and hsupported (n.every_and hnumbers (n.every_isFilled hc))
  refine n.every_mono (fun m hm => ?_) hboth
  simp only [Bool.and_eq_true] at hm
  exact isKept_of_isSupported hm.1 hm.2.1 hm.2.2

end Node

/-- The types of the names in a specifier are such as reading gives. A name can be dropped
for a later one of its group, and then it may have a type although the program prints. -/
def ModuleDecl.keepsSpecifiers : ModuleDecl → Bool
  | .importDecl _ specifiers _ => specifiers.all ImportSpecifier.isKept
  | .exportNamed _ specifiers _ => specifiers.all ExportSpecifier.isKept
  | _ => true

def ModuleItem.keepsSpecifiers : ModuleItem → Bool
  | .decl d => d.keepsSpecifiers
  | .stmt _ => true

def Program.keepsSpecifiers (program : Program) : Bool :=
  program.items.all ModuleItem.keepsSpecifiers

open Doc in
theorem ModuleDecl.isKept_of_emit {d : ModuleDecl} (hprints : d.emit.all isNoFailure = true)
    (hnumbers : d.every Node.hasFiniteNumber = true) (hspecifiers : d.keepsSpecifiers = true) :
    d.isKept = true := by
  cases d with
  | importDecl | exportNamed => exact hspecifiers
  | exportAll => rfl
  | exportDecl _ declaration =>
    rw [emit_ok _ rfl] at hprints
    exact declaration.every_isKept rfl hprints hnumbers
  | exportDefaultExpr _ expression =>
    rw [emit_ok _ rfl] at hprints
    exact expression.every_isKept rfl hprints hnumbers
  | exportDefaultDecl _ declaration =>
    rw [emit_ok _ rfl] at hprints
    cases declaration with
    | klass k => exact k.every_isKept rfl hprints hnumbers
    | function f => exact f.every_isKept rfl hprints hnumbers
    | interface _ => cases hprints
  | typeModule _ _ =>
    rw [emit_ok _ rfl] at hprints
    cases hprints

open Doc in
theorem ModuleItem.isKept_of_emit {item : ModuleItem} (hprints : item.emit.all isNoFailure = true)
    (hnumbers : item.every Node.hasFiniteNumber = true)
    (hspecifiers : item.keepsSpecifiers = true) : item.isKept = true := by
  cases item with
  | decl d => exact ModuleDecl.isKept_of_emit hprints hnumbers hspecifiers
  | stmt s =>
    have hsupported : s.every Node.isSupported = true := (s.emit_every rfl).symm.trans hprints
    exact s.every_isKept rfl hsupported hnumbers

namespace Program

theorem every_eq_items (test : {c : Category} → Node c → Bool) (program : Program) :
    program.every test = program.items.all fun item => item.every test := by
  cases program with
  | module => rfl
  | script _ body _ => rw [items, List.all_map]; rfl

theorem isKept_eq_items (program : Program) :
    program.isKept = program.items.all ModuleItem.isKept := by
  cases program with
  | module => rfl
  | script _ body _ => rw [items, List.all_map]; rfl

/-- **A program that prints is kept.** -/
theorem isKept_of_emit {program : Program} (hprints : program.emit.failure? = none)
    (hnumbers : program.every Node.hasFiniteNumber = true)
    (hspecifiers : program.keepsSpecifiers = true) : program.isKept = true := by
  rw [Doc.failure?_eq_none, emit_eq, Doc.all_append, Bool.and_eq_true, Doc.all_list, List.all_map,
    List.all_eq_true] at hprints
  rw [every_eq_items, List.all_eq_true] at hnumbers
  rw [keepsSpecifiers, List.all_eq_true] at hspecifiers
  rw [isKept_eq_items, List.all_eq_true]
  intro item hitem
  exact ModuleItem.isKept_of_emit (hprints.2 item hitem) (hnumbers item hitem)
    (hspecifiers item hitem)

end Program

/-! ### Programs print alike -/

open Doc Emit in
theorem ModuleDecl.words_settle {d : ModuleDecl} (h : d.every Node.computesKey = true) :
    d.settle.emit.words = d.emit.words := by
  cases d with
  | exportDecl _ declaration =>
    simp only [settle, emit, words_mark, words_append, declaration.words_settle h]
  | exportDefaultExpr _ expression =>
    have hinner := expression.words_settle h
    have hexpr : (defaultExpr expression.settle).words = (defaultExpr expression).words := by
      unfold defaultExpr
      rw [stmtNeedsParens_settle]
      split <;> simp only [keywordBefore, between, words_append, Node.startsWord_settle, hinner]
    simp only [settle, emit, words_mark, words_append, hexpr]
  | exportDefaultDecl _ declaration =>
    have hinner : (defaultDecl declaration.settle).words = (defaultDecl declaration).words := by
      cases declaration with
      | klass k => exact k.words_settle h
      | function f => exact f.words_settle h
      | interface _ => rfl
    simp only [settle, emit, words_mark, words_append, hinner]
  | importDecl | exportNamed | exportAll | typeModule => rfl

theorem ModuleItem.words_settle {item : ModuleItem} (h : item.every Node.computesKey = true) :
    item.settle.emit.words = item.emit.words := by
  cases item with
  | decl d => exact ModuleDecl.words_settle h
  | stmt s => exact s.words_settle h

namespace Program

theorem items_settle (program : Program) :
    program.settle.items = program.items.map ModuleItem.settle := by
  cases program with
  | module => rfl
  | script span body interpreter =>
    simp only [settle, items, List.map_map]
    rfl

/-- **A settled program has the words of the program.** -/
theorem words_settle {program : Program} (h : program.every Node.computesKey = true) :
    program.settle.emit.words = program.emit.words := by
  rw [every_eq_items, List.all_eq_true] at h
  have hinterpreter : program.settle.interpreter = program.interpreter := by
    cases program <;> rfl
  have hitems : program.items.map (fun item => item.settle.emit.words) =
      program.items.map (fun item => item.emit.words) :=
    List.map_congr_left fun item hitem => ModuleItem.words_settle (h item hitem)
  simp only [emit_eq, Doc.words_append, Doc.words_list, hinterpreter, items_settle, List.map_map,
    Function.comp_def, hitems]

end Program

theorem parseProgram_of_parse? {text : String} {json : Json} {program : Program}
    (hparse : Json.parse? text = some json) (hread : Program.ofJson? json = some program) :
    parseProgram text = .ok program := by
  rw [parseProgram, hparse, Json.some_bind, hread]

/-- **A program that prints is read back from its text and prints alike.** It is read back
if its text is not nested too deep and its doubles are read back. The program that is read
has the same compact text, unless there is a key in brackets that is written without
brackets when it is read: a name, a string or a number. -/
theorem reread_programs_print_alike (program : Program) (width : UInt32) (records : Bool)
    {output : PrintOutput} (hprint : print program ⟨false, width, records⟩ = .ok output)
    (hnumbers : program.every Node.hasFiniteNumber = true)
    (hspecifiers : program.keepsSpecifiers = true) (hdepth : program.toJson.depth ≤ Json.maxDepth)
    (hdoubles : program.toJson.everyScalar Json.isReread = true) :
    ∃ program', parseProgram program.toJson.text = .ok program' ∧
      (program.every Node.computesKey = true →
        (print program' ⟨false, width, records⟩).map PrintOutput.code = .ok output.code) := by
  have hcode (p : Program) :
      (print p ⟨false, width, records⟩).map PrintOutput.code = p.emit.compactCode :=
    p.emit.complete_compact width records none
  have hcompact : program.emit.compactCode = .ok output.code := by
    rw [← hcode, hprint]
    rfl
  have hprints : program.emit.failure? = none := by
    unfold Doc.compactCode at hcompact
    split at hcompact
    · assumption
    · cases hcompact
  obtain ⟨hsound, hread⟩ :=
    Program.ofJson?_toJson (Program.isKept_of_emit hprints hnumbers hspecifiers)
  refine ⟨program.settle, ?_, fun hkeys => ?_⟩
  · exact parseProgram_of_parse? (Json.parse?_text hsound hdoubles hdepth) hread
  · rw [hcode, Doc.compactCode_congr (Program.words_settle hkeys), hcompact]

/-- A script of one expression. -/
def exprScript (e : Expr) : Program := .script Span.dummy [.exprStmt e] none

/-- The script `a=b;` whose target is wrapped. It is read with a target of its own. -/
def wrappedTarget : Program :=
  exprScript (.assign Span.dummy .set (.exprPattern (.ident (.ofName "a"))) (.ident (.ofName "b")))

theorem wrappedTarget_prints_alike :
    ∃ program', parseProgram wrappedTarget.toJson.text = .ok program' ∧
      (print program' ⟨false, 4, false⟩).map PrintOutput.code = .ok "a=b;" := by
  have hprint : print wrappedTarget ⟨false, 4, false⟩ = .ok ⟨"a=b;", #[]⟩ := by rfl
  have hdepth : wrappedTarget.toJson.depth ≤ Json.maxDepth := by decide
  have hdoubles : wrappedTarget.toJson.everyScalar Json.isReread = true := by decide
  obtain ⟨program', hparse, hcode⟩ :=
    reread_programs_print_alike wrappedTarget 4 false hprint rfl rfl hdepth hdoubles
  exact ⟨program', hparse, hcode rfl⟩

/-- The script `({[a]:b});`, with a name in brackets. -/
def nameInBrackets : Program :=
  exprScript (.object Span.dummy (.cons (.propertyMember (.keyValue
    (.computedKey (.ident (.ofName "a"))) (.ident (.ofName "b")))) .nil))

/-- A script of one number: `9007199254740991;` or, if it is even, `9007199254740990;`. -/
def largeNumber (isEven : Bool) : Program :=
  exprScript (.num (.ofValue ⟨if isEven then 0x433FFFFFFFFFFFFE else 0x433FFFFFFFFFFFFF⟩))

/-- The import `import*as b from'm';` with a namespace in front that is dropped. It has a
type with a second position. -/
def droppedType : Program :=
  .module Span.dummy [.decl (.importDecl Span.dummy
    [.star Span.dummy ⟨Span.dummy, "a", false, some ⟨Span.dummy, [("span", .null)]⟩⟩,
      .star Span.dummy (.ofName "b")] (.ofValue "m"))] none

namespace Program

/-- A program that can be written, with its compact text. -/
def IsWritable (program : Program) (code : String) : Prop :=
  (print program ⟨false, 4, false⟩).toOption.map PrintOutput.code = some code ∧
    program.every Node.hasFiniteNumber = true ∧ program.toJson.depth ≤ Json.maxDepth

/-- The compact text of what is read from the text of a program. -/
def reprinted (program : Program) : Option String :=
  (printJson program.toJson.text ⟨false, 4, false⟩).toOption.map PrintOutput.code

theorem reprinted_eq {program program' : Program} {json : Json}
    (hparse : Json.parse? program.toJson.text = some json) (hread : ofJson? json = some program') :
    program.reprinted = (print program' ⟨false, 4, false⟩).toOption.map PrintOutput.code := by
  rw [reprinted, printJson, parseProgram_of_parse? hparse hread]
  rfl

end Program

/-- Keys in brackets, numbers and types of dropped names each keep a program from being
printed alike. -/
theorem not_every_program_prints_alike :
    (nameInBrackets.IsWritable "({[a]:b});" ∧ nameInBrackets.reprinted = some "({a:b});") ∧
    ((largeNumber false).IsWritable "9007199254740991;" ∧
      (largeNumber false).reprinted = some "9007199254740990;") ∧
    (droppedType.IsWritable "import*as b from'm';" ∧ droppedType.reprinted = none) := by
  have hwritable : nameInBrackets.IsWritable "({[a]:b});" :=
    ⟨by decide, rfl, by decide⟩
  have hnumber : (largeNumber false).IsWritable "9007199254740991;" :=
    ⟨by decide, by decide, by decide⟩
  have hdropped : droppedType.IsWritable "import*as b from'm';" :=
    ⟨by decide, rfl, by decide⟩
  refine ⟨⟨hwritable, ?_⟩, ⟨hnumber, ?_⟩, ⟨hdropped, ?_⟩⟩
  · have hkept : nameInBrackets.isKept = true := by rfl
    obtain ⟨hsound, hread⟩ := Program.ofJson?_toJson hkept
    rw [Program.reprinted_eq (Json.parse?_text hsound (by decide) hwritable.2.2) hread]
    decide
  · have hkept : (largeNumber true).isKept = true := by rfl
    have hparse : Json.parse? (largeNumber false).toJson.text = some (largeNumber true).toJson := by
      rw [Json.parse?, Json.toList_text]
      decide +kernel
    rw [Program.reprinted_eq hparse (Program.ofJson?_toJson hkept).2]
    decide
  · have hparse : Json.parse? droppedType.toJson.text = some droppedType.toJson :=
      Json.parse?_text (by decide) (by decide) hdropped.2.2
    have hread : Program.ofJson? droppedType.toJson = none := by rfl
    rw [Program.reprinted, printJson, parseProgram, hparse, Json.some_bind, hread]
    rfl

end EcmaPrinter
