/-
# Expressions that could be read as something else

An expression that starts with `{` is read as a block where a statement or the body of an
arrow function is expected, and one that starts with `function`, `class` or
`async function` as a declaration where a statement or a default export is. Such
expressions are put in parentheses, by a look at the leftmost expression inside them.

The text of an expression starts with the text of its leftmost expression
(`Node.extends_leftmost`). So it remains to go through what the expressions without a
first part write first: literals of objects, functions and classes are seen, and
everything else starts with a symbol, with a word that does not open a declaration, or
with nothing at all (`Node.grants_unopened`).

Names are made of the characters of words and are neither `function` nor `class`
(`Node.isNamed`); `async` may be a name.

Key definitions: `Node.isNamed`, `arrowHead`.
Key theorems: `startsToken_word`, `Node.leads_startsBlock`,
`Node.leads_startsDeclaration`, `expressions_never_misread`.
-/
import EcmaPrinter.Proofs.Emit.FirstText
import EcmaPrinter.Proofs.Emit.FirstTokens

namespace EcmaPrinter

open Lexical (isWordPart)
open Doc Step

variable {isPart : Char → Bool}

/-! ### Words -/

/-- In front of a text that does not go on with a word, a word is read as itself. -/
theorem startsToken_word : ∀ {word name : List Char} {rest : List Char}, word.all isPart = true →
    name.all isPart = true → rest.head?.any isPart = false →
    startsToken isPart word (name ++ rest) = (name == word)
  | [], [], rest, _, _, hrest => by simp [startsToken, hrest]
  | [], c :: name, rest, _, hname, _ => by
    rw [List.all_cons, Bool.and_eq_true] at hname
    simp [startsToken, hname.1]
  | w :: word, [], [], _, _, _ => by simp [startsToken]
  | w :: word, [], r :: rest, hword, _, hrest => by
    rw [List.all_cons, Bool.and_eq_true] at hword
    have hne : w ≠ r := by
      rintro rfl
      simp [hword.1] at hrest
    simp [startsToken_cons_of_ne hne]
  | w :: word, c :: name, rest, hword, hname, hrest => by
    rw [List.all_cons, Bool.and_eq_true] at hword hname
    by_cases hne : w = c
    · subst hne
      have ih := startsToken_word hword.2 hname.2 hrest
      simpa [startsToken] using ih
    · rw [List.cons_append, startsToken_cons_of_ne hne]
      simp [Ne.symm hne]

theorem IsPartOfWord.all (hpart : IsPartOfWord isPart) {word : List Char}
    (h : word.all (fun c => isWordPart c && c.toNat < 128) = true) : word.all isPart = true := by
  rw [List.all_eq_true] at h ⊢
  intro c hc
  have hword := h c hc
  rw [Bool.and_eq_true, decide_eq_true_eq] at hword
  rw [hpart c hword.2, hword.1]

/-- A word that may stand at the start of an expression. -/
def isFreeWord (isPart : Char → Bool) (s : String) : Bool :=
  s.toList.all isPart && s != "function" && s != "class"

/-- The word behind which a function is a declaration may stand on its own. -/
theorem Unopened.word (hpart : IsPartOfWord isPart) {s : String} (h : isFreeWord isPart s = true)
    {rest : List Char} (hrest : Behind isPart rest) : Unopened isPart (s.toList ++ rest) := by
  simp only [isFreeWord, Bool.and_eq_true, bne_iff_ne] at h
  obtain ⟨⟨hall, hfunction⟩, hclass⟩ := h
  cases hs : s.toList with
  | nil => exact hrest.toUnopened
  | cons c cs =>
    have hc : isPart c = true := by
      rw [hs, List.all_cons, Bool.and_eq_true] at hall
      exact hall.1
    have hlayout : isLayout c = false := by
      rw [Bool.eq_false_iff]
      intro hlayout
      simp [hpart.not_isLayout hlayout] at hc
    have hvisible : visible (s.toList ++ rest) = s.toList ++ rest := by
      rw [hs]
      exact visible_cons hlayout _
    have hword {w : String} (hw : w.toList.all isPart = true) :
        startsToken isPart w.toList (s.toList ++ rest) = (s == w) := by
      rw [startsToken_word hw hall hrest.word]
      simp [String.toList_inj]
    refine ⟨?_, ?_⟩
    · rw [List.cons_append, startsBlock_cons hlayout, beq_eq_false_iff_ne]
      rintro rfl
      rw [hpart _ (by decide)] at hc
      exact absurd hc (by decide)
    · rw [← hs, startsDeclaration, hvisible, hword (hpart.all (by decide)),
        hword (hpart.all (by decide)), hword (hpart.all (by decide))]
      by_cases hasync : s = "async"
      · subst hasync
        have hbehind := hrest.declaration
        simp only [startsDeclaration, Bool.or_eq_false_iff] at hbehind
        have hdrop : ("async".toList ++ rest).drop "async".length = rest := rfl
        rw [hdrop, hbehind.1.1]
        rfl
      · simp [hfunction, hclass, hasync]

/-! ### Expressions without a first part -/

namespace Node

/-- Names are words that open no declaration, and nothing is assigned to a pattern with a
default. -/
def isNamed (isPart : Char → Bool) : {c : Category} → Node c → Bool
  | _, .ident name | _, .identPattern name | _, .metaProperty _ name _ =>
    isFreeWord isPart name.name
  | _, .assign _ _ (.defaultPattern _ _ _ _) _ => false
  | _, _ => true

/-- An object literal, or an assignment to an object pattern. -/
def isBraced : Expr → Bool
  | .object _ _ => true
  | .assign _ _ (.objectPattern _ _ _) _ => true
  | _ => false

/-- A function or class. -/
def isDeclared : Expr → Bool
  | .functionLit _ | .classLit _ => true
  | _ => false

end Node

namespace Node

/-- **What an expression without a first part writes first opens neither a block nor a
declaration**, unless it is seen to. -/
theorem grants_unopened (hpart : IsPartOfWord isPart) {e : Expr} (hleft : e.left? = none)
    (hnamed : e.every (isNamed isPart) = true) (hbraced : e.isBraced = false)
    (hdeclared : e.isDeclared = false) :
    e.opening.Grants (Unopened isPart) (Behind isPart) := by
  have word {s : String} (hs : s.toList.all isPart = true)
      (hfree : (s != "function" && s != "class") = true) :
      (Opening.word s).Grants (Unopened isPart) (Behind isPart) := fun rest hrest =>
    .word hpart (by rw [isFreeWord, Bool.and_assoc, hs, hfree]; rfl) hrest
  have token {s : String} (h : s.toList.head?.any isUnopened = true) :
      (Opening.text s).Grants (Unopened isPart) (Behind isPart) := .text h
  cases e with
  | ident name => exact fun _ hrest => .word hpart hnamed hrest
  | metaProperty span target property => exact fun _ hrest => .word hpart hnamed hrest
  | bool span value => cases value <;> exact word (hpart.all (by decide)) (by decide)
  | str literal => exact token (Lexical.head_quoted (by decide) _)
  | num literal => exact token (head_numeral (by decide) _)
  | arrow span params body isAsync isGenerator typeParameters returnType =>
    cases isAsync with
    | true => exact word (s := "async") (hpart.all (by decide)) (by decide)
    | false => exact token (by decide)
  | unary span op operand => exact token (by cases op <;> decide)
  | update span op isPrefix operand =>
    cases isPrefix with
    | true => exact token (by cases op <;> decide)
    | false => cases hleft
  | assign span op target value =>
    obtain ⟨hassign, htarget, -⟩ := every_assign.mp hnamed
    cases target with
    | identPattern name => exact fun _ hrest => .word hpart htarget hrest
    | arrayPattern | restPattern => exact token (by decide)
    | objectPattern => cases hbraced
    | defaultPattern => cases hassign
    | exprPattern => cases hleft
  -- the first letter is the one of async, the second one is not
  | await span argument => exact fun _ => ⟨rfl, rfl⟩
  | sequence span expressions =>
    cases expressions with
    | nil => exact fun _ hrest => hrest.toUnopened
    | cons first rest => cases hleft
  | object => cases hbraced
  | functionLit | classLit => cases hdeclared
  | binary | member | conditional | call | taggedTemplate => cases hleft
  | jsxEmpty | jsxMemberExpr | jsxNamespaced | jsxElementExpr | jsxFragmentExpr | jsxTextExpr
  | typed => exact fun _ hrest => hrest.toUnopened
  | this | superRef | null | regex | template | array | paren | privateName | new | newBare
  | yield => exact token (by decide)

/-- A literal with braces opens no declaration. -/
theorem grants_of_isBraced {e : Expr} (h : e.isBraced = true) :
    e.opening.Grants (fun t => startsDeclaration isPart t = false) (Behind isPart) := by
  cases e with
  | object span members => exact fun _ => rfl
  | assign span op target value =>
    cases target with
    | objectPattern targetSpan members typing => exact fun _ => rfl
    | _ => cases h
  | _ => cases h

/-- A function or class does not open a block. -/
theorem grants_of_isDeclared {e : Expr} (h : e.isDeclared = true) :
    e.opening.Grants (fun t => startsBlock t = false) (Behind isPart) := by
  cases e with
  | functionLit f =>
    cases f with
    | functionExpr name f =>
      dsimp! only
      cases Emit.isAsync f <;> exact fun _ => rfl
  | classLit k => exact fun _ => rfl
  | _ => cases h

section

variable (hpart : IsPartOfWord isPart) {e : Expr} (hprints : e.emit.failure? = none)
  (hnamed : e.every (isNamed isPart) = true)
include hpart hprints hnamed

/-- **An expression that is not seen to start with a brace does not open a block.** -/
theorem leads_startsBlock (h : startsWithBrace e = false) :
    Leads (fun t => startsBlock t = false) (Behind isPart) e.emit.steps := by
  refine (extends_leftmost hpart e hprints).leads skipsLayout_startsBlock ?_
  refine (opens hpart e.leftmost).leads skipsLayout_startsBlock ?_
  cases hdeclared : e.leftmost.isDeclared with
  | true => exact grants_of_isDeclared hdeclared
  | false =>
    exact (grants_unopened hpart (left?_leftmost e) (every_leftmost e hnamed) h hdeclared).mono
      fun _ hopened => hopened.block

/-- **An expression that is not seen to start with a function or class opens no
declaration.** -/
theorem leads_startsDeclaration (h : startsWithDeclaration e = false) :
    Leads (fun t => startsDeclaration isPart t = false) (Behind isPart) e.emit.steps := by
  refine (extends_leftmost hpart e hprints).leads skipsLayout_startsDeclaration ?_
  refine (opens hpart e.leftmost).leads skipsLayout_startsDeclaration ?_
  cases hbraced : e.leftmost.isBraced with
  | true => exact grants_of_isBraced hbraced
  | false =>
    exact (grants_unopened hpart (left?_leftmost e) (every_leftmost e hnamed) hbraced h).mono
      fun _ hopened => hopened.declaration

end

end Node

/-! ### The places of such expressions -/

/-- An expression in parentheses where a condition asks for them, and whose text is
harmless where it does not. -/
theorem Emit.leads_parensIf {P : List Char → Prop} {Q : List Char → Prop} {b : Bool} {d : Doc}
    (hP : SkipsLayout P) (hparen : ∀ t, P ('(' :: t)) (h : b = false → Leads P Q d.steps) :
    Leads P Q (Emit.parensIf b d).steps := by
  cases b with
  | true =>
    rw [Emit.parensIf, if_pos rfl, between]
    exact (Leads.text (s := "(") hP fun rest _ => hparen rest).before.before
  | false => exact h rfl

/-- An arrow function up to its parameters. -/
def arrowHead (span : Span) (params : Nodes .pattern) (isAsync : Bool)
    (typeParameters : Option Opaque) (returnType : Option Opaque) : Doc :=
  .mark span ++ reject typeParameters.isSome .tsTypeParameterDeclaration
    ++ reject returnType.isSome .tsTyping ++ when isAsync ("async" ++ .softSpace)
    ++ list span ListFormat.parameters params.items

theorem arrow_emit (span : Span) (params : Nodes .pattern) (body : Node .arrowBody)
    (isAsync isGenerator : Bool) (typeParameters returnType : Option Opaque) :
    (Node.arrow span params body isAsync isGenerator typeParameters returnType).emit =
      arrowHead span params isAsync typeParameters returnType
        ++ Emit.assignedValue "=>" (Emit.arrowBody body body.emit) := rfl

theorem Emit.failure?_parensIf (b : Bool) (d : Doc) :
    (Emit.parensIf b d).failure? = d.failure? := by
  cases b with
  | true => simp [Emit.parensIf, between]
  | false => rfl

/-- What the text of a run starts with, if it adds it without comments. -/
theorem Doc.run_leads {P : List Char → Prop} {d : Doc} {p : Printer} (hd : d.failure? = none)
    (hp : p.comments = none) (h : Leads P (Behind isPart) d.steps) :
    ∃ t, (d.run p).1.output.toList = p.output.toList ++ t ∧ P t := by
  obtain ⟨t, htext, hlaid⟩ := Doc.run_laid hd hp
  have hP := h t [] hlaid .nil
  rw [List.append_nil] at hP
  exact ⟨t, htext, hP⟩

section

variable (hpart : IsPartOfWord isPart) {e : Expr} (hprints : e.emit.failure? = none)
  (hnamed : e.every (Node.isNamed isPart) = true)
include hpart hprints hnamed

/-- **A statement made of an expression opens neither a block nor a declaration.** -/
theorem Node.leads_exprStmt :
    Leads (Unopened isPart) (Behind isPart) (Node.exprStmt e).emit.steps := by
  have hsemicolon {P : List Char → Prop} {d : Doc} (h : Leads P (Behind isPart) d.steps) :
      Leads P (Behind isPart) (d ++ Doc.text ";").steps :=
    h.append (Leads.symbol hpart (by decide))
  have hblock : Leads (fun t => startsBlock t = false) (Behind isPart)
      (Emit.parensIf (stmtNeedsParens e) e.emit).steps := by
    refine Emit.leads_parensIf skipsLayout_startsBlock (fun t => rfl) fun h => ?_
    exact leads_startsBlock hpart hprints hnamed (Bool.or_eq_false_iff.mp h).1
  have hdeclaration : Leads (fun t => startsDeclaration isPart t = false) (Behind isPart)
      (Emit.parensIf (stmtNeedsParens e) e.emit).steps := by
    refine Emit.leads_parensIf skipsLayout_startsDeclaration (fun t => rfl) fun h => ?_
    exact leads_startsDeclaration hpart hprints hnamed (Bool.or_eq_false_iff.mp h).2
  intro t rest hlaid hrest
  exact ⟨hsemicolon (hblock.after skipsLayout_startsBlock rfl) t rest hlaid hrest,
    hsemicolon (hdeclaration.after skipsLayout_startsDeclaration rfl) t rest hlaid hrest⟩

/-- The text behind `default` is no declaration. -/
theorem Emit.leads_defaultValue :
    Leads (fun t => startsDeclaration isPart t = false) (Behind isPart)
      ((if stmtNeedsParens e then .softSpace else spaceIf e.startsWord)
        ++ parensIf (stmtNeedsParens e) e.emit ++ ";").steps := by
  have hskip : SkipsLayout fun t => startsDeclaration isPart t = false :=
    skipsLayout_startsDeclaration
  have hvalue : Leads (fun t => startsDeclaration isPart t = false) (Behind isPart)
      (parensIf (stmtNeedsParens e) e.emit).steps := by
    refine leads_parensIf hskip (fun t => rfl) fun h => ?_
    exact Node.leads_startsDeclaration hpart hprints hnamed (Bool.or_eq_false_iff.mp h).2
  have hgap : Leads (fun t => startsDeclaration isPart t = false)
      (fun t => startsDeclaration isPart t = false)
      (if stmtNeedsParens e then .softSpace else spaceIf e.startsWord).steps := by
    cases stmtNeedsParens e with
    | true => exact Leads.silent hskip rfl
    | false =>
      cases e.startsWord with
      | true => exact Leads.text (s := " ") hskip fun rest h => hskip ' ' rest rfl h
      | false => exact Leads.silent hskip rfl
  exact (hgap.append hvalue).append (Leads.symbol hpart (by decide))

/-- The text behind the arrow is no block. -/
theorem Emit.leads_body :
    Leads (fun t => startsBlock t = false) (Behind isPart)
      (.softSpace ++ parensIf (bodyNeedsParens e) e.emit).steps := by
  refine Leads.after ?_ skipsLayout_startsBlock rfl
  refine leads_parensIf skipsLayout_startsBlock (fun t => rfl) fun h => ?_
  exact Node.leads_startsBlock hpart hprints hnamed (Bool.or_eq_false_iff.mp h).1

end

theorem Emit.defaultExpr_eq (e : Expr) :
    defaultExpr e = "default" ++ (if stmtNeedsParens e then .softSpace else spaceIf e.startsWord)
      ++ parensIf (stmtNeedsParens e) e.emit := by
  unfold defaultExpr
  cases stmtNeedsParens e <;> rfl

/-- What `parensIf` writes where it writes parentheses. -/
theorem Emit.laid_parens {d : Doc} {t : List Char} (h : Laid (parensIf true d).steps t) :
    ∃ before inner after, t = before ++ '(' :: inner ++ after ++ [')'] ∧
      before.all isLayout = true ∧ after.all isLayout = true ∧ Laid d.steps inner := by
  rw [parensIf, if_pos rfl, between, steps_append, steps_append, laid_append] at h
  obtain ⟨u, v, hu, hv, rfl⟩ := h
  obtain ⟨w, inner, hw, hinner, rfl⟩ := laid_append.mp hu
  obtain ⟨before, hbefore, rfl⟩ := laid_singleton.mp hw
  obtain ⟨after, hafter, rfl⟩ := laid_singleton.mp hv
  exact ⟨before, inner, after, by simp [Step.chars], hbefore, hafter, hinner⟩

section

variable {e : Expr} {p : Printer} (hcomments : p.comments = none)
include hcomments

theorem run_exprStmt (hpart : IsPartOfWord isPart) (hprints : e.emit.failure? = none)
    (hnamed : e.every (Node.isNamed isPart) = true) :
    ((Node.exprStmt e).emit.run p).2 = none ∧
      ∃ text, ((Node.exprStmt e).emit.run p).1.output.toList = p.output.toList ++ text ∧
        startsBlock text = false ∧ startsDeclaration isPart text = false := by
  have hd : (Node.exprStmt e).emit.failure? = none := by
    dsimp! only
    simp [Doc.failure?, Emit.failure?_parensIf, hprints]
  obtain ⟨text, htext, hopened⟩ :=
    Doc.run_leads hd hcomments (Node.leads_exprStmt hpart hprints hnamed)
  exact ⟨(Doc.run_failure _ p).trans hd, text, htext, hopened.block, hopened.declaration⟩

theorem run_exportDefaultExpr (hpart : IsPartOfWord isPart) (hprints : e.emit.failure? = none)
    (hnamed : e.every (Node.isNamed isPart) = true) (span : Span) :
    ((ModuleDecl.exportDefaultExpr span e).emit.run p).2 = none ∧
      ∃ gap gap' text, ((ModuleDecl.exportDefaultExpr span e).emit.run p).1.output.toList =
          p.output.toList ++ gap ++ "export".toList ++ gap' ++ "default".toList ++ text ∧
        gap.all isLayout = true ∧ gap'.all isLayout = true ∧
        startsDeclaration isPart text = false := by
  have hsteps : (ModuleDecl.exportDefaultExpr span e).emit.steps =
      [.mark span, .text "export", .text " ", .text "default"]
        ++ ((if stmtNeedsParens e then .softSpace else spaceIf e.startsWord)
          ++ Emit.parensIf (stmtNeedsParens e) e.emit ++ ";").steps := by
    simp [ModuleDecl.emit, Emit.defaultExpr_eq, Doc.steps, Doc.space, ModuleDecl.span]
  have hd : (ModuleDecl.exportDefaultExpr span e).emit.failure? = none := by
    cases hparens : stmtNeedsParens e <;> cases hword : e.startsWord <;>
      simp [ModuleDecl.emit, Emit.defaultExpr_eq, Doc.failure?, Emit.failure?_parensIf, hprints,
        hparens, hword, spaceIf, Doc.space]
  obtain ⟨t, htext, hlaid⟩ := Doc.run_laid hd hcomments
  rw [hsteps] at hlaid
  -- the mark, `export`, the blank and `default`, each with a gap in front
  obtain ⟨g₀, _, hg₀, ⟨g₁, _, hg₁, ⟨g₂, _, hg₂, ⟨g₃, text, hg₃, hbehind, rfl⟩, rfl⟩, rfl⟩, rfl⟩ :=
    hlaid
  have hopened := Emit.leads_defaultValue hpart hprints hnamed text [] hbehind .nil
  rw [List.append_nil] at hopened
  refine ⟨(Doc.run_failure _ p).trans hd, g₀ ++ g₁, g₂ ++ ' ' :: g₃, text, ?_, ?_, ?_, hopened⟩
  · rw [htext]
    simp [Step.chars]
  · rw [List.all_append, hg₀, hg₁]
    rfl
  · rw [List.all_append, hg₂, List.all_cons, hg₃]
    rfl

theorem run_arrow (hpart : IsPartOfWord isPart) (hprints : e.emit.failure? = none)
    (hnamed : e.every (Node.isNamed isPart) = true) {span : Span} {params : Nodes .pattern}
    {isAsync : Bool} (isGenerator : Bool) {typeParameters returnType : Option Opaque}
    (hhead : (arrowHead span params isAsync typeParameters returnType).failure? = none) :
    ((Node.arrow span params (.exprBody e) isAsync isGenerator typeParameters returnType).emit.run
        p).2 = none ∧
      ∃ gap text, ((Node.arrow span params (.exprBody e) isAsync isGenerator typeParameters
            returnType).emit.run p).1.output.toList =
          ((arrowHead span params isAsync typeParameters returnType).run p).1.output.toList
            ++ gap ++ "=>".toList ++ text ∧
        gap.all isLayout = true ∧ startsBlock text = false ∧
        (isSequence e = true → ∃ before inner after,
          text = before ++ '(' :: inner ++ after ++ [')'] ∧ before.all isLayout = true ∧
            after.all isLayout = true ∧ Laid e.emit.steps inner) := by
  have hd :
      (Emit.assignedValue "=>" (Emit.parensIf (bodyNeedsParens e) e.emit)).failure? = none := by
    simp [Emit.assignedValue, Doc.failure?, Emit.failure?_parensIf, hprints]
  have hq : ((arrowHead span params isAsync typeParameters returnType).run p).1.comments = none :=
    (Doc.run_sameSetup _ p).comments.trans hcomments
  obtain ⟨t, htext, hlaid⟩ := Doc.run_laid hd hq
  -- the blank and the arrow, each with a gap in front
  obtain ⟨g₀, _, hg₀, ⟨g₁, text, hg₁, hbody, rfl⟩, rfl⟩ := hlaid
  have hopened := Emit.leads_body hpart hprints hnamed text [] hbody .nil
  rw [List.append_nil] at hopened
  refine ⟨?_, g₀ ++ g₁, text, ?_, ?_, hopened, fun hsequence => ?_⟩
  · rw [Doc.run_failure, arrow_emit, Doc.failure?_append, hhead]
    exact hd
  · rw [arrow_emit, run_append_done _ hhead]
    exact htext.trans (by simp [Step.chars])
  · rw [List.all_append, hg₀, hg₁]
    rfl
  · obtain ⟨g₂, u, hg₂, hu, rfl⟩ := hbody
    rw [bodyNeedsParens, hsequence, Bool.or_true] at hu
    obtain ⟨before, inner, after, rfl, hbefore, hafter, hinner⟩ := Emit.laid_parens hu
    refine ⟨g₂ ++ before, inner, after, by simp [Step.chars], ?_, hafter, hinner⟩
    rw [List.all_append, hg₂, hbefore]
    rfl

end

/-- **Expressions are never read as blocks or declarations.** Without comments, of an
expression that prints and whose names open no declaration: the statement made of it starts
with neither, behind `default` it is not read as a declaration, and behind the arrow of a
function not as a block; a sequence is in parentheses there. -/
theorem expressions_never_misread (hpart : IsPartOfWord isPart) {e : Expr} {p : Printer}
    (hcomments : p.comments = none) (hprints : (e.emit.run p).2 = none)
    (hnamed : e.every (Node.isNamed isPart) = true) :
    (((Node.exprStmt e).emit.run p).2 = none ∧
      ∃ text, ((Node.exprStmt e).emit.run p).1.output.toList = p.output.toList ++ text ∧
        startsBlock text = false ∧ startsDeclaration isPart text = false) ∧
    (∀ span, ((ModuleDecl.exportDefaultExpr span e).emit.run p).2 = none ∧
      ∃ gap gap' text, ((ModuleDecl.exportDefaultExpr span e).emit.run p).1.output.toList =
          p.output.toList ++ gap ++ "export".toList ++ gap' ++ "default".toList ++ text ∧
        gap.all isLayout = true ∧ gap'.all isLayout = true ∧
        startsDeclaration isPart text = false) ∧
    ∀ span params isAsync isGenerator typeParameters returnType,
      ((arrowHead span params isAsync typeParameters returnType).run p).2 = none →
      ((Node.arrow span params (.exprBody e) isAsync isGenerator typeParameters returnType).emit.run
        p).2 = none ∧
      ∃ gap text, ((Node.arrow span params (.exprBody e) isAsync isGenerator typeParameters
            returnType).emit.run p).1.output.toList =
          ((arrowHead span params isAsync typeParameters returnType).run p).1.output.toList
            ++ gap ++ "=>".toList ++ text ∧
        gap.all isLayout = true ∧ startsBlock text = false ∧
        (isSequence e = true → ∃ before inner after,
          text = before ++ '(' :: inner ++ after ++ [')'] ∧ before.all isLayout = true ∧
            after.all isLayout = true ∧ Laid e.emit.steps inner) := by
  rw [Doc.run_failure] at hprints
  refine ⟨run_exprStmt hcomments hpart hprints hnamed,
    run_exportDefaultExpr hcomments hpart hprints hnamed, ?_⟩
  intro span params isAsync isGenerator typeParameters returnType hhead
  rw [Doc.run_failure] at hhead
  exact run_arrow hcomments hpart hprints hnamed isGenerator hhead

/-- The expression `{}.p, async`. -/
def braceFirst : Expr :=
  .sequence .dummy (.cons
    (.member .dummy (.object .dummy .nil) (.ident ⟨.dummy, "p", false, none⟩) false)
    (.cons (.ident ⟨.dummy, "async", false, none⟩) .nil))

theorem braceFirst_never_misread :
    (∃ text, ((Node.exprStmt braceFirst).emit.run (.new .compact)).1.output.toList = text ∧
      text = "(\x7b\x7d.p,async);".toList ∧ startsBlock text = false ∧
        startsDeclaration isWordPart text = false) ∧
    (∃ gap gap' text,
      ((ModuleDecl.exportDefaultExpr .dummy braceFirst).emit.run (.new .compact)).1.output.toList =
        gap ++ "export".toList ++ gap' ++ "default".toList ++ text ∧
      startsDeclaration isWordPart text = false) ∧
    ∃ gap before inner after,
      ((Node.arrow .dummy .nil (.exprBody braceFirst) false false none none).emit.run
          (.new .compact)).1.output.toList =
        "()".toList ++ gap ++ "=>".toList ++ (before ++ '(' :: inner ++ after ++ [')']) ∧
      Laid braceFirst.emit.steps inner := by
  obtain ⟨⟨-, text, htext, hblock, hdeclaration⟩, hexport, harrow⟩ :=
    @expressions_never_misread isWordPart (fun _ _ => rfl) braceFirst (.new .compact) rfl rfl
      (by decide)
  obtain ⟨-, gap, gap', text', htext', -, -, hdeclaration'⟩ := hexport .dummy
  obtain ⟨-, gap'', text'', htext'', -, -, hsequence⟩ :=
    harrow .dummy .nil false false none none rfl
  obtain ⟨before, inner, after, rfl, -, -, hlaid⟩ := hsequence rfl
  exact ⟨⟨text, htext, htext.symm.trans rfl, hblock, hdeclaration⟩,
    ⟨gap, gap', text', htext', hdeclaration'⟩, gap'', before, inner, after, htext'', hlaid⟩

end EcmaPrinter
