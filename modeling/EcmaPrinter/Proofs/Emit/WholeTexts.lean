/-
# Texts that are whole

Names, regular expressions and texts of templates are written as they are, so what they
are read as depends on them. A name with a quote in it opens a string, and a regular
expression without a body opens a comment. Where they are whole, everything written is
read in the place that it is written for: the document of a node leaves a reader in code
(`Node.emit_staysInCode`).

A division is a slash in code, which opens a comment in front of another slash or a star.
Its right operand has to start with a token for that not to happen, which sequences do
that have an expression. The printer sees to regular expressions itself.

Key definitions: `Node.startsToken`, `Node.isWhole`, `ModuleItem.isWhole`.
Key theorems: `Node.emit_staysInCode`, `ModuleItem.emit_staysInCode`.
-/
import EcmaPrinter.Proofs.Emit.Phrases
import EcmaPrinter.Proofs.Emit.Signs
import EcmaPrinter.Proofs.Layout.Scanned

namespace EcmaPrinter

open Doc
open Lexical (Goal code followsSlash inTemplate isCodeText isTemplateText isWordPart under)

/-! ### Whole texts -/

/-- A name is code and starts with something that no comment opens with. -/
def isWholeName (s : String) : Bool := isCodeText s && s.toList.head?.any followsSlash

/-- A regular expression with a body that ends where it is closed, and flags that are
code. -/
def RegexLit.isWhole (literal : RegexLit) : Bool :=
  isRegexBody false literal.pattern.value.toList
    && literal.pattern.value.toList.head?.any followsSlash
    && isCodeText ((literal.flags.map StringLit.value).getD "")

/-- A text of a template that neither ends it nor opens a substitution. -/
def Quasi.isWhole (quasi : Quasi) : Bool := isTemplateText false quasi.raw.value.toList

namespace Node

/-- The first part of an expression is neither an empty sequence nor the empty expression of
JSX, and nothing is assigned to a pattern with a default there. -/
def startsToken (e : Expr) : Bool :=
  match e.leftmost with
  | .sequence _ .nil | .jsxEmpty _ | .assign _ _ (.defaultPattern _ _ _ _) _ => false
  | _ => true

/-- What a node holds itself is whole, and a division has something to divide by. -/
def isWhole : {c : Category} → Node c → Bool
  | _, .regex literal => literal.isWhole
  | _, .template _ _ quasis | _, .taggedTemplate _ _ _ quasis _ => quasis.all Quasi.isWhole
  | _, .binary _ .div _ right => right.startsToken
  | _, n => n.names.all fun name => isWholeName name.name

end Node

/-! ### Literals -/

namespace Emit

/-- A quoted string is over where its quote is closed. -/
theorem str_staysInCode (literal : StringLit) : (str literal).StaysInCode := by
  intro goal braces
  rw [str, scan_text, Text.quoted, String.toList_ofList]
  generalize literal.value.toList = value
  have hbody (isDouble : Bool) (hquote : Text.chooseQuote value = Lexical.quoteChar isDouble) :
      Lexical.scan (code braces) (under goal
        (Text.chooseQuote value :: Text.escape (Text.chooseQuote value) value ++
          [Text.chooseQuote value])) = code braces := by
    have hread := Lexical.readString?_escape (Lexical.chooseQuote_cases value) [] value
    rw [hquote] at hread ⊢
    have hopens : Lexical.readChar (code braces) (Lexical.quoteChar isDouble, goal) =
        ⟨.quoted isDouble, braces⟩ := by
      cases isDouble <;> rfl
    rw [List.cons_append, Lexical.under_cons, Lexical.scan_cons, hopens]
    exact (Lexical.scan_of_readString? hread).2
  rcases Lexical.chooseQuote_cases value with hquote | hquote
  · exact hbody false hquote
  · exact hbody true hquote

/-- A regular expression is over where it is closed. -/
theorem regex_staysInCode {literal : RegexLit} (h : literal.isWhole = true) :
    (.mark literal.span ++ regex literal).StaysInCode := by
  simp only [RegexLit.isWhole, Bool.and_eq_true] at h
  obtain ⟨⟨hbody, hhead⟩, hflags⟩ := h
  generalize hpattern : literal.pattern.value.toList = pattern at hbody hhead
  intro goal braces
  have hopens : (text "/").scan .operand (code braces) = ⟨.slash .operand, braces⟩ := rfl
  have hregex : Lexical.scan ⟨.slash .operand, braces⟩ (under .operator (pattern ++ ['/'])) =
      code braces := by
    rw [Lexical.scan_regex]
    · exact (Lexical.scan_of_readRegex? (Lexical.readRegex?_body [] hbody)).2
    · cases pattern with
      | nil => cases hhead
      | cons c cs => exact hhead
  rw [Lexical.under_append, Lexical.scan_append] at hregex
  have hclosed : (text "/").scan .operator
      ((text literal.pattern.value).scan .operator ⟨.slash .operand, braces⟩) = code braces := by
    rw [scan_text, scan_text, hpattern]
    exact hregex
  rw [regex, scan_append, scan_append, scan_append, scan_append, goalBehind_mark]
  simp only [goalBehind_append, goalBehind_text]
  rw [show (mark literal.span).scan goal (code braces) = code braces from rfl, hopens, hclosed]
  exact staysInCode_of_isCodeText hflags _ _

theorem scan_quasi {quasi : Quasi} (h : quasi.isWhole = true) (goal : Goal) (braces : List Nat) :
    ∃ isDollar, (text quasi.raw.value).scan goal (inTemplate false braces) =
      inTemplate isDollar braces := by
  rw [scan_text]
  exact Lexical.scan_templateText h

/-- The substitutions of a template are code, and what stands between them is not. -/
theorem scan_interleave {braces : List Nat} : ∀ {quasis : List Quasi} {items : List Item},
    quasis.length = items.length + 1 → (∀ quasi ∈ quasis, quasi.isWhole = true) →
    (∀ item ∈ items, item.doc.StaysInCode) → ∀ goal, ∃ isDollar,
      (interleave quasis items).scan goal (inTemplate false braces) = inTemplate isDollar braces
  | quasi :: quasis, [], hlength, hquasis, _, goal => by
    obtain rfl : quasis = [] := by simpa using hlength
    obtain ⟨isDollar, htext⟩ := scan_quasi (hquasis quasi (List.mem_singleton_self _)) goal braces
    refine ⟨isDollar, ?_⟩
    rw [interleave, scan_append, htext]
    rfl
  | quasi :: quasis, e :: es, hlength, hquasis, hitems, goal => by
    obtain ⟨hquasi, hrest⟩ := List.forall_mem_cons.mp hquasis
    obtain ⟨he, hes⟩ := List.forall_mem_cons.mp hitems
    obtain ⟨isDollar, htext⟩ := scan_quasi hquasi goal braces
    have hopens (goal : Goal) :
        (text "$\x7b").scan goal (inTemplate isDollar braces) = code (0 :: braces) := by
      cases isDollar <;> rfl
    have hcloses (goal : Goal) :
        (text "\x7d").scan goal (code (0 :: braces)) = inTemplate false braces := rfl
    rw [interleave, scan_append, scan_append, scan_append, scan_append, htext, hopens, he, hcloses]
    exact scan_interleave (Nat.succ.inj hlength) hrest hes _

theorem template_staysInCode {quasis : List Quasi} {items : List Item}
    (hlength : quasis.length = items.length + 1) (hquasis : ∀ quasi ∈ quasis, quasi.isWhole = true)
    (hitems : ∀ item ∈ items, item.doc.StaysInCode) : (template quasis items).StaysInCode := by
  intro goal braces
  have hopens (goal : Goal) : (text "`").scan goal (code braces) = inTemplate false braces := rfl
  have hcloses (isDollar : Bool) (goal : Goal) :
      (text "`").scan goal (inTemplate isDollar braces) = code braces := by
    cases isDollar <;> rfl
  rw [template, scan_append, scan_append, scan_append, phrasing_staysInCode.check _ _ _ _, hopens]
  obtain ⟨isDollar, hbetween⟩ : ∃ isDollar, (interleave quasis items).scan _
      (inTemplate false braces) = inTemplate isDollar braces :=
    scan_interleave hlength hquasis hitems _
  rw [hbetween, hcloses]

end Emit

/-! ### Divisions -/

namespace Node

/-- **What stands first in an expression** opens no comment behind a slash, unless it is a
regular expression. -/
theorem grants_followsSlash {e : Expr} (hleft : e.left? = none)
    (hprints : e.emit.failure? = none) (htoken : e.startsToken = true)
    (hwhole : e.every isWhole = true) (hregex : ∀ literal, e ≠ .regex literal) :
    e.opening.Grants (fun t => t.head?.any followsSlash = true) (Behind isWordPart) := by
  have token {s : String} (h : s.toList.head?.any followsSlash = true) :
      (Opening.text s).Grants (fun t => t.head?.any followsSlash = true) (Behind isWordPart) := by
    intro rest
    cases hs : s.toList with
    | nil =>
      rw [hs] at h
      cases h
    | cons c cs =>
      rw [hs] at h
      exact h
  have name {n : Ident} (h : isWholeName n.name = true) :
      (Opening.word n.name).Grants (fun t => t.head?.any followsSlash = true)
        (Behind isWordPart) :=
    fun rest _ => token (Bool.and_eq_true_iff.mp h).2 rest
  rw [startsToken, leftmost_of_left?_none hleft] at htoken
  cases e with
  | ident n => exact name (List.all_eq_true.mp hwhole n (List.mem_singleton_self _))
  | metaProperty span target property =>
    exact name (List.all_eq_true.mp hwhole target (List.mem_cons_self ..))
  | bool span value => cases value <;> exact fun _ _ => rfl
  | str literal => exact token (Lexical.head_quoted (by decide) _)
  | num literal => exact token (head_numeral (by decide) _)
  | regex literal => exact absurd rfl (hregex literal)
  | functionLit f =>
    cases f with
    | functionExpr name f =>
      dsimp! only
      cases Emit.isAsync f <;> exact token rfl
  | arrow span params body isAsync isGenerator typeParameters returnType =>
    cases isAsync with
    | true => exact fun _ _ => rfl
    | false => exact token rfl
  | unary span op operand => cases op <;> exact token rfl
  | update span op isPrefix operand =>
    cases isPrefix with
    | true => cases op <;> exact token rfl
    | false => cases hleft
  | assign span op target value =>
    obtain ⟨-, htarget, -⟩ := every_assign.mp hwhole
    cases target with
    | identPattern n => exact name (List.all_eq_true.mp htarget n (List.mem_singleton_self _))
    | arrayPattern | restPattern | objectPattern => exact token rfl
    | defaultPattern => cases htoken
    | exprPattern => cases hleft
  | sequence span expressions =>
    cases expressions with
    | nil => cases htoken
    | cons first rest => cases hleft
  | jsxEmpty span => cases htoken
  | binary | member | conditional | call | taggedTemplate => cases hleft
  | jsxMemberExpr | jsxNamespaced | jsxElementExpr | jsxFragmentExpr | jsxTextExpr | typed =>
    cases hprints
  | this | superRef | null | template | array | object | paren | privateName | classLit | new
  | newBare | yield | await => exact token rfl

/-- A division opens no comment: either a blank stands behind it, or its right operand starts
with something else. -/
theorem head_right {right : Expr} (hprints : right.emit.failure? = none)
    (htoken : right.startsToken = true) (hwhole : right.every isWhole = true)
    (hblank : spaceAfterBinary .div right = false) :
    right.emit.code.head?.any followsSlash = true := by
  have hregex : ∀ literal, right.leftmost ≠ .regex literal := by
    intro literal hliteral
    rw [spaceAfterBinary, hliteral] at hblank
    cases hblank
  have hgrants := grants_followsSlash (left?_leftmost right) (failure?_leftmost hprints)
    (by rwa [startsToken, leftmost_of_left?_none (left?_leftmost right)])
    (every_leftmost right hwhole) hregex
  obtain ⟨rest, hcode⟩ := code_leftmost hprints
  have hhead := (right.leftmost.opens (fun _ _ => rfl)).chars hgrants .nil
  rw [List.append_nil] at hhead
  rw [hcode]
  change (right.leftmost.emit.code ++ rest).head?.any followsSlash = true
  change right.leftmost.emit.code.head?.any followsSlash = true at hhead
  cases hleftmost : right.leftmost.emit.code with
  | nil =>
    rw [hleftmost] at hhead
    cases hhead
  | cons c cs =>
    rw [hleftmost] at hhead
    exact hhead

/-- The text behind a division, up to the end of the right operand. -/
theorem division_staysInCode {left right : Expr} (hprints : right.emit.failure? = none)
    (htoken : right.startsToken = true) (hwhole : right.every isWhole = true)
    (hright : right.emit.StaysInCode) :
    (spaceIf (spaceBeforeBinary .div left) ++ .text BinaryOp.div.text
      ++ spaceIf (spaceAfterBinary .div right) ++ right.emit).StaysInCode := by
  intro goal braces
  have hslash : (Doc.text BinaryOp.div.text).scan .operator (code braces) =
      ⟨.slash .operator, braces⟩ := rfl
  rw [scan_append, scan_append, scan_append, phrasing_staysInCode.spaceIf, goalBehind_spaceIf,
    hslash]
  cases hblank : spaceAfterBinary .div right with
  | true =>
    have hspace (goal : Goal) :
        (spaceIf true).scan goal ⟨.slash .operator, braces⟩ = code braces := rfl
    rw [hspace, hright]
  | false =>
    have hhead := head_right hprints htoken hwhole hblank
    rw [Doc.code, ← tagged_fst right.emit .operator, List.head?_map, Option.any_map] at hhead
    have hsilent (goal : Goal) :
        (spaceIf false).scan goal ⟨.slash .operator, braces⟩ = ⟨.slash .operator, braces⟩ := rfl
    rw [hsilent, goalBehind_append, goalBehind_spaceIf, Doc.scan, Lexical.scan_division hhead]
    exact hright _ _

end Node

/-! ### Nodes -/

theorem BinaryOp.isCodeText_text {op : BinaryOp} (h : op ≠ .div) : isCodeText op.text = true := by
  cases op <;> first | exact absurd rfl h | decide

/-- The assignment of a quotient is a slash too, but an equals sign stands behind it. -/
theorem AssignOp.staysInCode (op : AssignOp) :
    (.softSpace ++ .text op.text : Doc).StaysInCode := by
  intro goal braces
  rw [scan_append, phrasing_staysInCode.softSpace, goalBehind_softSpace]
  cases op <;> rfl

theorem Ident.staysInCode {name : Ident} (h : isWholeName name.name = true) :
    (Doc.text name.name).StaysInCode :=
  staysInCode_of_isCodeText (Bool.and_eq_true_iff.mp h).1

/-- **Whole texts are all that a reader of code asks for**, where nothing is refused. -/
theorem Node.asks_staysInCode {c : Category} (n : Node c)
    (h : n.every (fun m => m.isWhole && m.isSupported) = true) : n.Asks StaysInCode := by
  have hown := n.test_of_every h
  obtain ⟨hwhole, hsupported⟩ := Bool.and_eq_true_iff.mp hown
  have hcontract : n.keepsContract = true := (Bool.and_eq_true_iff.mp hsupported).2
  cases n with
  | str literal | strKey literal => exact Emit.str_staysInCode literal
  | regex literal => exact Emit.regex_staysInCode hwhole
  | template span expressions quasis | taggedTemplate span tag expressions quasis typeParameters =>
    have hlength : quasis.length = expressions.items.length + 1 := by
      rw [expressions.length_items]
      exact eq_of_beq hcontract
    exact Emit.template_staysInCode hlength (List.all_eq_true.mp hwhole)
  | binary span op left right =>
    by_cases hop : op = .div
    · subst hop
      have hright := (every_binary.mp h).2.2
      have hprints : right.emit.failure? = none := by
        rw [failure?_eq_none, right.emit_every rfl]
        exact right.every_mono (fun m hm => (Bool.and_eq_true_iff.mp hm).2) hright
      exact division_staysInCode hprints hwhole
        (right.every_mono (fun m hm => (Bool.and_eq_true_iff.mp hm).1) hright)
    · have hop : (Doc.text op.text).StaysInCode :=
        staysInCode_of_isCodeText (BinaryOp.isCodeText_text hop)
      exact (((phrasing_staysInCode.spaceIf _).append hop).append
        (phrasing_staysInCode.spaceIf _)).append
  | assign span op target value => exact op.staysInCode
  | _ => exact fun name hname => Ident.staysInCode (List.all_eq_true.mp hwhole name hname)

/-- **The document of a node stays in code** if nothing in it is refused and the texts in it
are whole. -/
theorem Node.emit_staysInCode {c : Category} {n : Node c}
    (hsupported : n.every isSupported = true) (hwhole : n.every isWhole = true) :
    n.emit.StaysInCode :=
  n.emit_phrase phrasing_staysInCode (fun m => m.asks_staysInCode)
    (n.every_and hwhole hsupported)

/-! ### Imports and exports -/

/-- The names of an import or export and all texts of the nodes in it are whole. -/
def ModuleItem.isWhole : ModuleItem → Bool
  | .decl d => (d.names.all fun name => isWholeName name.name) && d.every Node.isWhole
  | .stmt s => s.every Node.isWhole

open Emit in
/-- Nothing in an import or export that prints is refused. -/
theorem ModuleDecl.every_of_emit {d : ModuleDecl} (hprints : d.emit.failure? = none) :
    d.every Node.isSupported = true := by
  rw [failure?_eq_none] at hprints
  cases d with
  | exportDecl span declaration => simpa [emit, every, declaration.emit_every rfl] using hprints
  | exportDefaultDecl span declaration =>
    cases declaration with
    | klass c => simpa [emit, every, DefaultDecl.every, defaultDecl, c.emit_every rfl] using hprints
    | function f => simpa [emit, every, DefaultDecl.every, defaultDecl, f.emit_every rfl] using hprints
    | interface _ => rfl
  | exportDefaultExpr span expression => simpa [emit, every, expression.emit_every rfl] using hprints
  | importDecl | exportNamed | exportAll | typeModule => rfl

theorem ModuleItem.emit_staysInCode {item : ModuleItem} (hprints : item.emit.failure? = none)
    (hwhole : item.isWhole = true) : item.emit.StaysInCode := by
  cases item with
  | decl d =>
    obtain ⟨hnames, hnodes⟩ := Bool.and_eq_true_iff.mp hwhole
    have hasks : d.Asks StaysInCode :=
      ⟨fun name hname => Ident.staysInCode (List.all_eq_true.mp hnames name hname),
        fun source _ => Emit.str_staysInCode source⟩
    exact d.emit_phrase phrasing_staysInCode (fun m => m.asks_staysInCode) hasks
      (d.every_and hnodes (ModuleDecl.every_of_emit hprints))
  | stmt s =>
    have hsupported : s.every Node.isSupported = true := by
      rw [← s.emit_every rfl, ← failure?_eq_none]
      exact hprints
    exact Node.emit_staysInCode hsupported hwhole

end EcmaPrinter
