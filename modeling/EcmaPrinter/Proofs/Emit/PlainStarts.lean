/-
# Statements that start like no other statement

A reader tells statements apart by what they start with: a brace, or one of the words of
`if` and loops. A statement made of an expression starts with none of these. Its text
starts with that of the leftmost expression, and so it remains to go through what the
expressions without a first part write first: literals of objects, functions and classes
are put in parentheses, names are words of their own (`Node.opensPlain`), and everything
else starts with a symbol, or with a word that starts no other statement.

Only the leftmost name counts: a property may have any word as its name.

Key definitions: `Doc.StartsPlain`, `Node.opensPlain`.
Key theorems: `Node.grants_startsPlain`, `startsPlain_exprStmt`.
-/
import EcmaPrinter.Proofs.Emit.Signs
import EcmaPrinter.Proofs.Lexical.Skeleton

namespace EcmaPrinter

open Doc Emit Lexical

/-! ### The first character -/

namespace Doc

variable {d : Doc}

/-- The first character of a document starts no word and no brace of a statement. -/
def StartsPlain (d : Doc) : Prop := ∃ c cs, d.code = c :: cs ∧ isPlainStart c = true

theorem startsPlain_text {s : String} (h : s.toList.head?.any isPlainStart = true) :
    (text s).StartsPlain := by
  cases hs : s.toList with
  | nil =>
    rw [hs] at h
    cases h
  | cons c cs =>
    rw [hs] at h
    exact ⟨c, cs, (code_text s).trans hs, h⟩

theorem StartsPlain.code (h : d.StartsPlain) (rest : List Char) :
    startsPlain (d.code ++ rest) = true := by
  obtain ⟨c, cs, hcode, hc⟩ := h
  rw [hcode]
  exact startsPlain_cons hc (cs ++ rest)

end Doc

namespace Emit

theorem startsPlain_num (literal : NumberLit) : (num literal).StartsPlain :=
  startsPlain_text (head_numeral (by decide) _)

theorem startsPlain_str (literal : StringLit) : (str literal).StartsPlain :=
  startsPlain_text (head_quoted (by decide) _)

theorem startsPlain_ident {name : Ident} (h : isPlainWord name.name.toList = true)
    {rest : List Char} (hrest : EndsBefore isWordy rest) :
    startsPlain ((ident name).code ++ rest) = true := by
  have hbehind : EndsBefore isWordy ((when name.isOptional "?").code ++ rest) := by
    cases name.isOptional with
    | true => exact endsBefore_cons.mpr (by decide)
    | false => exact hrest
  simpa [ident] using startsPlain_word h hbehind

end Emit

/-! ### Expressions without a first part -/

namespace Node

/-- Whether what an expression without a first part starts with is a word or symbol of
its own: its name is no word of a statement, and there is something to write. -/
def opensPlain : Expr → Bool
  | .ident name | .metaProperty _ name _ | .assign _ _ (.identPattern name) _ =>
    isPlainWord name.name.toList
  | .sequence _ expressions => !expressions.isEmpty
  | .jsxEmpty _ | .assign _ _ (.defaultPattern _ _ _ _) _ => false
  | _ => true

/-- **An expression without a first part starts like no other statement**, unless it is
seen to. -/
theorem grants_startsPlain {e : Expr} (hleft : e.left? = none)
    (hprints : e.emit.failure? = none) (hplain : e.opensPlain = true)
    (hbraced : e.isBraced = false) (hdeclared : e.isDeclared = false) :
    e.opening.Grants (fun t => startsPlain t = true) (Behind isWordy) := by
  have token {s : String} (h : (Doc.text s).StartsPlain) :
      (Opening.text s).Grants (fun t => startsPlain t = true) (Behind isWordy) := fun rest => by
    simpa using h.code rest
  have named {name : Ident} (h : isPlainWord name.name.toList = true) :
      (Opening.word name.name).Grants (fun t => startsPlain t = true) (Behind isWordy) :=
    fun _ hrest => startsPlain_word h hrest.word
  cases e with
  | ident name => exact named hplain
  | metaProperty span target property => exact named hplain
  | bool span value =>
    cases value with
    | true => exact fun rest _ => token (s := "true") (startsPlain_text (by decide)) rest
    | false => exact fun _ _ => startsPlain_of rfl (fun h => by cases h) rfl
  | str literal => exact token (startsPlain_str literal)
  | num literal => exact token (startsPlain_num literal)
  | arrow span params body isAsync isGenerator typeParameters returnType =>
    cases isAsync with
    | true => exact fun rest _ => token (s := "async") (startsPlain_text (by decide)) rest
    | false => exact token (startsPlain_text (by decide))
  | unary span op operand => exact token (startsPlain_text (by cases op <;> decide))
  | update span op isPrefix operand =>
    cases isPrefix with
    | true => exact token (startsPlain_text (by cases op <;> decide))
    | false => cases hleft
  | assign span op target value =>
    cases target with
    | identPattern name => exact named hplain
    | arrayPattern | restPattern => exact token (startsPlain_text (by decide))
    | objectPattern => cases hbraced
    | defaultPattern => cases hplain
    | exprPattern => cases hleft
  | sequence span expressions =>
    cases expressions with
    | nil => cases hplain
    | cons first others => cases hleft
  | object => cases hbraced
  | functionLit | classLit => cases hdeclared
  | jsxEmpty => cases hplain
  | binary | member | conditional | call | taggedTemplate => cases hleft
  | jsxMemberExpr | jsxNamespaced | jsxElementExpr | jsxFragmentExpr | jsxTextExpr | typed =>
    cases hprints
  | this | superRef | null | regex | template | array | paren | privateName | new | newBare
  | yield | await => exact token (startsPlain_text (by decide))

end Node

/-! ### Statements made of expressions -/

namespace Step

/-- What is written behind the inner steps may stand behind a first part. -/
theorem Extends.code {isPart : Char → Bool} {ss ts : List Step} (h : Extends isPart ss ts) :
    ∃ rest, ss.flatMap chars = ts.flatMap chars ++ rest ∧ Behind isPart rest := by
  obtain ⟨before, after, rfl, hbefore, hafter⟩ := h
  have hbehind := hafter _ [] (laid_chars after) .nil
  rw [List.append_nil] at hbehind
  exact ⟨after.flatMap chars, by simp [hbefore], hbehind⟩

end Step

theorem isPartOfWord_isWordy : IsPartOfWord isWordy := by
  intro c hc
  simp [isWordy, Nat.not_le.mpr hc]

/-- **A statement made of an expression starts like no other statement.** -/
theorem startsPlain_exprStmt {e : Expr} (hprints : e.emit.failure? = none)
    (hplain : e.leftmost.opensPlain = true) :
    startsPlain (parensIf (stmtNeedsParens e) e.emit).code = true := by
  cases hparens : stmtNeedsParens e with
  | true => exact startsPlain_cons (by decide) _
  | false =>
    obtain ⟨hbraced, hdeclared⟩ := Bool.or_eq_false_iff.mp hparens
    obtain ⟨rest, hcode, hrest⟩ := (Node.extends_leftmost isPartOfWord_isWordy e hprints).code
    have hgrants := Node.grants_startsPlain (Node.left?_leftmost e)
      (Node.failure?_leftmost hprints) hplain hbraced hdeclared
    rw [parensIf, if_neg (by decide), Doc.code, hcode]
    exact (e.leftmost.opens isPartOfWord_isWordy).chars hgrants hrest

end EcmaPrinter
