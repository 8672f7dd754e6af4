/-
# What an expression writes first

An expression that starts with none of its parts has a token of its own in front: a
bracket, an operator, a keyword, a name or a literal. `Node.opening` tells which, and
whether what stands behind could go on with it as a word: behind a name nothing does, and
so it is read as the name.

The documents are looked at once (`Node.opens`). That the texts of all expressions start
in a certain way is then a matter of the tokens alone (`Opening.Grants`), in every layout
(`Opening.Opens.leads`) and in compact text (`Opening.Opens.chars`).

Key definitions: `Opening`, `Opening.Opens`, `Opening.Grants`, `Node.opening`.
Key theorems: `Opening.Opens.leads`, `Opening.Opens.chars`, `Node.opens`.
-/
import EcmaPrinter.Proofs.Emit.Spine

namespace EcmaPrinter

open Doc Step

variable {isPart : Char → Bool}

/-- What an expression writes first. -/
inductive Opening where
  -- what its first part does
  | ofPart
  -- nothing at all
  | nothing
  -- a text, whatever stands behind
  | text (s : String)
  -- a text that what stands behind does not go on with
  | word (s : String)

namespace Opening

/-- Steps that write this first, with nothing in front. -/
inductive Opens (isPart : Char → Bool) : Opening → List Step → Prop where
  | ofPart {ss : List Step} : Opens isPart .ofPart ss
  | nothing {ss : List Step} (silent : ss.flatMap chars = []) : Opens isPart .nothing ss
  | text {s : String} {before after : List Step} (silent : before.flatMap chars = []) :
    Opens isPart (.text s) (before ++ .text s :: after)
  | word {s : String} {before after : List Step} (silent : before.flatMap chars = [])
    (behind : Leads (Behind isPart) (Behind isPart) after) :
    Opens isPart (.word s) (before ++ .text s :: after)

/-- Every text that starts like this has `P`, if what stands behind has `Q`. -/
def Grants (P Q : List Char → Prop) : Opening → Prop
  | .ofPart => False
  | .nothing => ∀ t, Q t → P t
  | .text s => ∀ rest, P (s.toList ++ rest)
  | .word s => ∀ rest, Q rest → P (s.toList ++ rest)

theorem Grants.mono {P P' Q : List Char → Prop} {o : Opening} (h : o.Grants P Q)
    (hP : ∀ t, P t → P' t) : o.Grants P' Q := by
  cases o with
  | ofPart => exact h
  | nothing => exact fun t ht => hP t (h t ht)
  | text s => exact fun rest => hP _ (h rest)
  | word s => exact fun rest hrest => hP _ (h rest hrest)

variable {o : Opening} {s : String} {ss ts : List Step}

theorem opens_text (s : String) : (Opening.text s).Opens isPart (Doc.text s).steps :=
  @Opens.text _ s [] [] rfl

theorem opens_word (hpart : IsPartOfWord isPart) (s : String) :
    (word s).Opens isPart (Doc.text s).steps :=
  @Opens.word _ s [] [] rfl (Leads.silent (skipsLayout_behind hpart) rfl)

namespace Opens

/-- Steps without a text in front. -/
theorem after (h : o.Opens isPart ts) (hss : ss.flatMap chars = []) : o.Opens isPart (ss ++ ts) := by
  cases h with
  | ofPart => exact .ofPart
  | nothing silent => exact .nothing (by simp [hss, silent])
  | text silent =>
    rw [← List.append_assoc]
    exact .text (by simp [hss, silent])
  | word silent behind =>
    rw [← List.append_assoc]
    exact .word (by simp [hss, silent]) behind

/-- A text stays the first one in front of anything. -/
theorem before (h : (Opening.text s).Opens isPart ss) :
    (Opening.text s).Opens isPart (ss ++ ts) := by
  cases h with
  | text silent =>
    rw [List.append_assoc, List.cons_append]
    exact .text silent

/-- A word stays a word in front of what does not go on with it. -/
theorem follow (h : (Opening.word s).Opens isPart ss)
    (hts : Leads (Behind isPart) (Behind isPart) ts) :
    (Opening.word s).Opens isPart (ss ++ ts) := by
  cases h with
  | word silent behind =>
    rw [List.append_assoc, List.cons_append]
    exact .word silent (behind.append hts)

variable {P : List Char → Prop}

/-- **What the steps start with**, in every layout. -/
theorem leads (hP : SkipsLayout P) (h : o.Opens isPart ss) (hgrants : o.Grants P (Behind isPart)) :
    Leads P (Behind isPart) ss := by
  cases h with
  | ofPart => exact hgrants.elim
  | nothing silent => exact (Leads.silent hP silent).mono (fun _ ht => ht) hgrants
  | @text s before after silent =>
    have htext : Leads P (fun _ => True) [.text s] := Leads.text hP fun rest _ => hgrants rest
    have hwhole : Leads P (Behind isPart) (.text s :: after) := htext.before
    exact hwhole.after hP silent
  | word silent behind => exact ((Leads.text hP hgrants).append behind).after hP silent

/-- **What the texts of the steps start with.** -/
theorem chars (h : o.Opens isPart ss) (hgrants : o.Grants P (Behind isPart)) {rest : List Char}
    (hrest : Behind isPart rest) : P (ss.flatMap Step.chars ++ rest) := by
  cases h with
  | ofPart => exact hgrants.elim
  | nothing silent =>
    rw [silent]
    exact hgrants rest hrest
  | @text s before after silent =>
    simpa [silent, Step.chars] using hgrants (after.flatMap Step.chars ++ rest)
  | @word s before after silent behind =>
    have hbehind := behind _ rest (laid_chars after) hrest
    simpa [silent, Step.chars] using hgrants _ hbehind

end Opens

/-! ### Phrases -/

/-- A list starts with its bracket. -/
theorem opens_list (f : ListFormat) {parent : Span} {items : List Item}
    (hs : f.brackets.opening.getD "" = s) (ho : f.isOptionalIfEmpty = false) :
    (Opening.text s).Opens isPart (list parent f items).steps := by
  rw [list, ho, Bool.and_false, if_neg (by decide), hs]
  exact (opens_text s).before.before

theorem opens_ident (hpart : IsPartOfWord isPart) (name : Ident) :
    (word name.name).Opens isPart (Emit.ident name).steps := by
  have hoptional : Leads (Behind isPart) (Behind isPart) (when name.isOptional "?").steps := by
    cases name.isOptional with
    | true => exact Leads.symbol hpart (by decide)
    | false => exact Leads.silent (skipsLayout_behind hpart) rfl
  exact ((opens_word hpart name.name).after (silent_reject _ _)).follow hoptional

end Opening

/-! ### Expressions -/

/-- What a pattern writes first. -/
def Node.openingPattern : Pattern → Opening
  | .identPattern name => .word name.name
  | .arrayPattern _ _ _ => .text "["
  | .restPattern _ => .text "..."
  | .objectPattern _ _ _ => .text "\x7b"
  | .defaultPattern _ _ _ _ | .exprPattern _ => .ofPart

/-- What an expression writes first. -/
def Node.opening : Expr → Opening
  | .this _ => .text "this"
  | .superRef _ => .text "super"
  | .null _ => .text "null"
  | .bool _ value => .word (if value then "true" else "false")
  | .ident name | .metaProperty _ name _ => .word name.name
  | .str literal => .text (Text.quoted literal.value)
  | .num literal => .text (numeral literal.value)
  | .regex _ => .text "/"
  | .template _ _ _ => .text "`"
  | .array _ _ => .text "["
  | .object _ _ => .text "\x7b"
  | .paren _ _ => .text "("
  | .privateName _ => .text "#"
  | .functionLit (.functionExpr _ f) => .text (if Emit.isAsync f then "async" else "function")
  | .classLit _ => .text "class"
  | .arrow _ _ _ isAsync _ _ _ => if isAsync then .word "async" else .text "("
  | .unary _ op _ => .text op.text
  | .update _ op isPrefix _ => if isPrefix then .text op.text else .ofPart
  | .assign _ _ target _ => target.openingPattern
  | .new _ _ _ _ | .newBare _ _ _ => .text "new"
  | .yield _ _ _ => .text "yield"
  | .await _ _ => .text "await"
  | .sequence _ .nil | .jsxEmpty _ | .jsxMemberExpr _ | .jsxNamespaced _ | .jsxElementExpr _
  | .jsxFragmentExpr _ | .jsxTextExpr _ | .typed _ _ _ _ => .nothing
  | .sequence _ (.cons _ _) | .binary _ _ _ _ | .member _ _ _ _ | .conditional _ _ _ _
  | .call _ _ _ _ | .taggedTemplate _ _ _ _ _ => .ofPart

namespace Node

open Opening

theorem opens_pattern (hpart : IsPartOfWord isPart) (p : Pattern) :
    p.openingPattern.Opens isPart p.emit.steps := by
  cases p with
  | identPattern name =>
    dsimp! only
    exact (opens_ident hpart name).after rfl
  | arrayPattern span elements typing =>
    dsimp! only
    exact (opens_list ListFormat.arrayBindingPatternElements rfl rfl).after (silent_reject _ _)
  | restPattern r =>
    cases r
    dsimp! only
    exact (((opens_text "...").after (silent_reject _ _)).before).after rfl
  | objectPattern span members typing =>
    dsimp! only
    exact (opens_list ListFormat.objectBindingPatternElements rfl rfl).after (silent_reject _ _)
  | defaultPattern | exprPattern => exact .ofPart

/-- **An expression writes its opening first.** -/
theorem opens (hpart : IsPartOfWord isPart) (e : Expr) : e.opening.Opens isPart e.emit.steps := by
  have rejecting (span : Span) (b : Bool) (kind : NodeKind) :
      (Doc.mark span ++ reject b kind).steps.flatMap Step.chars = [] := silent_reject b kind
  cases e with
  | this span | superRef span | null span =>
    dsimp! only
    exact (opens_text _).after rfl
  | bool span value =>
    dsimp! only
    exact (opens_word hpart _).after rfl
  | ident name =>
    dsimp! only
    exact (opens_ident hpart name).after rfl
  | metaProperty span target property =>
    have hdot : Leads (Behind isPart) (fun _ => True) (Doc.text ".").steps :=
      Leads.symbol hpart (by decide)
    dsimp! only
    rw [steps_append, steps_append, List.append_assoc]
    exact ((opens_ident hpart target).after rfl).follow hdot.before
  | str literal | num literal =>
    dsimp! only
    exact (opens_text _).after rfl
  | regex literal =>
    dsimp! only
    exact (opens_text "/").before.before.before.after rfl
  | template span expressions quasis =>
    dsimp! only
    exact ((opens_text "`").after (silent_check _ _)).before.before.after rfl
  | array span elements =>
    dsimp! only
    exact (opens_list ListFormat.arrayLiteralExpressionElements rfl rfl).after rfl
  | object span members =>
    dsimp! only
    exact (opens_list ListFormat.objectLiteralExpressionProperties rfl rfl).after rfl
  | paren span expression =>
    dsimp! only
    exact (opens_text "(").before.before.after rfl
  | privateName name =>
    dsimp! only
    exact (opens_text "#").before.after rfl
  | functionLit f =>
    cases f with
    | functionExpr name f =>
      have hkeyword : (Opening.text (if Emit.isAsync f then "async" else "function")).Opens isPart
          (Emit.functionKeyword f).steps := by
        rw [Emit.functionKeyword]
        cases Emit.isAsync f with
        | true => exact (opens_text "async").before.before.before
        | false => exact ((opens_text "function").after rfl).before
      dsimp! only
      exact hkeyword.before.before.after rfl
  | classLit k =>
    cases k with
    | classExpr name k =>
      have hsilent : (Emit.rejectClass k).steps.flatMap Step.chars = [] := by
        cases k
        simp [Emit.rejectClass, silent_reject]
      have hclass : (Opening.text "class").Opens isPart (Emit.namedClass name k k.emit).steps :=
        ((opens_text "class").after hsilent).before.before
      dsimp! only
      exact hclass.after rfl
  | arrow span params body isAsync isGenerator typeParameters returnType =>
    have hsilent : (Doc.mark span ++ reject typeParameters.isSome .tsTypeParameterDeclaration
        ++ reject returnType.isSome .tsTyping).steps.flatMap Step.chars = [] := by
      rw [steps_append, List.flatMap_append, silent_reject, List.append_nil]
      exact silent_reject _ _
    cases isAsync with
    | true =>
      have hasync : (word "async").Opens isPart (when true ("async" ++ .softSpace)).steps :=
        (opens_word hpart "async").follow (Leads.silent (skipsLayout_behind hpart) rfl)
      have hlist : Leads (Behind isPart) (Behind isPart)
          (list span ListFormat.parameters params.items).steps :=
        leads_list _ _ (Leads.symbol hpart (by decide)) rfl
      dsimp! only
      exact ((hasync.after hsilent).follow hlist).follow
        (Emit.behind_assignedValue hpart _ (by decide))
    | false =>
      have hlist : (Opening.text "(").Opens isPart (list span ListFormat.parameters params.items).steps :=
        opens_list ListFormat.parameters rfl rfl
      refine (hlist.after ?_).before
      rw [steps_append, List.flatMap_append, hsilent]
      rfl
  | unary span op operand =>
    dsimp! only
    exact ((opens_text op.text).after rfl).before.before
  | update span op isPrefix operand =>
    cases isPrefix with
    | true =>
      dsimp! only
      exact (opens_text op.text).before.after rfl
    | false => exact .ofPart
  | assign span op target value =>
    have htarget := opens_pattern hpart target
    cases target with
    | identPattern name =>
      exact (htarget.after rfl).follow
        (Emit.behind_assignedValue hpart _ (by cases op <;> decide))
    | arrayPattern | restPattern | objectPattern => exact (htarget.after rfl).before
    | defaultPattern | exprPattern => exact .ofPart
  | new span callee arguments typeArguments | newBare span callee typeArguments =>
    dsimp! only
    exact ((opens_text "new").before.before.after (rejecting _ _ _)).before
  | yield span argument isDelegate =>
    dsimp! only
    exact ((opens_text "yield").after rfl).before.before
  | await span argument =>
    dsimp! only
    exact (opens_text "await").before.before.after rfl
  | sequence span expressions =>
    cases expressions with
    | nil => exact .nothing rfl
    | cons first rest => exact .ofPart
  | binary | member | conditional | call | taggedTemplate => exact .ofPart
  | jsxEmpty | jsxMemberExpr | jsxNamespaced | jsxElementExpr | jsxFragmentExpr | jsxTextExpr
  | typed => exact .nothing rfl

end Node

end EcmaPrinter
