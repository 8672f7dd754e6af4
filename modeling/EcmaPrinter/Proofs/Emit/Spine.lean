/-
# The first part of an expression

Where parentheses or blanks are needed is decided by the leftmost expression inside an
expression (`Node.leftmost`). It is reached by going from an expression to its first part
again and again (`Node.left?`), and this is right only if the text of an expression is
that of its first part, with nothing in front and something harmless behind.

Harmless is a text that does not go on with a word and starts neither a block nor a
declaration (`Behind`). Which characters go on with a word is known for ASCII only; for
the others it is left open.

Key definitions: `startsBlock`, `startsDeclaration`, `Behind`, `Node.left?`,
`Step.Extends`, `Node.behindLeft`.
Key theorems: `Node.left_induction`, `Node.emit_steps_left`, `Node.extends_left`,
`Node.extends_leftmost`.
-/
import EcmaPrinter.Emit.Program
import EcmaPrinter.Proofs.Layout.Laid
import EcmaPrinter.Proofs.Lexical.Lexer
import EcmaPrinter.Proofs.Tree.Every

namespace EcmaPrinter

open Lexical (isWordPart)

/-! ### The first tokens of a text -/

/-- A text without the layout in front of it. -/
def visible (t : List Char) : List Char := t.dropWhile isLayout

theorem visible_cons_of_isLayout {c : Char} (h : isLayout c = true) (t : List Char) :
    visible (c :: t) = visible t := by
  rw [visible, List.dropWhile_cons, if_pos h, visible]

theorem visible_cons {c : Char} (h : isLayout c = false) (t : List Char) :
    visible (c :: t) = c :: t := by
  rw [visible, List.dropWhile_cons, if_neg (by simp [h])]

/-- A text starts with `{`, layout apart. -/
def startsBlock (t : List Char) : Bool := (visible t).head? == some '\x7b'

section Tokens

variable (isPart : Char → Bool)

/-- A text starts with a word that does not go on. -/
def startsToken (word t : List Char) : Bool :=
  word.isPrefixOf t && !(t.drop word.length).head?.any isPart

/-- A text starts with `function`, `class` or `async function`, layout apart. -/
def startsDeclaration (t : List Char) : Bool :=
  startsToken isPart "function".toList (visible t) || startsToken isPart "class".toList (visible t)
    || (startsToken isPart "async".toList (visible t)
      && startsToken isPart "function".toList (visible ((visible t).drop "async".length)))

/-- A text that starts neither a block nor a declaration. -/
structure Unopened (t : List Char) : Prop where
  block : startsBlock t = false
  declaration : startsDeclaration isPart t = false

/-- A text that may stand behind the first part of an expression. -/
structure Behind (t : List Char) : Prop extends Unopened isPart t where
  word : t.head?.any isPart = false

end Tokens

variable {isPart : Char → Bool}

theorem skipsLayout_startsBlock : SkipsLayout fun t => startsBlock t = false := by
  intro c t hc h
  rwa [startsBlock, visible_cons_of_isLayout hc]

theorem skipsLayout_startsDeclaration :
    SkipsLayout fun t => startsDeclaration isPart t = false := by
  intro c t hc h
  rwa [startsDeclaration, visible_cons_of_isLayout hc]

theorem skipsLayout_unopened : SkipsLayout (Unopened isPart) := fun c t hc h =>
  ⟨skipsLayout_startsBlock c t hc h.block, skipsLayout_startsDeclaration c t hc h.declaration⟩

/-- The characters that words are made of, as far as they are in ASCII. -/
def IsPartOfWord (isPart : Char → Bool) : Prop :=
  ∀ c : Char, c.toNat < 128 → isPart c = isWordPart c

theorem IsPartOfWord.not_isLayout (hpart : IsPartOfWord isPart) {c : Char}
    (h : isLayout c = true) : isPart c = false := by
  obtain rfl | rfl : c = ' ' ∨ c = '\n' := by simpa [isLayout] using h
  · exact (hpart ' ' (by decide)).trans (by decide)
  · exact (hpart '\n' (by decide)).trans (by decide)

theorem skipsLayout_behind (hpart : IsPartOfWord isPart) : SkipsLayout (Behind isPart) :=
  fun c t hc h => ⟨skipsLayout_unopened c t hc h.toUnopened, by simp [hpart.not_isLayout hc]⟩

/-- A character that no block and no declaration starts with. -/
def isUnopened (c : Char) : Bool := !isLayout c && !(['\x7b', 'f', 'c', 'a'].contains c)

theorem startsToken_cons_of_ne {w c : Char} (h : w ≠ c) (word t : List Char) :
    startsToken isPart (w :: word) (c :: t) = false := by
  simp [startsToken, List.isPrefixOf, h]

theorem startsDeclaration_cons {c : Char} (hc : isLayout c = false)
    (h : 'f' ≠ c ∧ 'c' ≠ c ∧ 'a' ≠ c) (t : List Char) :
    startsDeclaration isPart (c :: t) = false := by
  have hf : startsToken isPart "function".toList (c :: t) = false :=
    startsToken_cons_of_ne h.1 "unction".toList t
  have hk : startsToken isPart "class".toList (c :: t) = false :=
    startsToken_cons_of_ne h.2.1 "lass".toList t
  have ha : startsToken isPart "async".toList (c :: t) = false :=
    startsToken_cons_of_ne h.2.2 "sync".toList t
  rw [startsDeclaration, visible_cons hc, hf, hk, ha]
  rfl

theorem startsBlock_cons {c : Char} (hc : isLayout c = false) (t : List Char) :
    startsBlock (c :: t) = (c == '\x7b') := by
  rw [startsBlock, visible_cons hc]
  rfl

theorem Unopened.cons {c : Char} (h : isUnopened c = true) (t : List Char) :
    Unopened isPart (c :: t) := by
  simp only [isUnopened, Bool.and_eq_true, Bool.not_eq_true', List.contains_eq_mem,
    decide_eq_false_iff_not, List.mem_cons, List.not_mem_nil, or_false, not_or] at h
  obtain ⟨hlayout, hbrace, hf, hk, ha⟩ := h
  exact ⟨by simp [startsBlock_cons hlayout, hbrace],
    startsDeclaration_cons hlayout ⟨Ne.symm hf, Ne.symm hk, Ne.symm ha⟩ t⟩

theorem Unopened.text {s : String} (h : s.toList.head?.any isUnopened = true)
    (rest : List Char) : Unopened isPart (s.toList ++ rest) := by
  cases hs : s.toList with
  | nil =>
    rw [hs] at h
    cases h
  | cons c cs =>
    rw [hs] at h
    exact .cons h (cs ++ rest)

/-- A character that may stand behind the first part of an expression. -/
def isSymbol (c : Char) : Bool := isUnopened c && !isWordPart c && c.toNat < 128

theorem Behind.cons (hpart : IsPartOfWord isPart) {c : Char} (h : isSymbol c = true)
    (t : List Char) : Behind isPart (c :: t) := by
  simp only [isSymbol, Bool.and_eq_true, Bool.not_eq_true', decide_eq_true_eq] at h
  exact ⟨.cons h.1.1 t, by simp [hpart c h.2, h.1.2]⟩

/-- Behind layout no word goes on. -/
theorem Behind.of_layout (hpart : IsPartOfWord isPart) {c : Char} (hc : isLayout c = true)
    {t : List Char} (h : Unopened isPart t) : Behind isPart (c :: t) :=
  ⟨skipsLayout_unopened c t hc h, by simp [hpart.not_isLayout hc]⟩

theorem Behind.nil : Behind isPart [] := ⟨⟨rfl, rfl⟩, rfl⟩

namespace Step

variable {P Q : List Char → Prop} {ss : List Step}

/-- A text that starts with a character that opens nothing. -/
theorem Leads.unopened {s : String} (h : s.toList.head?.any isUnopened = true) :
    Leads (Unopened isPart) Q [.text s] :=
  Leads.text skipsLayout_unopened fun rest _ => .text h rest

/-- A text that starts with a symbol. -/
theorem Leads.symbol (hpart : IsPartOfWord isPart) {s : String}
    (h : s.toList.head?.any isSymbol = true) : Leads (Behind isPart) Q [.text s] := by
  refine Leads.text (skipsLayout_behind hpart) fun rest _ => ?_
  cases hs : s.toList with
  | nil =>
    rw [hs] at h
    cases h
  | cons c cs =>
    rw [hs] at h
    exact .cons hpart h (cs ++ rest)

/-- Steps without a text in front. -/
theorem Leads.after {ts : List Step} (h : Leads P Q ts) (hP : SkipsLayout P)
    (hss : ss.flatMap chars = []) : Leads P Q (ss ++ ts) :=
  (Leads.silent hP hss).append h

/-- What stands in front of anything has its start. -/
theorem Leads.before {ts : List Step} (h : Leads P (fun _ => True) ss) : Leads P Q (ss ++ ts) :=
  h.append fun _ _ _ _ => trivial

end Step

/-! ### The first part -/

/-- The part that an expression starts with. -/
def Node.left? : Expr → Option Expr
  | .binary _ _ left _ => some left
  | .conditional _ test _ _ => some test
  | .call _ callee _ _ => some callee
  | .member _ base _ _ => some base
  | .taggedTemplate _ tag _ _ _ => some tag
  | .sequence _ (.cons first _) => some first
  | .update _ _ false operand => some operand
  | .assign _ _ (.exprPattern left) _ => some left
  | .typed .nonNull _ expression _ | .typed .cast _ expression _
  | .typed .asType _ expression _ => some expression
  | _ => none

namespace Node

/-- The expressions that have a first part, with that part. -/
inductive IsLeft : Expr → Expr → Prop where
  | binary {span op left right} : IsLeft (.binary span op left right) left
  | conditional {span test consequent alternate} :
    IsLeft (.conditional span test consequent alternate) test
  | call {span callee arguments typeArguments} :
    IsLeft (.call span callee arguments typeArguments) callee
  | member {span base property isComputed} : IsLeft (.member span base property isComputed) base
  | taggedTemplate {span tag expressions quasis typeParameters} :
    IsLeft (.taggedTemplate span tag expressions quasis typeParameters) tag
  | sequence {span first rest} : IsLeft (.sequence span (.cons first rest)) first
  | update {span op operand} : IsLeft (.update span op false operand) operand
  | assign {span op left value} : IsLeft (.assign span op (.exprPattern left) value) left
  | nonNull {span expression rest} : IsLeft (.typed .nonNull span expression rest) expression
  | cast {span expression rest} : IsLeft (.typed .cast span expression rest) expression
  | asType {span expression rest} : IsLeft (.typed .asType span expression rest) expression

theorem isLeft_of_left? {e left : Expr} (h : e.left? = some left) : IsLeft e left := by
  cases e with
  | binary | conditional | call | member | taggedTemplate =>
    cases h
    constructor
  | sequence _ expressions =>
    cases expressions <;> cases h
    exact .sequence
  | update _ _ isPrefix =>
    cases isPrefix <;> cases h
    exact .update
  | assign _ _ target =>
    cases target <;> cases h
    exact .assign
  | typed form => cases form <;> cases h <;> constructor
  | _ => cases h

theorem leftmost_of_left? {e left : Expr} (h : e.left? = some left) :
    e.leftmost = left.leftmost := by
  cases isLeft_of_left? h <;> rfl

theorem leftmost_of_left?_none {e : Expr} (h : e.left? = none) : e.leftmost = e := by
  cases e with
  | sequence span expressions => cases expressions <;> first | rfl | cases h
  | update span op isPrefix operand => cases isPrefix <;> first | rfl | cases h
  | assign span op target value => cases target <;> first | rfl | cases h
  | typed form span expression rest => cases form <;> first | rfl | cases h
  | _ => first | rfl | cases h

theorem sizeOf_left {e left : Expr} (h : e.left? = some left) : sizeOf left < sizeOf e := by
  cases isLeft_of_left? h
  all_goals simp
  all_goals omega

/-- Induction from the first part of an expression to the whole. -/
theorem left_induction {motive : Expr → Prop} (head : ∀ e : Expr, e.left? = none → motive e)
    (step : ∀ e left : Expr, e.left? = some left → motive left → motive e) (e : Expr) :
    motive e :=
  match h : e.left? with
  | none => head e h
  | some left => step e left h (left_induction head step left)
termination_by sizeOf e
decreasing_by exact sizeOf_left h

theorem left?_leftmost (e : Expr) : e.leftmost.left? = none := by
  induction e using left_induction with
  | head e h => rwa [leftmost_of_left?_none h]
  | step e left h ih => rwa [leftmost_of_left? h]

/-- What each expression passes on to its first part gets to the leftmost one. -/
theorem leftmost_of_step {P : Expr → Prop}
    (step : ∀ {e left : Expr}, e.left? = some left → P e → P left) (e : Expr) (h : P e) :
    P e.leftmost := by
  induction e using left_induction with
  | head e hleft => rwa [leftmost_of_left?_none hleft]
  | step e left hleft ih =>
    rw [leftmost_of_left? hleft]
    exact ih (step hleft h)

theorem every_left {test : {c : Category} → Node c → Bool} {e left : Expr}
    (h : e.left? = some left) (he : e.every test = true) : left.every test = true := by
  cases isLeft_of_left? h
  all_goals
    dsimp! only at he
    simp only [Bool.and_eq_true] at he
    simp only [he]

theorem every_leftmost {test : {c : Category} → Node c → Bool} (e : Expr)
    (he : e.every test = true) : e.leftmost.every test = true :=
  @leftmost_of_step (fun e => e.every test = true) every_left e he

end Node

/-! ### The text of the first part -/

namespace Step

/-- A step that leaves the writer as it is, comments apart. -/
def isIdle : Step → Bool
  | .text s => s.isEmpty
  | .mark _ | .comments _ | .fail _ => true
  | .softSpace | .softLine | .compactLine | .enter | .leave => false

theorem chars_of_isIdle {ss : List Step} (h : ss.all isIdle = true) :
    ss.flatMap chars = [] := by
  rw [List.flatMap_eq_nil_iff]
  intro s hs
  have hsilent := List.all_eq_true.mp h s hs
  cases s with
  | text s => rw [chars, String.isEmpty_iff.mp hsilent]; rfl
  | _ => rfl

/-- Some steps with nothing written in front of them and something harmless behind. -/
def Extends (isPart : Char → Bool) (ss inner : List Step) : Prop :=
  ∃ before after, ss = before ++ inner ++ after ∧ before.flatMap chars = [] ∧
    Leads (Behind isPart) (Behind isPart) after

namespace Extends

variable {ss ts us : List Step}

theorem refl (hpart : IsPartOfWord isPart) (ss : List Step) : Extends isPart ss ss :=
  ⟨[], [], by simp, rfl, Leads.silent (skipsLayout_behind hpart) rfl⟩

theorem trans (h : Extends isPart ss ts) (h' : Extends isPart ts us) : Extends isPart ss us := by
  obtain ⟨before, after, rfl, hbefore, hafter⟩ := h
  obtain ⟨before', after', rfl, hbefore', hafter'⟩ := h'
  refine ⟨before ++ before', after' ++ after, by simp, ?_, hafter'.append hafter⟩
  rw [List.flatMap_append, hbefore, hbefore']
  rfl

/-- What the inner steps start with. -/
theorem leads {P : List Char → Prop} (hP : SkipsLayout P) (h : Extends isPart ss ts)
    (hts : Leads P (Behind isPart) ts) : Leads P (Behind isPart) ss := by
  obtain ⟨before, after, rfl, hbefore, hafter⟩ := h
  exact ((Leads.silent hP hbefore).append hts).append hafter

end Extends

end Step

namespace Doc

open Step

variable {Q : List Char → Prop}

theorem silent_reject (b : Bool) (kind : NodeKind) :
    (reject b kind).steps.flatMap Step.chars = [] := by
  cases b <;> rfl

theorem silent_check (b : Bool) (e : EmitError) : (check b e).steps.flatMap Step.chars = [] := by
  cases b <;> rfl

theorem leads_list {P : List Char → Prop} {f : ListFormat} (parent : Span) (items : List Item)
    (hb : Leads P (fun _ => True) [.text (f.brackets.opening.getD "")])
    (ho : f.isOptionalIfEmpty = false) : Leads P Q (list parent f items).steps := by
  rw [list, ho, Bool.and_false, if_neg (by decide), steps_append, steps_append, List.append_assoc]
  exact hb.before

/-- Items with commas between them start with the first one. -/
theorem steps_commaList (parent : Span) (first : Item) (rest : List Item) :
    (list parent ListFormat.commaListElements (first :: rest)).steps =
      (Doc.text "" ++ Doc.comments first.span).steps ++ first.doc.steps
        ++ (listTail ListFormat.commaListElements first.span rest ++ Doc.text "").steps := by
  change [Step.text ""] ++ ([] ++ ([.comments first.span] ++ first.doc.steps
    ++ (listTail ListFormat.commaListElements first.span rest).steps) ++ []) ++ [Step.text ""] = _
  simp [steps]

/-- Items behind others stand behind a comma. -/
theorem behind_listTail (hpart : IsPartOfWord isPart) (previous : Span) (items : List Item) :
    Leads (Behind isPart) (Behind isPart)
      (listTail ListFormat.commaListElements previous items).steps := by
  cases items with
  | nil => exact Leads.silent (skipsLayout_behind hpart) rfl
  | cons item items =>
    rw [listTail, steps_append, steps_append, steps_append, List.append_assoc, List.append_assoc]
    exact (Leads.symbol hpart (by decide)).before

end Doc

namespace Emit

open Doc Step

variable {Q : List Char → Prop}

theorem behind_assignedValue (hpart : IsPartOfWord isPart) {sign : String} (value : Doc)
    (h : sign.toList.head?.any isSymbol = true) :
    Leads (Behind isPart) Q (assignedValue sign value).steps := by
  rw [assignedValue, steps_append, steps_append]
  exact ((Leads.symbol hpart h).after (skipsLayout_behind hpart) rfl).before.before

/-- A binary operator: a word stands behind a blank. -/
theorem behind_binaryOp (hpart : IsPartOfWord isPart) (op : BinaryOp) (left : Expr) :
    Leads (Behind isPart) Q (spaceIf (spaceBeforeBinary op left) ++ .text op.text).steps := by
  rw [steps_append]
  cases hspace : spaceBeforeBinary op left with
  | true =>
    have hblank : Leads (Behind isPart) (Unopened isPart) (spaceIf true).steps :=
      Leads.text (skipsLayout_behind hpart) fun _ h => .of_layout hpart rfl h
    exact hblank.append (Leads.unopened (by cases op <;> decide))
  | false =>
    have hop : op.isKeyword = false := by
      rw [Bool.eq_false_iff]
      intro hop
      rw [spaceBeforeBinary_of_isKeyword hop] at hspace
      cases hspace
    exact (Leads.symbol hpart (by cases op <;> first | decide | cases hop)).after
      (skipsLayout_behind hpart) rfl

theorem behind_template (hpart : IsPartOfWord isPart) (quasis : List Quasi) (items : List Item) :
    Leads (Behind isPart) Q (template quasis items).steps := by
  rw [template, steps_append, steps_append, steps_append]
  exact ((Leads.symbol hpart (by decide)).after (skipsLayout_behind hpart)
    (silent_check _ _)).before.before

/-- The dot or bracket behind an object. -/
theorem behind_property (hpart : IsPartOfWord isPart) (object property : Expr)
    (isComputed : Bool) (doc : Doc) :
    Leads (Behind isPart) Q (if isComputed then between "[" "]" doc
      else when (isWholeNumeral object) "." ++ "." ++ dotted property).steps := by
  have hdot : Leads (Behind isPart) (fun _ => True) [.text "."] := Leads.symbol hpart (by decide)
  cases isComputed with
  | true =>
    rw [if_pos rfl, between, steps_append, steps_append, List.append_assoc]
    exact (Leads.symbol hpart (by decide)).before
  | false =>
    rw [if_neg (by decide), steps_append, steps_append]
    cases isWholeNumeral object with
    | true => exact hdot.before.before
    | false => exact hdot.before

end Emit

namespace Node

open Doc Step Emit

/-- What an expression writes behind its first part. -/
def behindLeft : Expr → Doc
  | .binary _ op left right =>
    spaceIf (spaceBeforeBinary op left) ++ .text op.text
      ++ (spaceIf (spaceAfterBinary op right) ++ right.emit)
  | .conditional _ _ consequent alternate =>
    assignedValue "?" consequent.emit ++ assignedValue ":" alternate.emit
  | .call span _ arguments _ => list span ListFormat.callExpressionArguments arguments.items
  | .member _ base property isComputed =>
    if isComputed then between "[" "]" property.emit
    else when (isWholeNumeral base) "." ++ "." ++ dotted property
  | .taggedTemplate _ _ expressions quasis _ => Emit.template quasis expressions.items
  | .sequence _ (.cons first others) =>
    listTail ListFormat.commaListElements first.span others.items ++ ""
  | .update _ op false _ => .text op.text
  | .assign _ op (.exprPattern _) value => assignedValue op.text value.emit
  | _ => .empty

/-- **An expression is its first part with nothing written in front** and the rest behind. -/
theorem emit_steps_left {e left : Expr} (h : e.left? = some left) (hf : e.emit.failure? = none) :
    ∃ before, before.all isIdle = true ∧
      e.emit.steps = before ++ left.emit.steps ++ e.behindLeft.steps := by
  have starting (before : Doc) (hbefore : before.steps.all isIdle = true)
      (hsteps : e.emit.steps = before.steps ++ left.emit.steps ++ e.behindLeft.steps) :
      ∃ before, before.all isIdle = true ∧
        e.emit.steps = before ++ left.emit.steps ++ e.behindLeft.steps :=
    ⟨before.steps, hbefore, hsteps⟩
  cases isLeft_of_left? h with
  | @binary span | @conditional span | @update span =>
    refine starting (.mark span) rfl ?_
    dsimp! only
    simp [Doc.steps]
  | @member span =>
    refine starting (.mark span) rfl ?_
    dsimp! only
    simp [Doc.steps, Emit.member]
  -- type arguments are refused in front of the first part, and a refusal is idle as well
  | @call span _ _ typeArguments =>
    refine starting (.mark span ++ reject typeArguments.isSome .tsTypeParameterInstantiation)
      (by cases typeArguments <;> rfl) ?_
    dsimp! only
    simp [Doc.steps]
  | @taggedTemplate span _ _ _ typeParameters =>
    refine starting (.mark span ++ reject typeParameters.isSome .tsTypeParameterInstantiation)
      (by cases typeParameters <;> rfl) ?_
    dsimp! only
    simp [Doc.steps]
  | @sequence span =>
    refine starting (.mark span ++ ("" ++ .comments left.span)) rfl ?_
    dsimp! only
    rw [steps_append, steps_commaList]
    simp
  | @assign span =>
    refine starting (.mark span ++ .mark left.span) rfl ?_
    dsimp! only
    simp [Doc.steps]
  | nonNull | cast | asType => cases hf

/-- Where an expression prints, its first part prints. -/
theorem failure?_left {e left : Expr} (h : e.left? = some left) (hf : e.emit.failure? = none) :
    left.emit.failure? = none := by
  obtain ⟨before, -, hsteps⟩ := emit_steps_left h hf
  rw [failure?_eq_steps, hsteps, Step.failure?_append, Step.failure?_append,
    Option.or_eq_none_iff, Option.or_eq_none_iff] at hf
  rw [failure?_eq_steps]
  exact hf.1.2

/-- Where an expression prints, the leftmost expression inside it prints. -/
theorem failure?_leftmost {e : Expr} (hf : e.emit.failure? = none) :
    e.leftmost.emit.failure? = none :=
  @leftmost_of_step (fun e => e.emit.failure? = none) failure?_left e hf

/-- What stands behind the first part of an expression is harmless. -/
theorem leads_behindLeft (hpart : IsPartOfWord isPart) {e left : Expr} (h : e.left? = some left) :
    Leads (Behind isPart) (Behind isPart) e.behindLeft.steps := by
  cases isLeft_of_left? h with
  | @binary _ op => exact (behind_binaryOp hpart op left).before
  | conditional => exact (behind_assignedValue hpart _ (by decide)).before
  | call => exact leads_list _ _ (Leads.symbol hpart (by decide)) rfl
  | @member _ _ property isComputed =>
    exact behind_property hpart left property isComputed property.emit
  | taggedTemplate => exact behind_template hpart _ _
  | sequence =>
    have hblank : Leads (Behind isPart) (Behind isPart) [.text ""] :=
      Leads.silent (skipsLayout_behind hpart) rfl
    exact (behind_listTail hpart _ _).append hblank
  | @update _ op => exact Leads.symbol hpart (by cases op <;> decide)
  | @assign _ op => exact behind_assignedValue hpart _ (by cases op <;> decide)
  | nonNull | cast | asType => exact Leads.silent (skipsLayout_behind hpart) rfl

/-- **The text of an expression starts with that of its first part.** -/
theorem extends_left (hpart : IsPartOfWord isPart) {e left : Expr} (h : e.left? = some left)
    (hf : e.emit.failure? = none) : Extends isPart e.emit.steps left.emit.steps := by
  obtain ⟨before, hbefore, hsteps⟩ := emit_steps_left h hf
  exact ⟨before, e.behindLeft.steps, hsteps, chars_of_isIdle hbefore, leads_behindLeft hpart h⟩

/-- **The text of an expression starts with that of the leftmost expression inside it.** -/
theorem extends_leftmost (hpart : IsPartOfWord isPart) (e : Expr) (hf : e.emit.failure? = none) :
    Extends isPart e.emit.steps e.leftmost.emit.steps := by
  -- that a part prints is carried along, since only then its text starts with its own first part
  let inside (inner : Expr) : Prop :=
    inner.emit.failure? = none ∧ Extends isPart e.emit.steps inner.emit.steps
  have hinside : inside e.leftmost := leftmost_of_step (fun hleft ⟨hinner, hext⟩ =>
    ⟨failure?_left hleft hinner, hext.trans (extends_left hpart hleft hinner)⟩) e ⟨hf, .refl hpart _⟩
  exact hinside.2

end Node

end EcmaPrinter
