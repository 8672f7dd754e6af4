/-
# Signs and dots that meet

A sign written right in front of the same sign makes another operator, and a dot right
behind digits a decimal point. Compact text has a blank, or a second dot, where this is
seen to happen. Three different looks are taken for it: a unary operator looks at its
operand alone, a binary one at the leftmost expression of its right operand, and a member
at whether its object is written in digits only.

What a compact text starts with is what its leftmost expression starts with
(`Node.heads_emit`), which is a sign for a unary operator, an update in front of its
operand, and a negative number. So what each look misses can be told exactly
(`signs_meet_iff`): a unary operator misses signs deeper in its operand and all negative
numbers, a minus between operands negative numbers, and a member of a negative whole
number has a single dot.

Names are not empty and start with no sign, and every expression has something to write
(`Node.hasStart`).

Key definitions: `Doc.code`, `Node.sign?`, `Node.hasStart`.
Key theorems: `Node.heads_emit`, `signs_meet_iff`.
-/
import EcmaPrinter.Proofs.Emit.Openings
import EcmaPrinter.Proofs.Emit.Reprint

namespace EcmaPrinter

open Lexical (isWordPart)
open Doc Step

/-! ### Compact text -/

namespace Doc

/-- The texts of a document. -/
def code (d : Doc) : List Char := d.steps.flatMap Step.chars

@[simp] theorem code_append (a b : Doc) : (a ++ b).code = a.code ++ b.code := by
  rw [code, steps_append, List.flatMap_append]
  rfl

@[simp] theorem code_empty : empty.code = [] := rfl

@[simp] theorem code_text (s : String) : (text s).code = s.toList :=
  List.append_nil _

@[simp] theorem code_mark (span : Span) : (mark span).code = [] := rfl

@[simp] theorem code_softSpace : softSpace.code = [] := rfl

@[simp] theorem code_spaceIf (b : Bool) : (spaceIf b).code = if b then [' '] else [] := by
  cases b <;> rfl

@[simp] theorem code_when (b : Bool) (d : Doc) : (when b d).code = if b then d.code else [] := by
  cases b <;> rfl

@[simp] theorem code_check (b : Bool) (e : EmitError) : (check b e).code = [] := silent_check b e

@[simp] theorem code_reject (b : Bool) (kind : NodeKind) : (reject b kind).code = [] :=
  silent_reject b kind

/-- Only the first line of a program breaks a line for compact text. -/
theorem compactChars_eq_code : ∀ d : Doc, d.all isModeFree = true →
    d.steps.flatMap compactChars = d.code
  | .empty, _ | .text _, _ | .softSpace, _ | .softLine, _ | .mark _, _ | .comments _, _
  | .fail _, _ => rfl
  | .compactLine, h => nomatch h
  | .nest body, h => by
    have ih := compactChars_eq_code body h
    simp only [steps, code, compactChars, Step.chars, List.flatMap_cons,
      List.flatMap_append] at ih ⊢
    rw [ih]
    rfl
  | .append a b, h => by
    obtain ⟨ha, hb⟩ := Bool.and_eq_true_iff.mp h
    change (a.steps ++ b.steps).flatMap compactChars = (a ++ b).code
    rw [List.flatMap_append, compactChars_eq_code a ha, compactChars_eq_code b hb, code_append]

end Doc

/-- **A compact run of a node adds the texts of its document.** -/
theorem Node.run_code {c : Category} (n : Node c) {p : Printer} (hp : p.writer.isPretty = false)
    (hprints : n.emit.failure? = none) :
    (n.emit.run p).1.output.toList = p.output.toList ++ n.emit.code := by
  rw [run_compact n.emit p hp, chars_steps n.emit hprints, compactChars_eq_code _ n.emit_modeFree]

/-! ### The first sign -/

/-- The sign that a character is. -/
def signOf (c : Char) : Option Char := if c = '+' ∨ c = '-' then some c else none

theorem signOf_of_isDigit {c : Char} (h : c.isDigit = true) : signOf c = none := by
  simpa using @Lexical.test_of_isDigit (fun d => (signOf d).isNone) (by decide) c h

namespace Doc

variable {d : Doc} {sign : Option Char}

/-- The first character of a document is a certain sign, or none. -/
def Heads (d : Doc) (sign : Option Char) : Prop := ∃ c cs, d.code = c :: cs ∧ signOf c = sign

/-- The first character is that of what is written first. -/
theorem heads_of_opens {o : Opening} (h : o.Opens isWordPart d.steps)
    (hgrants : o.Grants (fun t => t.head?.map signOf = some sign) (Behind isWordPart)) :
    d.Heads sign := by
  have hhead := h.chars hgrants .nil
  rw [List.append_nil] at hhead
  change d.code.head?.map signOf = some sign at hhead
  rw [Heads]
  cases hcode : d.code with
  | nil =>
    rw [hcode] at hhead
    cases hhead
  | cons c cs =>
    rw [hcode] at hhead
    exact ⟨c, cs, rfl, Option.some.inj hhead⟩

end Doc

/-- A text that starts with a certain sign, or with none. -/
theorem Opening.grants_text {s : String} {sign : Option Char}
    (h : s.toList.head?.map signOf = some sign) {Q : List Char → Prop} :
    (Opening.text s).Grants (fun t => t.head?.map signOf = some sign) Q := by
  intro rest
  cases hs : s.toList with
  | nil =>
    rw [hs] at h
    cases h
  | cons c cs =>
    rw [hs] at h
    exact h

namespace Node

open Emit

/-- The sign that an expression without a first part starts with. -/
def sign? : Expr → Option Char
  | .unary _ .plus _ | .update _ .increment true _ => some '+'
  | .unary _ .minus _ | .update _ .decrement true _ => some '-'
  | .num literal => if literal.value.isNegative && !literal.value.isNaN then some '-' else none
  | _ => none

theorem sign?_num_eq (literal : NumberLit) : sign? (.num literal) =
    if literal.value.isNegative && !literal.value.isNaN then some '-' else none := rfl

/-- Names start with something that is no sign, sequences have an expression, no expression
is the empty one of JSX, and nothing is assigned to a pattern with a default. -/
def hasStart : {c : Category} → Node c → Bool
  | _, .ident name | _, .identPattern name | _, .metaProperty _ name _ =>
    name.name.toList.head?.any fun c => (signOf c).isNone
  | _, .sequence _ expressions => !expressions.isEmpty
  | _, .jsxEmpty _ => false
  | _, .assign _ _ (.defaultPattern _ _ _ _) _ => false
  | _, _ => true

/-- **What an expression without a first part starts with.** -/
theorem heads_of_left?_none {e : Expr} (hleft : e.left? = none)
    (hprints : e.emit.failure? = none) (hstart : e.every hasStart = true) :
    e.emit.Heads e.sign? := by
  refine heads_of_opens (e.opens (fun _ _ => rfl)) ?_
  have token {s : String} {sign : Option Char} (h : s.toList.head?.map signOf = some sign) :
      (Opening.text s).Grants (fun t => t.head?.map signOf = some sign) (Behind isWordPart) :=
    Opening.grants_text h
  have unsigned {s : String} (h : (s.toList.head?.any fun c => (signOf c).isNone) = true) :
      (Opening.text s).Grants (fun t => t.head?.map signOf = some none) (Behind isWordPart) := by
    rw [Option.any_eq_true] at h
    obtain ⟨c, hc, hnone⟩ := h
    exact token (by rw [hc, Option.map_some, Option.isNone_iff_eq_none.mp hnone])
  cases e with
  | ident name => exact fun rest _ => unsigned hstart rest
  | metaProperty span target property => exact fun rest _ => unsigned hstart rest
  | bool span value => cases value <;> exact fun _ _ => rfl
  | str literal => exact unsigned (Lexical.head_quoted (by decide) _)
  | num literal =>
    obtain ⟨c, cs, htext, hc⟩ := numeral_head literal.value
    refine token ?_
    rw [htext, List.head?_cons, Option.map_some, sign?_num_eq]
    split at hc
    · rename_i hsign
      rw [if_pos hsign, hc]
      rfl
    · rename_i hsign
      rw [if_neg hsign]
      rcases hc with hdigit | rfl | rfl
      · rw [signOf_of_isDigit hdigit]
      · rfl
      · rfl
  | functionLit f =>
    cases f with
    | functionExpr name f =>
      dsimp! only
      cases Emit.isAsync f <;> exact token rfl
  | arrow span params body isAsync isGenerator typeParameters returnType =>
    cases isAsync with
    | true => exact fun _ _ => rfl
    | false => exact token rfl
  | unary span op operand => cases op <;> exact token rfl
  | update span op isPrefix operand =>
    cases isPrefix with
    | true => cases op <;> exact token rfl
    | false => cases hleft
  | assign span op target value =>
    obtain ⟨hassign, htarget, -⟩ := every_assign.mp hstart
    cases target with
    | identPattern name => exact fun rest _ => unsigned htarget rest
    | arrayPattern | restPattern | objectPattern => exact token rfl
    | defaultPattern => cases hassign
    | exprPattern => cases hleft
  | sequence span expressions =>
    cases expressions with
    | nil => cases hstart
    | cons first rest => cases hleft
  | jsxEmpty span => cases hstart
  | binary | member | conditional | call | taggedTemplate => cases hleft
  | jsxMemberExpr | jsxNamespaced | jsxElementExpr | jsxFragmentExpr | jsxTextExpr | typed =>
    cases hprints
  | this | superRef | null | regex | template | array | object | paren | privateName | classLit
  | new | newBare | yield | await => exact token rfl

/-- Compact text of an expression starts with that of its leftmost expression. -/
theorem code_leftmost {e : Expr} (hprints : e.emit.failure? = none) :
    ∃ rest, e.emit.code = e.leftmost.emit.code ++ rest := by
  have hext : Extends isWordPart e.emit.steps e.leftmost.emit.steps :=
    extends_leftmost (fun _ _ => rfl) e hprints
  obtain ⟨before, after, hsteps, hbefore, -⟩ := hext
  refine ⟨after.flatMap Step.chars, ?_⟩
  rw [code, hsteps, List.flatMap_append, List.flatMap_append, hbefore]
  rfl

/-- **What a compact expression starts with** is the sign of its leftmost expression, or
none. -/
theorem heads_emit {e : Expr} (hprints : e.emit.failure? = none)
    (hstart : e.every hasStart = true) : e.emit.Heads e.leftmost.sign? := by
  obtain ⟨c, cs, hcode, hc⟩ :=
    heads_of_left?_none (left?_leftmost e) (failure?_leftmost hprints) (every_leftmost e hstart)
  obtain ⟨rest, hrest⟩ := code_leftmost hprints
  exact ⟨c, cs ++ rest, by rw [hrest, hcode, List.cons_append], hc⟩

end Node

/-! ### Where signs meet -/

/-- Behind an optional blank stands a sign if there is no blank and the document starts with
that sign. -/
theorem Doc.Heads.meets {d : Doc} {sign : Option Char} (h : d.Heads sign) {c : Char}
    (hc : signOf c = some c) (isSpaced : Bool) :
    ((if isSpaced then [' '] else []) ++ d.code).head? = some c ↔
      sign = some c ∧ isSpaced = false := by
  obtain ⟨c', cs, hcode, rfl⟩ := h
  have hblank : ' ' ≠ c := by
    rintro rfl
    cases hc
  cases isSpaced with
  | true => simp [hblank]
  | false =>
    rw [if_neg (by decide), List.nil_append, hcode, List.head?_cons, Option.some_inj]
    constructor
    · rintro rfl
      exact ⟨hc, rfl⟩
    · rintro ⟨hsign, -⟩
      unfold signOf at hsign
      split at hsign
      · exact Option.some.inj hsign
      · cases hsign

/-- The operators that are signs. -/
theorem UnaryOp.sign_text {op : UnaryOp} (h : op = .plus ∨ op = .minus) :
    ∃ c, op.text.toList = [c] ∧ signOf c = some c ∧ op.isKeyword = false := by
  rcases h with rfl | rfl <;> exact ⟨_, rfl, rfl, rfl⟩

theorem BinaryOp.sign_text {op : BinaryOp} (h : op = .add ∨ op = .sub) :
    ∃ c, op.text.toList = [c] ∧ signOf c = some c ∧ op.isKeyword = false := by
  rcases h with rfl | rfl <;> exact ⟨_, rfl, rfl, rfl⟩

theorem continuesSign_of_left? {sign : UnaryOp} {double : UpdateOp} {e left : Expr}
    (h : e.left? = some left) : continuesSign sign double e = false := by
  cases Node.isLeft_of_left? h <;> rfl

/-- A unary operator has no blank behind it where its sign stands deeper in the operand or
belongs to a number. -/
theorem spaceBeforeOperand_of_sign {op : UnaryOp} (hop : op = .plus ∨ op = .minus) {operand : Expr}
    (hsign : operand.leftmost.sign? = op.text.toList.head?) :
    spaceBeforeOperand op operand = false ↔
      operand.left?.isSome = true ∨ ∃ literal, operand = .num literal := by
  cases hleft : operand.left? with
  | some left =>
    have hcontinues (sign : UnaryOp) (double : UpdateOp) :
        continuesSign sign double operand = false := continuesSign_of_left? hleft
    rcases hop with rfl | rfl <;> simp [spaceBeforeOperand, hcontinues]
  | none =>
    rw [Node.leftmost_of_left?_none hleft] at hsign
    cases operand with
    | unary span op' operand =>
      have hblank : spaceBeforeOperand op (.unary span op' operand) = true := by
        rcases hop with rfl | rfl <;> cases op' <;> first | rfl | cases hsign
      simp [hblank]
    | update span op' isPrefix operand =>
      have hblank : spaceBeforeOperand op (.update span op' isPrefix operand) = true := by
        rcases hop with rfl | rfl <;> cases op' <;> cases isPrefix <;> first | rfl | cases hsign
      simp [hblank]
    | num literal =>
      have hblank : spaceBeforeOperand op (.num literal) = false := by
        rcases hop with rfl | rfl <;> rfl
      simp [hblank]
    | _ => rcases hop with rfl | rfl <;> cases hsign

/-- A plus or minus between operands has no blank behind it where its sign belongs to a
number. -/
theorem spaceAfterBinary_of_sign {op : BinaryOp} (hop : op = .add ∨ op = .sub) {right : Expr}
    (hsign : right.leftmost.sign? = op.text.toList.head?) :
    spaceAfterBinary op right = false ↔ ∃ literal, right.leftmost = .num literal := by
  unfold spaceAfterBinary
  generalize right.leftmost = first at hsign ⊢
  cases first with
  | unary span op' operand =>
    rcases hop with rfl | rfl <;> cases op' <;> cases hsign <;>
      simp [BinaryOp.text, BinaryOp.isKeyword]
  | update span op' isPrefix operand =>
    rcases hop with rfl | rfl <;> cases op' <;> cases isPrefix <;> cases hsign <;>
      simp [BinaryOp.isKeyword]
  | num literal => rcases hop with rfl | rfl <;> exact iff_of_true rfl ⟨literal, rfl⟩
  | _ => rcases hop with rfl | rfl <;> cases hsign

/-- The sign of a number is a minus sign. -/
theorem sign?_num {op : BinaryOp} (hop : op = .add ∨ op = .sub) {e : Expr} :
    (e.sign? = op.text.toList.head? ∧ ∃ literal, e = .num literal) ↔
      op = .sub ∧ ∃ literal, e = .num literal ∧
        (literal.value.isNegative && !literal.value.isNaN) = true := by
  constructor
  · rintro ⟨hsign, literal, rfl⟩
    rw [Node.sign?_num_eq] at hsign
    split at hsign
    · rename_i hnegative
      rcases hop with rfl | rfl
      · cases hsign
      · exact ⟨rfl, literal, rfl, hnegative⟩
    · rcases hop with rfl | rfl <;> cases hsign
  · rintro ⟨rfl, literal, rfl, hnegative⟩
    exact ⟨by rw [Node.sign?_num_eq, if_pos hnegative]; rfl, literal, rfl⟩

/-- Digits, with a minus sign in front of them or not. -/
def isSignedWhole : List Char → Bool
  | '-' :: ds => !ds.isEmpty && ds.all Char.isDigit
  | ds => !ds.isEmpty && ds.all Char.isDigit

theorem isNegative_of_isWholeNumeral {literal : NumberLit} (hfinite : literal.value.isFinite = true)
    (h : Emit.isWholeNumeral (.num literal) = true) : literal.value.isNegative = false := by
  have hnan : literal.value.isNaN = false := by
    rw [Binary64.isFinite, bne_iff_ne] at hfinite
    simp [Binary64.isNaN, hfinite]
  obtain ⟨c, cs, htext, hc⟩ := numeral_head literal.value
  rw [Emit.isWholeNumeral_num, htext, List.all_cons, Bool.and_eq_true] at h
  cases hsign : literal.value.isNegative with
  | false => rfl
  | true =>
    rw [hsign, hnan] at hc
    obtain rfl : c = '-' := hc
    exact absurd h.1 (by decide)

/-- What is written in digits behind an optional sign, but not in digits only, has the sign. -/
theorem isNegative_of_isSignedWhole {literal : NumberLit}
    (h : Emit.isWholeNumeral (.num literal) = false)
    (hsigned : isSignedWhole (numeral literal.value).toList = true) :
    literal.value.isNegative = true := by
  obtain ⟨c, cs, htext, hc⟩ := numeral_head literal.value
  rw [Emit.isWholeNumeral_num, htext] at h
  rw [htext] at hsigned
  by_contra hsign
  rw [Bool.not_eq_true] at hsign
  rw [hsign, Bool.false_and, if_neg (by decide)] at hc
  have hne : c ≠ '-' := by
    rintro rfl
    exact absurd hc (by decide)
  rw [isSignedWhole, h, Bool.and_false] at hsigned
  · cases hsigned
  · exact fun _ heq => hne (List.cons.inj heq).1

section

variable {p : Printer} (hp : p.writer.isPretty = false)
include hp

/-- **A sign meets the same sign of its operand** where that stands deeper in the operand or
belongs to a number. -/
theorem Node.unary_sign_meets (span : Span) {op : UnaryOp} (hop : op = .plus ∨ op = .minus)
    {operand : Expr} (hprints : operand.emit.failure? = none)
    (hstart : operand.every Node.hasStart = true) :
    ((Node.unary span op operand).emit.run p).2 = none ∧
      ∃ behind, ((Node.unary span op operand).emit.run p).1.output.toList =
          p.output.toList ++ op.text.toList ++ behind ∧
        (behind.head? = op.text.toList.head? ↔
          operand.leftmost.sign? = op.text.toList.head? ∧
            (operand.left?.isSome = true ∨ ∃ literal, operand = .num literal)) := by
  obtain ⟨c, htext, hc, hkeyword⟩ := UnaryOp.sign_text hop
  have hd : (Node.unary span op operand).emit.failure? = none := by
    dsimp! only
    cases spaceBeforeOperand op operand <;>
      simp [Doc.failure?, hprints, hkeyword, Doc.space, when]
  have hcode : (Node.unary span op operand).emit.code = op.text.toList ++
      ((if spaceBeforeOperand op operand then [' '] else []) ++ operand.emit.code) := by
    dsimp! only
    cases spaceBeforeOperand op operand <;> simp [hkeyword, Doc.space]
  refine ⟨(Doc.run_failure _ p).trans hd,
    (if spaceBeforeOperand op operand then [' '] else []) ++ operand.emit.code, ?_, ?_⟩
  · rw [Node.run_code _ hp hd, hcode, ← List.append_assoc]
  · have hmeets := (Node.heads_emit hprints hstart).meets hc (spaceBeforeOperand op operand)
    rw [htext, List.head?_cons, hmeets]
    refine and_congr_right fun hsign => spaceBeforeOperand_of_sign hop ?_
    rw [htext, hsign, List.head?_cons]

/-- **A plus or minus between operands meets its sign** where that belongs to a number. -/
theorem Node.binary_sign_meets (span : Span) {op : BinaryOp} (hop : op = .add ∨ op = .sub)
    {left right : Expr} (hleft : left.emit.failure? = none) (hright : right.emit.failure? = none)
    (hstart : right.every Node.hasStart = true) :
    ((Node.binary span op left right).emit.run p).2 = none ∧
      ∃ gap behind, ((Node.binary span op left right).emit.run p).1.output.toList =
          (left.emit.run p).1.output.toList ++ gap ++ op.text.toList ++ behind ∧
        gap.all isLayout = true ∧
        (behind.head? = op.text.toList.head? ↔
          op = .sub ∧ ∃ literal, right.leftmost = .num literal ∧
            (literal.value.isNegative && !literal.value.isNaN) = true) := by
  obtain ⟨c, htext, hc, hkeyword⟩ := BinaryOp.sign_text hop
  have hd : (Node.binary span op left right).emit.failure? = none := by
    dsimp! only
    cases spaceBeforeBinary op left <;> cases spaceAfterBinary op right <;>
      simp [Doc.failure?, hleft, hright, Doc.space, spaceIf]
  have hcode : (Node.binary span op left right).emit.code = left.emit.code ++
      (if spaceBeforeBinary op left then [' '] else []) ++ op.text.toList ++
        ((if spaceAfterBinary op right then [' '] else []) ++ right.emit.code) := by
    dsimp! only
    simp
  refine ⟨(Doc.run_failure _ p).trans hd, if spaceBeforeBinary op left then [' '] else [],
    (if spaceAfterBinary op right then [' '] else []) ++ right.emit.code, ?_, ?_, ?_⟩
  · rw [Node.run_code _ hp hd, Node.run_code _ hp hleft, hcode]
    simp
  · cases spaceBeforeBinary op left <;> rfl
  · have hmeets := (Node.heads_emit hright hstart).meets hc (spaceAfterBinary op right)
    rw [← sign?_num hop, htext, List.head?_cons, hmeets]
    refine and_congr_right fun hsign => spaceAfterBinary_of_sign hop ?_
    rw [htext, hsign, List.head?_cons]

/-- **A dot meets the digits of its object** where these have a minus sign in front. -/
theorem Node.member_dot_meets (span : Span) {literal : NumberLit} {name : Ident}
    (hname : name.typing = none) (hfinite : literal.value.isFinite = true) :
    ((Node.member span (.num literal) (.ident name) false).emit.run p).2 = none ∧
      ∃ dots, ((Node.member span (.num literal) (.ident name) false).emit.run p).1.output.toList =
          p.output.toList ++ (numeral literal.value).toList ++ dots ++ (Emit.ident name).code ∧
        (dots = ".".toList ∨ dots = "..".toList) ∧
        (dots = ".".toList ∧ isSignedWhole (numeral literal.value).toList = true ↔
          literal.value.isNegative = true ∧
            isSignedWhole (numeral literal.value).toList = true) := by
  have hd : (Node.member span (.num literal) (.ident name) false).emit.failure? = none := by
    dsimp! only
    cases hwhole : Emit.isWholeNumeral (.num literal) <;> cases hoptional : name.isOptional <;>
      simp [Emit.member, Emit.dotted_ident, Emit.ident, Emit.num, Doc.failure?, hname, reject, check,
        when, hwhole, hoptional]
  cases hwhole : Emit.isWholeNumeral (.num literal) with
  | true =>
    refine ⟨(Doc.run_failure _ p).trans hd, "..".toList, ?_, .inr rfl, ?_⟩
    · rw [Node.run_code _ hp hd]
      dsimp! only
      simp [Emit.member, Emit.dotted_ident, Emit.num, hwhole]
    · have hsign := isNegative_of_isWholeNumeral hfinite hwhole
      simp [hsign]
  | false =>
    refine ⟨(Doc.run_failure _ p).trans hd, ".".toList, ?_, .inl rfl, ?_⟩
    · rw [Node.run_code _ hp hd]
      dsimp! only
      simp [Emit.member, Emit.dotted_ident, Emit.num, hwhole]
    · have hsign := @isNegative_of_isSignedWhole literal hwhole
      constructor
      · exact fun h => ⟨hsign h.2, h.2⟩
      · exact fun h => ⟨rfl, h.2⟩

end

/-- **Signs and dots meet** what follows or precedes them in compact text exactly so: the sign
of a unary operator where the same sign stands deeper in the operand or belongs to a number,
a minus between operands where the right one starts with a negative number, and the dot of a
member where the object is a whole number with a minus sign. -/
theorem signs_meet_iff {p : Printer} (hp : p.writer.isPretty = false) :
    (∀ (span : Span) (op : UnaryOp) (operand : Expr), op = .plus ∨ op = .minus →
      (operand.emit.run p).2 = none → operand.every Node.hasStart = true →
      ((Node.unary span op operand).emit.run p).2 = none ∧
        ∃ behind, ((Node.unary span op operand).emit.run p).1.output.toList =
            p.output.toList ++ op.text.toList ++ behind ∧
          (behind.head? = op.text.toList.head? ↔
            operand.leftmost.sign? = op.text.toList.head? ∧
              (operand.left?.isSome = true ∨ ∃ literal, operand = .num literal))) ∧
    (∀ (span : Span) (op : BinaryOp) (left right : Expr), op = .add ∨ op = .sub →
      (left.emit.run p).2 = none → (right.emit.run p).2 = none →
      right.every Node.hasStart = true →
      ((Node.binary span op left right).emit.run p).2 = none ∧
        ∃ gap behind, ((Node.binary span op left right).emit.run p).1.output.toList =
            (left.emit.run p).1.output.toList ++ gap ++ op.text.toList ++ behind ∧
          gap.all isLayout = true ∧
          (behind.head? = op.text.toList.head? ↔
            op = .sub ∧ ∃ literal, right.leftmost = .num literal ∧
              (literal.value.isNegative && !literal.value.isNaN) = true)) ∧
    ∀ (span : Span) (literal : NumberLit) (name : Ident), name.typing = none →
      literal.value.isFinite = true →
      ((Node.member span (.num literal) (.ident name) false).emit.run p).2 = none ∧
        ∃ dots,
          ((Node.member span (.num literal) (.ident name) false).emit.run p).1.output.toList =
            p.output.toList ++ (numeral literal.value).toList ++ dots ++ (Emit.ident name).code ∧
          (dots = ".".toList ∨ dots = "..".toList) ∧
          (dots = ".".toList ∧ isSignedWhole (numeral literal.value).toList = true ↔
            literal.value.isNegative = true ∧
              isSignedWhole (numeral literal.value).toList = true) := by
  refine ⟨fun span op operand hop hprints hstart => ?_,
    fun span op left right hop hleft hright hstart => ?_,
    fun span literal name hname hfinite => Node.member_dot_meets hp span hname hfinite⟩
  · rw [Doc.run_failure] at hprints
    exact Node.unary_sign_meets hp span hop hprints hstart
  · rw [Doc.run_failure] at hleft hright
    exact Node.binary_sign_meets hp span hop hleft hright hstart

/-- The expression `-x * y`. -/
def negatedTimes : Expr :=
  .binary .dummy .mul (.unary .dummy .minus (.ident ⟨.dummy, "x", false, none⟩))
    (.ident ⟨.dummy, "y", false, none⟩)

/-- The number `-1`. -/
def minusOne : NumberLit := ⟨.dummy, ⟨0xbff0000000000000⟩⟩

theorem negatedTimes_meets_sign :
    (∃ behind, ((Node.unary .dummy .minus negatedTimes).emit.run (.new .compact)).1.output.toList =
        "-".toList ++ behind ∧ behind.head? = some '-') ∧
    (∃ gap behind, ((Node.binary .dummy .sub negatedTimes (.num minusOne)).emit.run
          (.new .compact)).1.output.toList = "-x*y".toList ++ gap ++ "-".toList ++ behind ∧
        behind.head? = some '-') ∧
    ∃ dots, ((Node.member .dummy (.num minusOne) (.ident ⟨.dummy, "p", false, none⟩)
          false).emit.run (.new .compact)).1.output.toList =
        (numeral minusOne.value).toList ++ dots ++ "p".toList ∧ dots = ".".toList := by
  obtain ⟨hunary, hbinary, hmember⟩ := @signs_meet_iff (.new .compact) rfl
  obtain ⟨-, behind, htext, hmeets⟩ := hunary .dummy .minus negatedTimes (.inr rfl) rfl (by decide)
  obtain ⟨-, gap, behind', htext', -, hmeets'⟩ :=
    hbinary .dummy .sub negatedTimes (.num minusOne) (.inr rfl) rfl rfl (by decide)
  obtain ⟨-, dots, htext'', -, hmeets''⟩ :=
    hmember .dummy minusOne ⟨.dummy, "p", false, none⟩ rfl (by decide)
  have hwhole : isSignedWhole (numeral minusOne.value).toList = true := by decide
  exact ⟨⟨behind, htext, hmeets.mpr ⟨rfl, .inl rfl⟩⟩,
    ⟨gap, behind', htext', hmeets'.mpr ⟨rfl, minusOne, rfl, by decide⟩⟩,
    dots, htext'', (hmeets''.mpr ⟨by decide, hwhole⟩).1⟩

/-- A minus sign in front of `-x * y` or of `-1`, or between a name and `-1`, meets the minus
sign there, and the dot behind `-1` its digits. -/
theorem signs_and_dots_meet :
    printExpr (.unary .dummy .minus negatedTimes) .compact = .ok "--x*y" ∧
    printExpr (.unary .dummy .minus (.num minusOne)) .compact = .ok "--1" ∧
    printExpr (.binary .dummy .sub (.ident ⟨.dummy, "x", false, none⟩) (.num minusOne)) .compact =
      .ok "x--1" ∧
    printExpr (.member .dummy (.num minusOne) (.ident ⟨.dummy, "p", false, none⟩) false) .compact =
      .ok "-1.p" := by
  refine ⟨?_, ?_, ?_, ?_⟩ <;> decide

end EcmaPrinter
