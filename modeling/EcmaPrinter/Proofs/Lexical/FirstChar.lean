/-
# First characters

What a text starts with decides whether it may stand right behind an operator or
a keyword. The printer looks at the node that supplies the first token
(`Node.leftmost`) and at whether a node starts with a word (`Node.startsWord`);
here both are tied to the first character of the text. Where the printer leaves
out a blank, that character does not continue the operator in front of it.

Key definitions: `Node.opensWith`.
Key theorems: `Plain.first`, `Plain.no_clash_unary`,
`Plain.no_clash_binary`, `Plain.no_comment`.
-/
import EcmaPrinter.Proofs.Lexical.Numerals
import EcmaPrinter.Proofs.Lexical.Punctuators
import EcmaPrinter.Proofs.Lexical.Text

namespace EcmaPrinter

open Lexical

/-! ### The first character -/

/-- What the text of an expression starts with, if its first token is its own. -/
def Node.opensWith : Node .expr → Char → Bool
  | .unary _ op _, c => op.text.toList.head? == some c
  | .update _ op true _, c => op.text.toList.head? == some c
  | .regex _, c => c == '/'
  | .paren _ _, c => c == '('
  | .str _, c => c == '\x22' || c == '\x27'
  | .num _, c => c.isDigit
  | _, c => isWordStart c

/-- The characters of unary operators that are not words. -/
def isSign (c : Char) : Bool := ['+', '-', '!', '~'].contains c

/-- What an operand can start with. -/
def isOperandStart (c : Char) : Bool :=
  isWordPart c || ['\x22', '\x27', '/', '('].contains c || isSign c

theorem isSign_of_isWordPart {c : Char} (h : isWordPart c = true) : isSign c = false := by
  cases hsign : isSign c with
  | false => rfl
  | true =>
    simp only [isSign, List.contains_eq_mem, List.mem_cons, List.not_mem_nil, or_false,
      decide_eq_true_eq] at hsign
    rcases hsign with rfl | rfl | rfl | rfl <;> exact absurd h (by decide)

theorem Node.level_of_isUpdatable {e : Node .expr} (h : e.isUpdatable = true) : e.level = 18 := by
  cases e with
  | ident _ | member _ _ _ _ | paren _ _ => rfl
  | _ => cases h

theorem BinaryOp.three_le_level (op : BinaryOp) : 3 ≤ op.level := by cases op <;> decide

/-- An expression without an operator in front of it. -/
def Node.isTight : Node .expr → Bool
  | .update _ _ isPrefix _ => !isPrefix
  | e => 17 ≤ e.level

theorem Node.isTight_of_level {e : Node .expr} (h : 17 ≤ e.level) : e.isTight = true := by
  cases e with
  | update => exact absurd h (show ¬ 17 ≤ 16 by decide)
  | _ => exact decide_eq_true h

/-- A first character: what opens the leftmost node, a part of a word exactly if
the printer says so, and not a sign if there is no operator in front. -/
structure First (e : Node .expr) (c : Char) : Prop where
  opens : e.leftmost.opensWith c = true
  startsWord : isWordPart c = e.startsWord
  noSign : e.isTight = true → isSign c = false

/-- A text starts like an expression. -/
def StartsLike (e : Node .expr) (text : List Char) : Prop := ∃ c cs, text = c :: cs ∧ First e c

theorem StartsLike.of_word {e : Node .expr} {text : List Char} (h : isWord text = true)
    (hopens : ∀ c, e.leftmost.opensWith c = isWordStart c) (hword : e.startsWord = true)
    (rest : List Char) : StartsLike e (text ++ rest) := by
  cases text with
  | nil => cases h
  | cons c cs =>
    simp only [isWord, Bool.and_eq_true] at h
    have hpart : isWordPart c = true := by simp [isWordPart, h.1]
    refine ⟨c, cs ++ rest, rfl, by rw [hopens, h.1], by rw [hpart, hword], fun _ => ?_⟩
    exact isSign_of_isWordPart hpart

theorem StartsLike.of_ident {e : Node .expr} {name : Ident} (h : name.isPlain = true)
    (hopens : ∀ c, e.leftmost.opensWith c = isWordStart c) (hword : e.startsWord = true)
    (rest : List Char) : StartsLike e (name.name.toList ++ rest) := by
  simp only [Ident.isPlain, Bool.and_eq_true] at h
  exact .of_word h.1.1.1 hopens hword rest

/-- The first character of a part in front is that of the whole. -/
theorem StartsLike.of_part {e part : Node .expr} {text rest : List Char}
    (h : StartsLike part text) (hleft : e.leftmost = part.leftmost)
    (hword : e.startsWord = part.startsWord) (htight : e.isTight = true → part.isTight = true) :
    StartsLike e (text ++ rest) := by
  obtain ⟨c, cs, rfl, hfirst⟩ := h
  exact ⟨c, cs ++ rest, rfl, hleft ▸ hfirst.opens, hword ▸ hfirst.startsWord,
    fun h => hfirst.noSign (htight h)⟩

/-- **The first character of a plain expression** is what its leftmost node opens
with. -/
theorem Plain.first {e : Node .expr} (h : Plain e) (isPretty : Bool) (hlevel : 1 ≤ e.level) :
    StartsLike e (e.text isPretty) := by
  induction h with
  | this span => exact ⟨'t', _, rfl, rfl, rfl, fun _ => rfl⟩
  | null span => exact ⟨'n', _, rfl, rfl, rfl, fun _ => rfl⟩
  | bool span value =>
    cases value with
    | true => exact ⟨'t', _, rfl, rfl, rfl, fun _ => rfl⟩
    | false => exact ⟨'f', _, rfl, rfl, rfl, fun _ => rfl⟩
  | str literal =>
    have hq := chooseQuote_cases literal.value.toList
    rw [Node.text_str, Text.quoted, String.toList_ofList]
    rcases hq with hq | hq
    · rw [hq]
      exact ⟨_, _, rfl, rfl, rfl, fun _ => rfl⟩
    · rw [hq]
      exact ⟨_, _, rfl, rfl, rfl, fun _ => rfl⟩
  | num finite positive =>
    obtain ⟨whole, fraction, exponent, hparts, htext⟩ := numeral_parts finite positive
    rw [Node.text_num, htext]
    cases whole with
    | nil => exact absurd rfl hparts.isDigits.1
    | cons c cs =>
      have hc := hparts.isDigits.2 c (by simp)
      refine ⟨c, _, rfl, hc, isWordPart_of_isDigit hc, fun _ => ?_⟩
      exact isSign_of_isWordPart (isWordPart_of_isDigit hc)
  | ident h =>
    rw [Node.text_ident h, ← List.append_nil (String.toList _)]
    exact .of_ident h (fun _ => rfl) rfl []
  | regex h =>
    rw [Node.text_regex]
    exact ⟨'/', _, rfl, rfl, rfl, fun _ => rfl⟩
  | paren span h ih => exact ⟨'(', _, rfl, rfl, rfl, fun _ => rfl⟩
  | unary span op level h ih =>
    rw [Node.text_unary]
    cases op <;> exact ⟨_, _, rfl, rfl, rfl, fun h => absurd h Bool.false_ne_true⟩
  | update span op isPrefix updatable h ih =>
    have hlevel := Node.level_of_isUpdatable updatable
    cases isPrefix with
    | true =>
      rw [Node.text_updateBefore]
      cases op <;> exact ⟨_, _, rfl, rfl, rfl, fun h => absurd h Bool.false_ne_true⟩
    | false =>
      rw [Node.text_updateBehind]
      exact .of_part (ih (by omega)) rfl (by simp! only [Bool.not_false, Bool.true_and])
        (fun _ => Node.isTight_of_level (by omega))
  | @binary span op left right leftLevel rightLevel hl hr ihl ihr =>
    have := op.three_le_level
    rw [Node.text_binary]
    have hloose : op.level < 17 := by cases op <;> decide
    exact .of_part (ihl (by omega)) rfl rfl
      (fun h => absurd (of_decide_eq_true h) (Nat.not_le_of_lt hloose))
  | assignName span op hname level h ih =>
    rw [Node.text_assign, Node.text_identPattern hname]
    exact .of_ident hname (fun _ => rfl) rfl _
  | assignExpr span op updatable level ht h iht ihv =>
    have hlevel := Node.level_of_isUpdatable updatable
    rw [Node.text_assign, Node.text_exprPattern]
    exact .of_part (iht (by omega)) rfl rfl (fun _ => Node.isTight_of_level (by omega))
  | computed span level h hp ih ihp =>
    rw [Node.text_computed]
    exact .of_part (ih (by omega)) rfl rfl (fun _ => Node.isTight_of_level level)
  | dotted span level numeral h hname ih =>
    rw [Node.text_dotted _ hname]
    exact .of_part (ih (by omega)) rfl rfl (fun _ => Node.isTight_of_level level)
  | conditional span level _ _ h hc ha ih ihc iha =>
    rw [Node.text_conditional]
    exact .of_part (ih (by omega)) rfl rfl (fun h => absurd h Bool.false_ne_true)
  | call span level h plain ha ih iha =>
    rw [Node.text_call]
    exact .of_part (ih (by omega)) rfl rfl (fun _ => Node.isTight_of_level level)
  | new span level h plain ha ih iha =>
    rw [Node.text_new]
    exact ⟨'n', _, rfl, rfl, rfl, fun _ => rfl⟩
  | newBare span level h ih =>
    rw [Node.text_newBare]
    exact ⟨'n', _, rfl, rfl, rfl, fun _ => rfl⟩
  | sequence span levels h ih => exact absurd hlevel (show ¬ 1 ≤ 0 by decide)

/-! ### Behind operators -/

theorem Node.isOperandStart_of_opensWith {n : Node .expr} {c : Char} (h : n.opensWith c = true) :
    isOperandStart c = true := by
  have hword (hc : isWordStart c = true) : isOperandStart c = true := by
    simp [isOperandStart, isWordPart, hc]
  cases n with
  | unary _ op => cases op <;> cases eq_of_beq h <;> decide
  | update _ op isPrefix =>
    cases isPrefix with
    | true => cases op <;> cases eq_of_beq h <;> decide
    | false => exact hword h
  | regex | paren =>
    cases eq_of_beq h
    decide
  | str => rcases Bool.or_eq_true_iff.mp h with h | h <;> cases eq_of_beq h <;> decide
  | num =>
    have hdigit : c.isDigit = true := h
    simp [isOperandStart, isWordPart, hdigit]
  | _ => exact hword h

/-- The characters that must not follow a punctuator and that an operand can start
with. -/
def operandClashes (p : List Char) : List Char := (clashes p).filter isOperandStart

theorem mem_operandClashes {p : List Char} {c : Char} {e : Node .expr} (h : c ∈ clashes p)
    (hc : First e c) : c ∈ operandClashes p :=
  List.mem_filter.mpr ⟨h, Node.isOperandStart_of_opensWith hc.opens⟩

/-- Only signs keep an operand from standing behind a unary operator. -/
theorem UnaryOp.clashes_cases {op : UnaryOp} {c : Char} (h : c ∈ operandClashes op.text.toList) :
    (op = .plus ∧ c = '+') ∨ (op = .minus ∧ c = '-') := by
  have hop : operandClashes op.text.toList =
      if op = .plus then ['+'] else if op = .minus then ['-', '-'] else [] := by
    cases op <;> decide
  rw [hop] at h
  cases op <;> simp at h <;> simp [h]

/-- Only signs, a slash and what may open a comment keep an operand from standing
behind a binary operator. -/
theorem BinaryOp.clashes_cases {op : BinaryOp} {c : Char}
    (h : c ∈ operandClashes op.text.toList) :
    (op = .add ∧ c = '+') ∨ (op = .sub ∧ c = '-') ∨ (op = .div ∧ c = '/') ∨
      (op = .lt ∧ c = '!') := by
  have hop : operandClashes op.text.toList =
      if op = .add then ['+'] else if op = .sub then ['-', '-'] else if op = .div then ['/']
      else if op = .lt then ['!'] else [] := by
    cases op <;> decide
  rw [hop] at h
  cases op <;> simp at h <;> simp [h]

theorem AssignOp.operandClashes_eq (op : AssignOp) : operandClashes op.text.toList = [] := by
  cases op <;> decide

theorem UpdateOp.operandClashes_eq (op : UpdateOp) : operandClashes op.text.toList = [] := by
  cases op <;> decide

/-- An operand of a unary operator starts with a sign only if it is a unary
operator or an update itself. -/
theorem Plain.continuesSign {isPretty : Bool} {e : Node .expr} (h : Plain e)
    (hlevel : 15 ≤ e.level) {c : Char} {cs : List Char} (htext : e.text isPretty = c :: cs) :
    (c = '+' → continuesSign .plus .increment e = true) ∧
      (c = '-' → continuesSign .minus .decrement e = true) := by
  obtain ⟨c', cs', htext', hfirst⟩ := h.first isPretty (by omega)
  obtain ⟨rfl, rfl⟩ := List.cons.inj (htext.symm.trans htext')
  have htight (ht : e.isTight = true) :
      (c = '+' → EcmaPrinter.continuesSign .plus .increment e = true) ∧
        (c = '-' → EcmaPrinter.continuesSign .minus .decrement e = true) := by
    have hsign := hfirst.noSign ht
    constructor <;> (rintro rfl; exact absurd hsign (by decide))
  cases e with
  | unary span op operand =>
    have hopens : (op.text.toList.head? == some c) = true := hfirst.opens
    constructor <;> (rintro rfl; cases op <;> first | rfl | exact absurd hopens (by decide))
  | update span op isPrefix operand =>
    cases isPrefix with
    | true =>
      have hopens : (op.text.toList.head? == some c) = true := hfirst.opens
      constructor <;> (rintro rfl; cases op <;> first | rfl | exact absurd hopens (by decide))
    | false => exact htight rfl
  | binary span op left right =>
    have hloose : op.level < 15 := by cases op <;> decide
    exact absurd hlevel (Nat.not_le_of_lt hloose)
  | assign _ _ _ _ => exact absurd hlevel (show ¬ 15 ≤ 1 by decide)
  | conditional _ _ _ _ => exact absurd hlevel (show ¬ 15 ≤ 2 by decide)
  | sequence _ _ => exact absurd hlevel (show ¬ 15 ≤ 0 by decide)
  | _ => exact htight rfl

/-- **A unary operator that is not a word and has no blank behind it is not
continued by its operand.** -/
theorem Plain.no_clash_unary {e : Node .expr} (h : Plain e) (isPretty : Bool)
    (hlevel : 15 ≤ e.level) {op : UnaryOp} (hspace : spaceBeforeOperand op e = false)
    (rest : List Char) :
    EndsBefore (clashes op.text.toList).contains (e.text isPretty ++ rest) := by
  obtain ⟨c, cs, htext, hfirst⟩ := h.first isPretty (by omega)
  obtain ⟨hplus, hminus⟩ := h.continuesSign hlevel htext
  rw [htext, List.cons_append, endsBefore_cons, Bool.eq_false_iff, ne_eq,
    List.contains_eq_mem, decide_eq_true_eq]
  intro hmem
  rcases UnaryOp.clashes_cases (mem_operandClashes hmem hfirst) with ⟨rfl, hc⟩ | ⟨rfl, hc⟩
  · exact absurd (hplus hc) (Bool.eq_false_iff.mp hspace)
  · exact absurd (hminus hc) (Bool.eq_false_iff.mp hspace)

/-- **A binary operator that has no blank behind it is not continued by its right
operand**, unless it is `<` in front of `!`. -/
theorem Plain.no_clash_binary {isPretty : Bool} {right : Node .expr} (h : Plain right)
    (hlevel : 1 ≤ right.level) {op : BinaryOp} (hspace : spaceAfterBinary op right = false)
    {c : Char} {cs : List Char} (htext : right.text isPretty = c :: cs)
    (hclash : c ∈ clashes op.text.toList) : op = .lt ∧ c = '!' := by
  obtain ⟨c', cs', htext', hfirst⟩ := h.first isPretty hlevel
  obtain ⟨rfl, rfl⟩ := List.cons.inj (htext.symm.trans htext')
  have hcases := BinaryOp.clashes_cases (mem_operandClashes hclash hfirst)
  have hopens := hfirst.opens
  unfold spaceAfterBinary at hspace
  generalize right.leftmost = n at hopens hspace
  rcases hcases with ⟨rfl, rfl⟩ | ⟨rfl, rfl⟩ | ⟨rfl, rfl⟩ | hless
  case inr.inr.inr => exact hless
  -- a node that opens with the sign or the slash is one that the operator has a blank in front of
  all_goals
    cases n with
    | unary span op' operand =>
      cases op' <;> first | exact absurd hopens Bool.false_ne_true | cases hspace
    | update span op' isPrefix operand =>
      cases isPrefix <;> first | exact absurd hopens Bool.false_ne_true | cases hspace
    | _ => first | exact absurd hopens Bool.false_ne_true | cases hspace

/-! ### Comments -/

/-- The text of an expression starts with the text of its leftmost node. -/
theorem Plain.leftmost {e : Node .expr} (h : Plain e) (isPretty : Bool) (hlevel : 1 ≤ e.level) :
    Plain e.leftmost ∧ ∃ rest, e.text isPretty = e.leftmost.text isPretty ++ rest := by
  have part {e part : Node .expr} {rest : List Char}
      (htext : e.text isPretty = part.text isPretty ++ rest) (hleft : e.leftmost = part.leftmost)
      (ih : Plain part.leftmost ∧
        ∃ rest, part.text isPretty = part.leftmost.text isPretty ++ rest) :
      Plain e.leftmost ∧ ∃ rest, e.text isPretty = e.leftmost.text isPretty ++ rest := by
    obtain ⟨hplain, rest', hrest⟩ := ih
    exact ⟨hleft ▸ hplain, rest' ++ rest, by rw [hleft, htext, hrest, List.append_assoc]⟩
  have self {e : Node .expr} (h : Plain e) (hleft : e.leftmost = e) :
      Plain e.leftmost ∧ ∃ rest, e.text isPretty = e.leftmost.text isPretty ++ rest := by
    rw [hleft]
    exact ⟨h, [], (List.append_nil _).symm⟩
  induction h with
  | this span => exact self (.this span) rfl
  | null span => exact self (.null span) rfl
  | bool span value => exact self (.bool span value) rfl
  | str literal => exact self (.str literal) rfl
  | num finite positive => exact self (.num finite positive) rfl
  | ident h => exact self (.ident h) rfl
  | regex h => exact self (.regex h) rfl
  | paren span h ih => exact self (.paren span h) rfl
  | unary span op level h ih => exact self (.unary span op level h) rfl
  | update span op isPrefix updatable h ih =>
    have hlevel := Node.level_of_isUpdatable updatable
    cases isPrefix with
    | true => exact self (.update span op true updatable h) rfl
    | false => exact part (Node.text_updateBehind op _) rfl (ih (by omega))
  | @binary span op left right leftLevel rightLevel hl hr ihl ihr =>
    have := op.three_le_level
    exact part (Node.text_binary op left right) rfl (ihl (by omega))
  | assignName span op hname level h ih => exact self (.assignName span op hname level h) rfl
  | assignExpr span op updatable level ht h iht ihv =>
    have hlevel := Node.level_of_isUpdatable updatable
    exact part (Node.text_assign op _ _) rfl (iht (by omega))
  | computed span level h hp ih ihp => exact part (Node.text_computed _ _) rfl (ih (by omega))
  | dotted span level numeral h hname ih =>
    exact part (Node.text_dotted _ hname) rfl (ih (by omega))
  | conditional span level _ _ h hc ha ih ihc iha =>
    exact part (Node.text_conditional _ _ _) rfl (ih (by omega))
  | call span level h plain ha ih iha => exact part (Node.text_call _ _ _) rfl (ih (by omega))
  | new span level h plain ha ih iha => exact self (.new span level h plain ha) rfl
  | newBare span level h ih => exact self (.newBare span level h) rfl
  | sequence span levels h ih => exact absurd hlevel (show ¬ 1 ≤ 0 by decide)

/-- The operand of a unary operator does not start with two minus signs unless it
is a decrement. -/
theorem Plain.no_double_minus {e : Node .expr} (h : Plain e) (isPretty : Bool)
    (hlevel : 15 ≤ e.level) (hdecrement : isPrefixDecrement e = false) (rest : List Char) :
    "--".toList.isPrefixOf (e.text isPretty ++ rest) = false := by
  obtain ⟨c, cs, htext, hfirst⟩ := h.first isPretty (by omega)
  obtain ⟨_, hminus⟩ := h.continuesSign hlevel htext
  by_cases hc : c = '-'
  · have hsign := hminus hc
    cases h with
    | @unary span op operand level h =>
      obtain rfl : op = .minus := eq_of_beq hsign
      rw [Node.text_unary]
      cases hspace : spaceBeforeOperand .minus operand with
      | true => simp [gap, UnaryOp.text, List.isPrefixOf]
      | false =>
        have hclash := h.no_clash_unary isPretty level hspace rest
        obtain ⟨d, ds, hd, _⟩ := h.first isPretty (by omega)
        rw [hd, List.cons_append, endsBefore_cons] at hclash
        have hne : d ≠ '-' := by
          rintro rfl
          exact absurd hclash (by decide)
        simp [hd, gap, UnaryOp.isKeyword, UnaryOp.text, List.isPrefixOf, hne.symm]
    | update span op isPrefix updatable h =>
      obtain ⟨rfl, hop⟩ := Bool.and_eq_true_iff.mp hsign
      cases eq_of_beq hop
      cases hdecrement
    | _ => cases hsign
  · rw [htext]
    simp [List.isPrefixOf, Ne.symm hc]

/-- **`<` without a blank behind it does not open a comment.** -/
theorem Plain.no_comment {isPretty : Bool} {right : Node .expr} (h : Plain right)
    (hlevel : 1 ≤ right.level) (hspace : spaceAfterBinary .lt right = false) (rest : List Char) :
    "!--".toList.isPrefixOf (right.text isPretty ++ rest) = false := by
  obtain ⟨c, cs, htext, hfirst⟩ := h.first isPretty hlevel
  obtain ⟨hplain, rest', hrest⟩ := h.leftmost isPretty hlevel
  by_cases hc : c = '!'
  · have hopens := hfirst.opens
    subst hc
    rw [hrest, List.append_assoc]
    unfold spaceAfterBinary at hspace
    generalize right.leftmost = n at hopens hspace hplain
    cases hplain with
    | @unary span op operand level h =>
      cases op with
      | not =>
        have hdecrement : isPrefixDecrement operand = false := hspace
        have := h.no_double_minus isPretty level hdecrement (rest' ++ rest)
        rw [Node.text_unary]
        simpa [gap, spaceBeforeOperand, UnaryOp.isKeyword, UnaryOp.text, List.isPrefixOf] using this
      | _ => cases hopens
    | update span op isPrefix updatable h =>
      cases isPrefix with
      | true => cases op <;> cases hopens
      | false => cases hopens
    | _ => cases hopens
  · rw [htext]
    simp [List.isPrefixOf, Ne.symm hc]

end EcmaPrinter
