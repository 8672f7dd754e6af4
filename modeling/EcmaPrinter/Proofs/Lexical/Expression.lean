/-
# Tokens do not merge

The text of a plain expression, compact or formatted, is read back as the
elements of the expression: no two tokens that the printer writes side by side
run together, no operator opens a comment, and no slash is taken for the wrong
thing.

The proof is by induction over plain expressions. What is shown of each part is
that it is read as its elements in front of any text that can follow it
(`Follows`), and the text in front of each part leaves an operand to be expected.

Key definitions: `Node.isDottable`, `Follows`.
Key theorems: `Plain.reads`, `plain_expr_lexes_to_elements`.
-/
import EcmaPrinter.Proofs.Lexical.FirstChar

namespace EcmaPrinter

open Lexical

/-! ### What can follow an expression -/

/-- Expressions behind which a dot is not taken for a decimal point. -/
def Node.isDottable (e : Node .expr) : Bool := 17 ≤ e.level && !e.endsInNumeral

/-- Text that continues no expression. -/
def Stops (rest : List Char) : Prop := EndsBefore isWordy rest ∧ rest.head? ≠ some '.'

/-- Text that does not continue an expression. -/
def Follows (e : Node .expr) (rest : List Char) : Prop :=
  EndsBefore isWordy rest ∧ (rest.head? = some '.' → e.isDottable = true)

theorem Stops.follows {rest : List Char} (h : Stops rest) (e : Node .expr) : Follows e rest :=
  ⟨h.1, fun hdot => absurd hdot h.2⟩

theorem Follows.stops {e : Node .expr} {rest : List Char} (h : Follows e rest)
    (hdot : e.isDottable = false) : Stops rest :=
  ⟨h.1, fun hrest => absurd (h.2 hrest) (Bool.eq_false_iff.mp hdot)⟩

theorem stops_nil : Stops [] := ⟨rfl, nofun⟩

theorem stops_cons {c : Char} {rest : List Char} (h : isWordy c = false) (hdot : c ≠ '.') :
    Stops (c :: rest) :=
  ⟨endsBefore_cons.mpr h, by simpa using hdot⟩

/-- In front of a blank or of what is there without one. -/
theorem stops_gap (isThere : Bool) {rest : List Char} (h : isThere = false → Stops rest) :
    Stops (gap isThere ++ rest) := by
  cases isThere with
  | true => exact stops_cons (by decide) (by decide)
  | false => exact h rfl

/-- In front of a mark that may have a blank in front of it. -/
theorem stops_gap_cons (c : Char) (h : isWordy c = false) (hdot : c ≠ '.') (isThere : Bool)
    (text rest : List Char) : Stops (gap isThere ++ c :: text ++ rest) := by
  rw [List.append_assoc]
  exact stops_gap isThere fun _ => stops_cons h hdot

/-- Punctuators without a dot continue no expression. -/
theorem stops_punct {p : List Char} (hp : p ∈ punctuators) (hdot : p.head? ≠ some '.')
    (rest : List Char) : Stops (p ++ rest) := by
  have hall : ∀ p ∈ punctuators, p.head?.any (fun c => !isWordy c) = true := by decide
  have hpart := hall p hp
  cases p with
  | nil => cases hpart
  | cons c cs => exact stops_cons (by simpa using hpart) (by simpa using hdot)

/-! ### Brackets, commas and lists -/

/-- An expression is read as its elements, in front of what can follow it. The
empty sequence is left out: it has neither text nor elements. -/
def ReadsBack (isPretty : Bool) (e : Node .expr) : Prop :=
  ∀ isLineStart rest, Follows e rest →
    Reads isLineStart .operand (e.text isPretty) e.elements .operator rest

namespace Lexical

variable {isLineStart isPretty : Bool} {goal : Goal}

/-- Brackets, commas and colons are read as they are, whatever follows. -/
theorem reads_mark {c : Char} (hc : c ∈ ['(', ')', '[', ']', ',', ':']) (rest : List Char) :
    Reads isLineStart goal [c] [.punct [c]] (goal.after (.punct [c])) rest := by
  have hmark : [c] ∈ punctuators ∧ c ≠ '.' ∧ c ≠ '/' ∧ clashes [c] = [] := by
    simp only [List.mem_cons, List.not_mem_nil, or_false] at hc
    rcases hc with rfl | rfl | rfl | rfl | rfl | rfl <;> decide
  obtain ⟨hp, hdot, hslash, hclash⟩ := hmark
  refine reads_punct hp (by simpa using hdot) (by simp) (fun h => ?_) ?_
  · exact absurd (by simpa using h) hslash
  · rw [hclash]
    cases rest <;> rfl

/-- A text in brackets is read as its elements in brackets, also if it is empty. -/
theorem Reads.bracket {opening closing : Char} {text : List Char} {es : List Element}
    (ho : opening = '(' ∧ closing = ')' ∨ opening = '[' ∧ closing = ']') {rest : List Char}
    (h : text = [] ∧ es = [] ∨ Reads false .operand text es .operator (closing :: rest)) :
    Reads isLineStart goal (opening :: (text ++ [closing]))
      (.punct [opening] :: (es ++ [.punct [closing]])) .operator rest := by
  have hopen (rest : List Char) :
      Reads isLineStart goal [opening] [.punct [opening]] .operand rest := by
    rcases ho with ⟨rfl, rfl⟩ | ⟨rfl, rfl⟩ <;> exact reads_mark (by decide) rest
  have hclose (goal : Goal) : Reads false goal [closing] [.punct [closing]] .operator rest := by
    rcases ho with ⟨rfl, rfl⟩ | ⟨rfl, rfl⟩ <;> exact reads_mark (by decide) rest
  rcases h with ⟨rfl, rfl⟩ | h
  · exact (hopen _).append (hclose .operand)
  · exact (hopen _).append (h.append (hclose .operator))

end Lexical

/-- What follows an item of a list, up to the end of the list. -/
theorem Nodes.stops_commaText (isPretty : Bool) {c : Category} (ns : Nodes c) {rest : List Char}
    (h : Stops rest) : Stops (ns.commaText isPretty ++ rest) := by
  cases ns with
  | nil => exact h
  | cons n ns =>
    rw [commaText_cons]
    exact stops_cons (by decide) (by decide)

/-- Nodes with commas in front of them are read as their elements. -/
theorem Nodes.reads_commaText {isPretty : Bool} {c : Category} {rest : List Char}
    (hrest : Stops rest) : ∀ {ns : Nodes c},
    (∀ n ∈ ns.toList, ∀ rest, Stops rest →
      Reads false .operand (n.text isPretty) n.elements .operator rest) →
    Reads false .operator (ns.commaText isPretty) ns.commaElements .operator rest
  | .nil, _ => Reads.nil _ _
  | .cons n ns, h => by
    have hn := h n List.mem_cons_self _ (ns.stops_commaText isPretty hrest)
    have hns := Nodes.reads_commaText hrest fun m hm => h m (List.mem_cons_of_mem _ hm)
    have hitem := (hn.gap (gap_cases isPretty)).append hns
    exact (reads_mark (by decide) _).append hitem

/-- Nodes with commas between them are read as their elements. -/
theorem Nodes.reads_text {isPretty isLineStart : Bool} {c : Category} {ns : Nodes c}
    {rest : List Char} (hrest : Stops rest)
    (h : ∀ n ∈ ns.toList, ∀ isLineStart rest, Stops rest →
      Reads isLineStart .operand (n.text isPretty) n.elements .operator rest) :
    ns.text isPretty = [] ∧ ns.commaElements.drop 1 = [] ∨
      Reads isLineStart .operand (ns.text isPretty) (ns.commaElements.drop 1) .operator rest := by
  cases ns with
  | nil => exact .inl ⟨rfl, rfl⟩
  | cons n ns =>
    have hn := h n List.mem_cons_self isLineStart _ (ns.stops_commaText isPretty hrest)
    have hns := Nodes.reads_commaText hrest fun m hm => h m (List.mem_cons_of_mem _ hm) false
    exact .inr (hn.append hns)

/-! ### Names and numbers -/

theorem operatorWords_of_isPlain {name : Ident} (h : name.isPlain = true) (goal : Goal) :
    goal.after (.word name.name.toList) = .operator := by
  have hall : ∀ w ∈ operatorWords, ∃ s ∈ reservedWords, s.toList = w := by decide
  simp only [Ident.isPlain, Bool.and_eq_true, Bool.not_eq_true'] at h
  have hreserved := h.1.1.2
  rw [Goal.after, if_neg]
  intro hmem
  obtain ⟨s, hs, heq⟩ := hall _ (by simpa using hmem)
  rw [String.toList_inj] at heq
  rw [List.contains_eq_mem, ← heq, decide_eq_false_iff_not] at hreserved
  exact hreserved hs

/-- A word that stands for a value. -/
theorem reads_wordLiteral {isLineStart : Bool} {goal : Goal} {word rest : List Char}
    (h : isWord word = true ∧ goal.after (.word word) = .operator)
    (hrest : EndsBefore isWordPart rest) :
    Reads isLineStart goal word [.word word] .operator rest := by
  rw [← h.2]
  exact reads_word h.1 hrest

theorem reads_ident {isLineStart : Bool} {goal : Goal} {name : Ident} {rest : List Char}
    (h : name.isPlain = true) (hrest : EndsBefore isWordPart rest) :
    Reads isLineStart goal name.name.toList [.word name.name.toList] .operator rest := by
  have hword : isWord name.name.toList = true := by
    simp only [Ident.isPlain, Bool.and_eq_true] at h
    exact h.1.1.1
  exact reads_wordLiteral ⟨hword, operatorWords_of_isPlain h goal⟩ hrest

/-- A numeral is whole if and only if it is all digits. -/
theorem isWholeNumeral_iff {literal : NumberLit} {whole fraction exponent : List Char}
    (h : Numeral whole fraction exponent)
    (htext : (numeral literal.value).toList = whole ++ fraction ++ exponent) :
    Emit.isWholeNumeral (.num literal) = true ↔ fraction = [] ∧ exponent = [] := by
  simp only [Emit.isWholeNumeral_num, htext, List.all_append, Bool.and_eq_true, List.all_eq_true]
  constructor
  · rintro ⟨⟨_, hf⟩, he⟩
    constructor
    · rcases h.isFraction with hnil | ⟨ds, _, rfl⟩
      · exact hnil
      · exact absurd (hf '.' List.mem_cons_self) (by decide)
    · rcases h.isExponent with hnil | ⟨sign, ds, _, _, rfl⟩
      · exact hnil
      · exact absurd (he 'e' List.mem_cons_self) (by decide)
  · rintro ⟨rfl, rfl⟩
    exact ⟨⟨h.isDigits.2, by simp⟩, by simp⟩

theorem readsBack_num {isPretty : Bool} {literal : NumberLit}
    (finite : literal.value.isFinite = true) (positive : literal.value.isNegative = false) :
    ReadsBack isPretty (.num literal) := by
  intro isLineStart rest hf
  obtain ⟨whole, fraction, exponent, hparts, htext⟩ := numeral_parts finite positive
  have hwhole := isWholeNumeral_iff hparts htext
  rw [Node.text_num, show (Node.num literal).elements = [.number (numeral literal.value).toList]
    from rfl, htext]
  refine reads_number hparts hf.1.wordPart fun hfraction hexponent hdot => ?_
  have hends : (!Emit.isWholeNumeral (.num literal)) = true := hf.2 hdot
  rw [hwhole.mpr ⟨hfraction, hexponent⟩] at hends
  cases hends

/-- A whole number in front of a dot gets a point of its own. -/
theorem reads_wholeNumeral {isPretty isLineStart : Bool} {base : Node .expr} (h : Plain base)
    (hwhole : Emit.isWholeNumeral base = true) {rest : List Char}
    (hrest : EndsBefore isWordPart rest) :
    Reads isLineStart .operand (base.text isPretty ++ ['.']) base.elements .operator rest := by
  cases h with
  | @num literal finite positive =>
    obtain ⟨whole, fraction, exponent, hparts, htext⟩ := numeral_parts finite positive
    obtain ⟨rfl, rfl⟩ := (isWholeNumeral_iff hparts htext).mp hwhole
    rw [List.append_nil, List.append_nil] at htext
    rw [Node.text_num, show (Node.num literal).elements = [.number (numeral literal.value).toList]
      from rfl, htext]
    exact reads_wholePoint hparts hrest
  | _ => cases hwhole

/-! ### Operands behind operators -/

/-- What stands in front of an operand is not continued if a blank or the first
character of the operand does not continue it. -/
theorem Plain.endsBefore_gap {isPretty : Bool} {e : Node .expr} {test : Char → Bool} (h : Plain e)
    (hlevel : 1 ≤ e.level) (isThere : Bool) (hblank : test ' ' = false)
    (hfirst : isThere = false → ∀ c cs, e.text isPretty = c :: cs → First e c → test c = false)
    (rest : List Char) : EndsBefore test (gap isThere ++ e.text isPretty ++ rest) := by
  cases isThere with
  | true => exact endsBefore_cons.mpr hblank
  | false =>
    obtain ⟨c, cs, htext, hc⟩ := h.first isPretty hlevel
    have htest := hfirst rfl c cs htext hc
    rw [htext]
    exact endsBefore_cons.mpr htest

/-- Nothing that an operand starts with continues an operator with these
clashes. -/
theorem not_clash_of_operand {p : List Char} {c : Char} {e : Node .expr}
    (h : operandClashes p = []) (hc : First e c) : (clashes p).contains c = false := by
  rw [Bool.eq_false_iff, ne_eq, List.contains_eq_mem, decide_eq_true_eq]
  intro hmem
  have hoperand := mem_operandClashes hmem hc
  rw [h] at hoperand
  cases hoperand

section Operators

variable {isPretty isLineStart : Bool} {goal goal' : Goal} {e : Node .expr}

/-- A word in front of an operand. -/
theorem Plain.reads_keyword (h : Plain e) (hlevel : 1 ≤ e.level) {word : List Char}
    (hword : isWord word = true) (hafter : goal.after (.word word) = goal') {isThere : Bool}
    (hspace : isThere = false → e.startsWord = false) (rest : List Char) :
    Reads isLineStart goal word [.word word] goal' (gap isThere ++ e.text isPretty ++ rest) := by
  subst hafter
  refine reads_word hword (h.endsBefore_gap hlevel isThere (by decide) ?_ rest)
  intro hthere c cs _ hc
  rw [hc.startsWord]
  exact hspace hthere

/-- An operator that no operand continues. -/
theorem Plain.reads_operator (h : Plain e) (hlevel : 1 ≤ e.level) {p : List Char}
    (hp : p ∈ punctuators) (hdot : p.head? ≠ some '.') (hchain : p ≠ "?.".toList)
    (hslash : p.head? = some '/' → goal = .operator) (hblank : (clashes p).contains ' ' = false)
    (hclash : operandClashes p = []) (hafter : goal.after (.punct p) = goal')
    (isThere : Bool) (rest : List Char) :
    Reads isLineStart goal p [.punct p] goal' (gap isThere ++ e.text isPretty ++ rest) := by
  subst hafter
  refine reads_punct hp hdot hchain hslash (h.endsBefore_gap hlevel isThere hblank ?_ rest)
  intro _ c cs _ hc
  exact not_clash_of_operand hclash hc

/-- A unary operator in front of its operand. -/
theorem Plain.reads_unaryOp (h : Plain e) (hlevel : 15 ≤ e.level) (op : UnaryOp)
    (rest : List Char) :
    Reads isLineStart .operand op.text.toList [operatorElement op.isKeyword op.text] .operand
      (gap (spaceBeforeOperand op e || (op.isKeyword && isPretty)) ++ e.text isPretty ++ rest) := by
  cases hkey : op.isKeyword with
  | true =>
    have hword : isWord op.text.toList = true := by cases op <;> first | rfl | cases hkey
    have hafter : Goal.operand.after (.word op.text.toList) = .operand := by
      cases op <;> first | rfl | cases hkey
    have hspace : (spaceBeforeOperand op e || (true && isPretty)) = false →
        e.startsWord = false := by
      intro hs
      have hs := (Bool.or_eq_false_iff.mp hs).1
      cases op <;> first | exact hs | cases hkey
    exact h.reads_keyword (by omega) hword hafter hspace rest
  | false =>
    have hp : op.text.toList ∈ punctuators := by cases op <;> first | decide | cases hkey
    have hafter : Goal.operand.after (.punct op.text.toList) = .operand := by
      cases op <;> rfl
    have hread : Reads isLineStart .operand op.text.toList [.punct op.text.toList]
        (Goal.operand.after (.punct op.text.toList))
        (gap (spaceBeforeOperand op e || (false && isPretty)) ++ e.text isPretty ++ rest) := by
      refine reads_punct hp ?_ ?_ ?_ ?_
      · cases op <;> decide
      · cases op <;> decide
      · cases op <;> exact fun h => absurd h (by decide)
      · cases hs : spaceBeforeOperand op e with
        | true => exact endsBefore_cons.mpr (by cases op <;> decide)
        | false => exact h.no_clash_unary isPretty hlevel hs rest
    rw [hafter] at hread
    exact hread

/-- A binary operator in front of its right operand. -/
theorem Plain.reads_binaryOp (h : Plain e) (hlevel : 1 ≤ e.level) (op : BinaryOp)
    (rest : List Char) :
    Reads false .operator op.text.toList [operatorElement op.isKeyword op.text] .operand
      (gap (spaceAfterBinary op e || isPretty) ++ e.text isPretty ++ rest) := by
  cases hkey : op.isKeyword with
  | true =>
    have hthere : (spaceAfterBinary op e || isPretty) = true := by
      rw [spaceAfterBinary_of_isKeyword hkey, Bool.true_or]
    have hword : isWord op.text.toList = true := by cases op <;> first | rfl | cases hkey
    have hafter : Goal.operator.after (.word op.text.toList) = .operand := by
      cases op <;> first | rfl | cases hkey
    rw [hthere]
    exact h.reads_keyword hlevel hword hafter (fun hnone => by cases hnone) rest
  | false =>
    have hp : op.text.toList ∈ punctuators := by cases op <;> first | decide | cases hkey
    have hafter : Goal.operator.after (.punct op.text.toList) = .operand := by
      cases op <;> rfl
    have hdot : op.text.toList.head? ≠ some '.' := by cases op <;> decide
    have hchain : op.text.toList ≠ "?.".toList := by cases op <;> decide
    have hblank : (clashes op.text.toList).contains ' ' = false := by cases op <;> decide
    have hread : Reads false .operator op.text.toList [.punct op.text.toList]
        (Goal.operator.after (.punct op.text.toList))
        (gap (spaceAfterBinary op e || isPretty) ++ e.text isPretty ++ rest) := by
      cases hs : spaceAfterBinary op e || isPretty with
      | true => exact reads_punct hp hdot hchain (fun _ => rfl) (endsBefore_cons.mpr hblank)
      | false =>
        obtain ⟨hspace, rfl⟩ := Bool.or_eq_false_iff.mp hs
        by_cases hop : op = .lt
        · subst hop
          refine reads_less ?_ (h.no_comment hlevel hspace rest)
          refine h.endsBefore_gap hlevel false (by decide) (fun _ c cs _ hc => ?_) rest
          have hfollow : (followers punctuators "<".toList).filter isOperandStart = [] := by decide
          rw [Bool.eq_false_iff, ne_eq, List.contains_eq_mem, decide_eq_true_eq]
          intro hmem
          exact List.filter_eq_nil_iff.mp hfollow c hmem
            (Node.isOperandStart_of_opensWith hc.opens)
        · refine reads_punct hp hdot hchain (fun _ => rfl)
            (h.endsBefore_gap hlevel false hblank (fun _ c cs htext _ => ?_) rest)
          rw [Bool.eq_false_iff, ne_eq, List.contains_eq_mem, decide_eq_true_eq]
          exact fun hmem => hop (h.no_clash_binary hlevel hspace htext hmem).1
    rw [hafter] at hread
    exact hread

/-- An update in front of its operand. -/
theorem Plain.reads_updateOp (h : Plain e) (hlevel : 1 ≤ e.level) (op : UpdateOp)
    (rest : List Char) :
    Reads isLineStart .operand op.text.toList [punct op.text] .operand
      (e.text isPretty ++ rest) := by
  refine h.reads_operator hlevel ?_ ?_ ?_ ?_ ?_ op.operandClashes_eq ?_ false rest
  · cases op <;> decide
  · cases op <;> decide
  · cases op <;> decide
  · cases op <;> exact fun h => absurd h (by decide)
  · cases op <;> decide
  · cases op <;> rfl

/-- An assignment operator in front of the value. -/
theorem Plain.reads_assignOp (h : Plain e) (hlevel : 1 ≤ e.level) (op : AssignOp)
    (rest : List Char) :
    Reads false .operator op.text.toList [punct op.text] .operand
      (gap isPretty ++ e.text isPretty ++ rest) := by
  refine h.reads_operator hlevel ?_ ?_ ?_ (fun _ => rfl) ?_ op.operandClashes_eq ?_ isPretty rest
  · cases op <;> decide
  · cases op <;> decide
  · cases op <;> decide
  · cases op <;> decide
  · cases op <;> rfl

/-- `new` in front of what is called. -/
theorem Plain.reads_new (h : Plain e) (hlevel : 1 ≤ e.level) (rest : List Char) :
    Reads isLineStart .operand "new".toList [.word "new".toList] .operand
      (gap (e.startsWord || isPretty) ++ e.text isPretty ++ rest) :=
  h.reads_keyword hlevel (by decide) rfl (fun hnone => (Bool.or_eq_false_iff.mp hnone).1) rest

/-- A question mark in front of what is chosen. -/
theorem Plain.reads_question (h : Plain e) (hlevel : 1 ≤ e.level) (rest : List Char) :
    Reads false .operator ['?'] [punct "?"] .operand (gap isPretty ++ e.text isPretty ++ rest) :=
  h.reads_operator hlevel (by decide) (by decide) (by decide) (by decide) (by decide) (by decide)
    rfl isPretty rest

end Operators

theorem BinaryOp.one_le_level (op : BinaryOp) : 1 ≤ op.level := by cases op <;> decide

theorem Node.isDottable_binary {span : Span} (op : BinaryOp) {left right : Node .expr} :
    (Node.binary span op left right).isDottable = false := by
  cases op <;> rfl

/-- A binary operator behind its left operand. -/
theorem BinaryOp.stops_gap (op : BinaryOp) {left : Node .expr} {isPretty : Bool} {text : List Char}
    (rest : List Char) :
    Stops (gap (spaceBeforeBinary op left || isPretty) ++ (op.text.toList ++ text) ++ rest) := by
  rw [List.append_assoc]
  refine EcmaPrinter.stops_gap _ fun hnone => ?_
  have hkey : op.isKeyword = false := by
    have hspace := (Bool.or_eq_false_iff.mp hnone).1
    cases hkey : op.isKeyword with
    | false => rfl
    | true =>
      rw [spaceBeforeBinary_of_isKeyword hkey] at hspace
      cases hspace
  rw [List.append_assoc]
  refine stops_punct ?_ ?_ _
  · cases op <;> first | decide | cases hkey
  · cases op <;> decide

theorem AssignOp.stops_gap (op : AssignOp) {isPretty : Bool} {text : List Char} (rest : List Char) :
    Stops (gap isPretty ++ (op.text.toList ++ text) ++ rest) := by
  rw [List.append_assoc]
  refine EcmaPrinter.stops_gap _ fun _ => ?_
  rw [List.append_assoc]
  exact stops_punct (by cases op <;> decide) (by cases op <;> decide) _

/-- A dot and a name behind an object. -/
theorem reads_dotted {name : Ident} (h : name.isPlain = true) {rest : List Char}
    (hrest : EndsBefore isWordPart rest) :
    Reads false .operator ('.' :: name.name.toList) [punct ".", .word name.name.toList] .operator
      rest := by
  have hname : Reads false .operand name.name.toList [.word name.name.toList] .operator rest :=
    reads_ident h hrest
  simp only [Ident.isPlain, Bool.and_eq_true] at h
  have hword := h.1.1.1
  have hfirst : ∃ c cs, name.name.toList = c :: cs ∧ isWordStart c = true := by
    cases hchars : name.name.toList with
    | nil =>
      rw [hchars] at hword
      cases hword
    | cons c cs =>
      rw [hchars] at hword
      exact ⟨c, cs, rfl, (Bool.and_eq_true_iff.mp hword).1⟩
  obtain ⟨c, cs, hchars, hc⟩ := hfirst
  have hdigit : EndsBefore Char.isDigit (name.name.toList ++ rest) := by
    rw [hchars]
    refine endsBefore_cons.mpr ?_
    cases hdigit : c.isDigit with
    | false => rfl
    | true =>
      rw [isWordStart_of_isDigit hdigit] at hc
      cases hc
  have hclash : EndsBefore (clashes ".".toList).contains (name.name.toList ++ rest) := by
    rw [hchars]
    refine endsBefore_cons.mpr ?_
    have hnone : (clashes ".".toList).filter isWordStart = [] := by decide
    rw [Bool.eq_false_iff, ne_eq, List.contains_eq_mem, decide_eq_true_eq]
    intro hmem
    exact List.filter_eq_nil_iff.mp hnone c hmem hc
  exact (reads_dot hdigit hclash).append hname

/-! ### Expressions -/

theorem ReadsBack.stop {isPretty : Bool} {e : Node .expr} (h : ReadsBack isPretty e)
    (isLineStart : Bool) {rest : List Char} (hrest : Stops rest) :
    Reads isLineStart .operand (e.text isPretty) e.elements .operator rest :=
  h isLineStart rest (hrest.follows e)

/-- An expression that is not a sequence has a text. -/
theorem Plain.readsBack {isPretty : Bool} {e : Node .expr} (h : Plain e) (hlevel : 1 ≤ e.level)
    (hread : e.text isPretty = [] ∧ e.elements = [] ∨ ReadsBack isPretty e) :
    ReadsBack isPretty e := by
  obtain ⟨c, cs, htext, _⟩ := h.first isPretty hlevel
  rcases hread with ⟨hnil, _⟩ | hread
  · rw [hnil] at htext
    cases htext
  · exact hread

/-- The arguments of a call in their parentheses. -/
theorem reads_arguments {isPretty : Bool} {arguments : Nodes .argument}
    (plain : ∀ a ∈ arguments.toList, ∃ e, a = .plainArgument e ∧ 1 ≤ e.level)
    (ha : ∀ e, .plainArgument e ∈ arguments.toList → Plain e)
    (iha : ∀ e, .plainArgument e ∈ arguments.toList →
      e.text isPretty = [] ∧ e.elements = [] ∨ ReadsBack isPretty e) (rest : List Char) :
    Reads false .operator ('(' :: (arguments.text isPretty ++ [')']))
      (punct "(" :: (arguments.commaElements.drop 1 ++ [punct ")"])) .operator rest := by
  refine Reads.bracket (.inl ⟨rfl, rfl⟩)
    (Nodes.reads_text ?_ fun a hmem isLineStart rest hrest => ?_)
  · exact stops_cons (by decide) (by decide)
  · obtain ⟨e, rfl, level⟩ := plain a hmem
    exact ((ha e hmem).readsBack level (iha e hmem)).stop isLineStart hrest

/-- **A plain expression is read as its elements**, in either mode and in front of
anything that can follow it. -/
theorem Plain.reads {e : Node .expr} (h : Plain e) (isPretty : Bool) :
    e.text isPretty = [] ∧ e.elements = [] ∨ ReadsBack isPretty e := by
  induction h with
  | this span =>
    refine .inr fun _ _ hf => ?_
    rw [Node.text_this]
    exact reads_wordLiteral (by decide) hf.1.wordPart
  | null span =>
    refine .inr fun _ _ hf => ?_
    rw [Node.text_null]
    exact reads_wordLiteral (by decide) hf.1.wordPart
  | bool span value =>
    refine .inr fun _ _ hf => ?_
    rw [Node.text_bool]
    exact reads_wordLiteral (by cases value <;> decide) hf.1.wordPart
  | str literal =>
    refine .inr fun _ rest _ => ?_
    rw [Node.text_str]
    exact reads_string literal.value rest
  | num finite positive => exact .inr (readsBack_num finite positive)
  | ident h =>
    refine .inr fun _ rest hf => ?_
    rw [Node.text_ident h]
    exact reads_ident h hf.1.wordPart
  | regex h =>
    refine .inr fun _ rest hf => ?_
    rw [Node.text_regex]
    exact reads_regex h hf.1.flagPart
  | paren span h ih =>
    refine .inr fun _ rest _ => Reads.bracket (.inl ⟨rfl, rfl⟩) (ih.imp_right fun hread => ?_)
    exact hread.stop false (stops_cons (by decide) (by decide))
  | unary span op level h ih =>
    refine .inr fun isLineStart rest hf => ?_
    have hoperand := (h.readsBack (by omega) ih).stop false (hf.stops rfl)
    rw [Node.text_unary]
    exact (h.reads_unaryOp level op rest).append (hoperand.gap (gap_cases _))
  | update span op isPrefix updatable h ih =>
    have hlevel := Node.level_of_isUpdatable updatable
    have hoperand := h.readsBack (by omega) ih
    refine .inr fun isLineStart rest hf => ?_
    cases isPrefix with
    | true =>
      rw [Node.text_updateBefore]
      exact (h.reads_updateOp (by omega) op rest).append (hoperand.stop false (hf.stops rfl))
    | false =>
      rw [Node.text_updateBehind]
      refine Reads.append (hoperand.stop isLineStart ?_) (reads_updateBehind op rest)
      exact stops_punct (by cases op <;> decide) (by cases op <;> decide) rest
  | @binary span op left right leftLevel rightLevel hl hr ihl ihr =>
    have hleft := hl.readsBack (Nat.le_trans op.one_le_level leftLevel) ihl
    have hright := hr.readsBack (Nat.le_trans op.one_le_level rightLevel) ihr
    refine .inr fun isLineStart rest hf => ?_
    have hvalue := (hright.stop false (hf.stops (Node.isDottable_binary op))).gap
      (gap_cases (spaceAfterBinary op right || isPretty))
    have hop := (hr.reads_binaryOp (Nat.le_trans op.one_le_level rightLevel) op rest).append hvalue
    rw [Node.text_binary]
    exact Reads.append (hleft.stop isLineStart (op.stops_gap _)) (hop.gap (gap_cases _))
  | @assignName span op name value hname level h ih =>
    refine .inr fun isLineStart rest hf => ?_
    have hvalue := ((h.readsBack level ih).stop false (hf.stops rfl)).gap (gap_cases isPretty)
    have hop := ((h.reads_assignOp level op rest).append hvalue).gap (gap_cases isPretty)
    rw [Node.text_assign, Node.text_identPattern hname]
    exact Reads.append (reads_ident hname (op.stops_gap _).1.wordPart) hop
  | @assignExpr span op target value updatable level ht h iht ihv =>
    have hlevel := Node.level_of_isUpdatable updatable
    have htarget := ht.readsBack (by omega) iht
    refine .inr fun isLineStart rest hf => ?_
    have hvalue := ((h.readsBack level ihv).stop false (hf.stops rfl)).gap (gap_cases isPretty)
    have hop := ((h.reads_assignOp level op rest).append hvalue).gap (gap_cases isPretty)
    rw [Node.text_assign, Node.text_exprPattern]
    exact Reads.append (htarget.stop isLineStart (op.stops_gap _)) hop
  | computed span level h hp ih ihp =>
    have hbase := h.readsBack (by omega) ih
    refine .inr fun isLineStart rest hf => ?_
    rw [Node.text_computed]
    refine Reads.append (hbase.stop isLineStart ?_) ?_
    · exact stops_cons (by decide) (by decide)
    · refine Reads.bracket (.inr ⟨rfl, rfl⟩) (ihp.imp_right fun hread => ?_)
      exact hread.stop false (stops_cons (by decide) (by decide))
  | @dotted span base name level numeral h hname ih =>
    refine .inr fun isLineStart rest hf => ?_
    have hdot := reads_dotted hname hf.1.wordPart
    rw [Node.text_dotted _ hname]
    cases hwhole : Emit.isWholeNumeral base with
    | true =>
      rw [if_pos rfl, ← List.append_assoc]
      exact (reads_wholeNumeral h hwhole (endsBefore_cons.mpr (by decide))).append hdot
    | false =>
      have hends := numeral.resolve_left (by simp [hwhole])
      have hfollows : Follows base ('.' :: name.name.toList ++ rest) :=
        ⟨endsBefore_cons.mpr (by decide), fun _ => by simp [Node.isDottable, level, hends]⟩
      exact (h.readsBack (by omega) ih isLineStart _ hfollows).append hdot
  | @conditional span condition consequent alternate level levelc levela h hc ha ih ihc iha =>
    refine .inr fun isLineStart rest hf => ?_
    have helse := ((ha.readsBack levela iha).stop false (hf.stops rfl)).gap (gap_cases isPretty)
    have hmark : Reads false .operator [':'] [punct ":"] .operand
        (gap isPretty ++ alternate.text isPretty ++ rest) := reads_mark (by decide) _
    have hcolon := (hmark.append helse).gap (gap_cases isPretty)
    have hstops := stops_gap_cons ':' (by decide) (by decide) isPretty
      (gap isPretty ++ alternate.text isPretty) rest
    have hthen := ((hc.readsBack levelc ihc).stop false hstops).gap (gap_cases isPretty)
    have hquestion := (((hc.reads_question levelc _).append hthen).append hcolon).gap
      (gap_cases isPretty)
    have hcondition := h.readsBack (by omega) ih
    rw [Node.text_conditional, ← List.append_assoc (gap _) (consequent.text isPretty)]
    exact Reads.append (hcondition.stop isLineStart
      (stops_gap_cons '?' (by decide) (by decide) isPretty _ _)) hquestion
  | call span level h plain ha ih iha =>
    have hcallee := h.readsBack (by omega) ih
    refine .inr fun isLineStart rest hf => ?_
    rw [Node.text_call]
    refine Reads.append (hcallee.stop isLineStart ?_) (reads_arguments plain ha iha rest)
    exact stops_cons (by decide) (by decide)
  | @new span callee arguments level h plain ha ih iha =>
    have hcallee := h.readsBack (by omega) ih
    refine .inr fun isLineStart rest hf => ?_
    have hlist := reads_arguments plain ha iha rest
    have hstops : Stops ('(' :: (arguments.text isPretty ++ [')']) ++ rest) :=
      stops_cons (by decide) (by decide)
    have hbase := ((hcallee.stop false hstops).gap (gap_cases (callee.startsWord || isPretty)))
    rw [Node.text_new, ← List.append_assoc (gap _), ← List.append_assoc "new".toList]
    exact ((h.reads_new (by omega) _).append hbase).append hlist
  | @newBare span callee level h ih =>
    refine .inr fun isLineStart rest hf => ?_
    have hfollows : Follows callee rest := by
      refine ⟨hf.1, fun hdot => ?_⟩
      have hends : (!callee.endsInNumeral) = true := hf.2 hdot
      simp [Node.isDottable, level, hends]
    have hrest := (h.readsBack (by omega) ih false rest hfollows).gap
      (gap_cases (callee.startsWord || isPretty))
    rw [Node.text_newBare]
    exact (h.reads_new (by omega) rest).append hrest
  | @sequence span expressions levels h ih =>
    rcases expressions with _ | ⟨first, others⟩
    · exact .inl ⟨Node.text_sequence .nil, rfl⟩
    · refine .inr fun isLineStart rest hf => ?_
      have hstop := hf.stops rfl
      have hread (n) (hn : n ∈ (Nodes.cons first others).toList) :=
        ((h n hn).readsBack (levels n hn) (ih n hn)).stop
      have hfirst := hread first List.mem_cons_self isLineStart
        (others.stops_commaText isPretty hstop)
      have hothers := Nodes.reads_commaText hstop fun n hn _ =>
        hread n (List.mem_cons_of_mem _ hn) false
      rw [Node.text_sequence]
      exact hfirst.append hothers

/-- **No two tokens of a plain expression merge**, if none of its dots stands behind a bare
`new` that ends in a whole number. It is printed with any options, compact or formatted,
and what is printed is read as the elements of the expression. -/
theorem plain_expr_lexes_to_elements (e : Node .expr) (options : PrintOptions)
    (h : e.every Node.isPlain = true) (hdots : e.every Node.hasClearDot = true) :
    ∃ code, printExpr e options = .ok code ∧ lex .operand true code.toList = some e.elements := by
  obtain ⟨code, hcode, htext⟩ := printExpr_plain e options h
  refine ⟨code, hcode, ?_⟩
  rw [htext]
  change lex .operand true (e.text options.isFormatted) = some e.elements
  rcases (Plain.of_every h hdots).reads options.isFormatted with ⟨hnil, hnone⟩ | hread
  · rw [hnil, hnone, lex_nil]
  · have hall := (hread.stop true stops_nil).lex
    rw [List.append_nil, lex_nil] at hall
    rw [hall]
    simp

/-- A comparison with a negated decrement, `a< !--b`, in which the blank keeps the
operators from opening a comment. -/
def lessThanNotDecrement : Node .expr :=
  .binary .dummy .lt (.ident (.ofName "a"))
    (.unary .dummy .not (.update .dummy .decrement true (.ident (.ofName "b"))))

theorem lessThanNotDecrement_lexes_to_elements :
    ∃ code, printExpr lessThanNotDecrement .compact = .ok code ∧
      lex .operand true code.toList = some lessThanNotDecrement.elements :=
  plain_expr_lexes_to_elements lessThanNotDecrement .compact (by decide) (by decide)

/-- A member of a bare `new` of the number one. -/
def newOneMember : Node .expr :=
  .member .dummy (.newBare .dummy (.num (.ofValue ⟨0x3FF0000000000000⟩)) none) (.ident (.ofName "p")) false

/-- The dot behind `new 1` is read as the point of the number, and the name behind it runs
into the number. -/
theorem newOneMember_is_not_read :
    newOneMember.every Node.isPlain = true ∧ printExpr newOneMember .compact = .ok "new 1.p" ∧
      lex .operand true "new 1.p".toList = none := by
  have hnew : Scans .operand true "new 1.p".toList [.word "new".toList] .operand false
      "1.p".toList :=
    .element rfl (by decide) (.skip rfl (by decide) (.here _ _ _))
  refine ⟨by decide, rfl, ?_⟩
  rw [hnew.lex, lex]
  rfl

end EcmaPrinter
