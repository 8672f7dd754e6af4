/-
# Source text in lexical elements

Reads the text of an expression the way a parser of the language would: blanks
and comments are skipped, and at every place the longest element is taken. A
slash opens a regular expression where an operand is expected and is a division
where an operator is; the goal says which, and follows from the element before.

Words are those in ASCII, numbers are decimal, and templates are left out. The flags
of a regular expression may have characters beyond ASCII, of which all that separate
nothing are taken. Text with anything else in it has no elements, and neither has text
in which a number runs into a word or a string or comment stays open.

A text is read in parts, one behind the other (`Scans`), and a part of it is read as
some elements in front of the text behind it (`Reads`).

Key definitions: `Element`, `Goal`, `step`, `lex`, `Scans`, `Reads`.
Key theorems: `Scans.lex`, `Scans.trans`, `Reads.of_step`, `Reads.append`.
-/

namespace EcmaPrinter.Lexical

/-! ### Elements -/

/-- What source text consists of, besides blanks and comments. -/
inductive Element where
  | word (text : List Char)
  /-- A point of a number with no digit behind it is left out. -/
  | number (text : List Char)
  /-- A string, quotes included. -/
  | string (text : List Char)
  | regex (body flags : List Char)
  | punct (text : List Char)
deriving DecidableEq

/-- What the parser expects next. -/
inductive Goal where
  | operand
  | operator
deriving DecidableEq

def isWordStart (c : Char) : Bool := c.isAlpha || c == '$' || c == '_'

def isWordPart (c : Char) : Bool := isWordStart c || c.isDigit

def isBlank (c : Char) : Bool := c == ' ' || c == '\t'

def isLineBreak (c : Char) : Bool :=
  c == '\n' || c == '\r' || c.toNat == 0x2028 || c.toNat == 0x2029

/-- White space beyond ASCII. -/
def isWideBlank (c : Char) : Bool :=
  [0xA0, 0x1680, 0x202F, 0x205F, 0x3000, 0xFEFF].contains c.toNat
    || (0x2000 ≤ c.toNat && c.toNat ≤ 0x200A)

/-- What the flags of a regular expression are made of. -/
def isFlagPart (c : Char) : Bool :=
  isWordPart c || (128 ≤ c.toNat && !isLineBreak c && !isWideBlank c)

/-- Words that are operators, and so have an operand behind them. -/
def operatorWords : List (List Char) :=
  ["typeof".toList, "void".toList, "delete".toList, "new".toList, "in".toList,
    "instanceof".toList]

/-- The goal behind an element. Behind `++` and `--` it stays: they follow an
operand where an operator is expected, and precede one elsewhere. -/
def Goal.after (goal : Goal) : Element → Goal
  | .word text => if operatorWords.contains text then .operand else .operator
  | .number _ | .string _ | .regex _ _ => .operator
  | .punct text =>
    if [")".toList, "]".toList, "\x7d".toList].contains text then .operator
    else if ["++".toList, "--".toList].contains text then goal
    else .operand

/-! ### Numbers -/

/-- The letter that opens an exponent, with its sign. -/
def exponentMark : List Char → List Char
  | [] => []
  | e :: cs =>
    if e == 'e' || e == 'E' then
      match cs with
      | '+' :: _ => [e, '+']
      | '-' :: _ => [e, '-']
      | _ => [e]
    else []

/-- An exponent, and what follows it. -/
def readExponent (cs : List Char) : List Char × List Char :=
  let mark := exponentMark cs
  let digits := (cs.drop mark.length).takeWhile Char.isDigit
  if mark.isEmpty || digits.isEmpty then ([], cs)
  else (mark ++ digits, (cs.drop mark.length).dropWhile Char.isDigit)

/-- The digits behind a point, and what follows them. -/
def readFraction : List Char → List Char × List Char
  | '.' :: cs =>
    let digits := cs.takeWhile Char.isDigit
    (if digits.isEmpty then [] else '.' :: digits, cs.dropWhile Char.isDigit)
  | cs => ([], cs)

/-- A number, and what follows it. A zero in front of a digit is not a number, and
a number does not run into a word. -/
def readNumber? (cs : List Char) : Option (List Char × List Char) :=
  let whole := cs.takeWhile Char.isDigit
  let (fraction, afterFraction) := readFraction (cs.dropWhile Char.isDigit)
  let (exponent, rest) := readExponent afterFraction
  if whole.head? == some '0' && whole.length != 1 then none
  else if rest.head?.any isWordPart then none
  else some (whole ++ fraction ++ exponent, rest)

def startsNumber : List Char → Bool
  | '.' :: c :: _ => c.isDigit
  | c :: _ => c.isDigit
  | [] => false

/-! ### Strings and regular expressions -/

/-- A string behind its first quote, and what follows it. A backslash takes the
next character with it. -/
def readString? (quote : Char) : List Char → Option (List Char × List Char)
  | [] => none
  | c :: cs =>
    if c == quote then some ([c], cs)
    else if c == '\n' || c == '\r' then none
    else if c == '\\' then
      match cs with
      | [] => none
      | d :: ds => (readString? quote ds).map fun (text, rest) => (c :: d :: text, rest)
    else (readString? quote cs).map fun (text, rest) => (c :: text, rest)

/-- Whether a character class is open behind a character that is not escaped. -/
def staysInClass (inClass : Bool) (c : Char) : Bool :=
  if c == '[' then true else if c == ']' then false else inClass

/-- The body of a regular expression behind its first slash, and what follows the
slash that closes it. -/
def readRegex? (inClass : Bool) : List Char → Option (List Char × List Char)
  | [] => none
  | c :: cs =>
    if isLineBreak c then none
    else if c == '\\' then
      match cs with
      | [] => none
      | d :: ds =>
        if isLineBreak d then none
        else (readRegex? inClass ds).map fun (body, rest) => (c :: d :: body, rest)
    else if c == '/' && !inClass then some ([], cs)
    else (readRegex? (staysInClass inClass c) cs).map fun (body, rest) => (c :: body, rest)

/-! ### Punctuators and comments -/

/-- Punctuators, the longest first. -/
def punctuators : List (List Char) :=
  [">>>="].map String.toList
    ++ ["...", "===", "!==", "**=", "<<=", ">>=", ">>>", "&&=", "||=", "??="].map String.toList
    ++ ["=>", "==", "!=", "<=", ">=", "&&", "||", "??", "?.", "++", "--", "+=", "-=", "*=", "/=",
      "%=", "&=", "|=", "^=", "<<", ">>", "**"].map String.toList
    ++ ["\x7b", "\x7d", "(", ")", "[", "]", ";", ",", "<", ">", "+", "-", "*", "/", "%", "&", "|",
      "^", "!", "~", "?", ":", "=", "."].map String.toList

/-- A question mark and a number are not the punctuator `?.`. -/
def isChain (p cs : List Char) : Bool :=
  p == "?.".toList && (cs.drop p.length).head?.any Char.isDigit

/-- The longest punctuator that a text starts with. -/
def readPunct? (cs : List Char) : Option (List Char) :=
  punctuators.find? fun p => p.isPrefixOf cs && !isChain p cs

/-- Whether the rest of the line is a comment. What closes a comment of a markup
language opens one at the start of a line. -/
def opensLineComment (isLineStart : Bool) (cs : List Char) : Bool :=
  "//".toList.isPrefixOf cs || "<!--".toList.isPrefixOf cs
    || (isLineStart && "-->".toList.isPrefixOf cs)

/-- What follows a comment that is already open. -/
def afterComment? : List Char → Option (List Char)
  | [] => none
  | '*' :: '/' :: cs => some cs
  | _ :: cs => afterComment? cs

/-! ### Reading -/

/-- What stands at the start of a text. -/
inductive Step where
  | done
  | stuck
  | skip (isLineStart : Bool) (rest : List Char)
  | element (e : Element) (rest : List Char)

/-- The element or the blanks that a text starts with. -/
def step (goal : Goal) (isLineStart : Bool) (cs : List Char) : Step :=
  match cs with
  | [] => .done
  | c :: rest =>
    if isBlank c then .skip isLineStart rest
    else if isLineBreak c then .skip true rest
    else if opensLineComment isLineStart cs then
      .skip isLineStart (cs.dropWhile fun c => !isLineBreak c)
    else if "/*".toList.isPrefixOf cs then
      match afterComment? (cs.drop 2) with
      | none => .stuck
      | some after =>
        .skip (isLineStart || (cs.take (cs.length - after.length)).any isLineBreak) after
    else if isWordStart c then
      .element (.word (cs.takeWhile isWordPart)) (cs.dropWhile isWordPart)
    else if startsNumber cs then
      match readNumber? cs with
      | none => .stuck
      | some (text, after) => .element (.number text) after
    else if c == '\x22' || c == '\x27' then
      match readString? c rest with
      | none => .stuck
      | some (text, after) => .element (.string (c :: text)) after
    else if c == '/' && goal == .operand then
      match readRegex? false rest with
      | none => .stuck
      | some (body, after) =>
        .element (.regex body (after.takeWhile isFlagPart)) (after.dropWhile isFlagPart)
    else
      match readPunct? cs with
      | none => .stuck
      | some p => .element (.punct p) (cs.drop p.length)

/-- The elements of a text, if it can be read to its end. -/
def lex (goal : Goal) (isLineStart : Bool) (cs : List Char) : Option (List Element) :=
  match step goal isLineStart cs with
  | .done => some []
  | .stuck => none
  | .skip isLineStart rest =>
    if rest.length < cs.length then lex goal isLineStart rest else none
  | .element e rest =>
    if rest.length < cs.length then (lex (goal.after e) false rest).map (e :: ·) else none
termination_by cs.length

theorem lex_nil (goal : Goal) (isLineStart : Bool) : lex goal isLineStart [] = some [] := by
  rw [lex]
  rfl

/-! ### Reading in parts -/

/-- Reading a text goes through the given elements to a rest of the text. -/
inductive Scans : Goal → Bool → List Char → List Element → Goal → Bool → List Char → Prop
  | here (goal : Goal) (isLineStart : Bool) (cs : List Char) :
      Scans goal isLineStart cs [] goal isLineStart cs
  | skip {goal goal' : Goal} {isLineStart b b' : Bool} {cs after rest : List Char}
      {es : List Element} (hstep : step goal isLineStart cs = .skip b after)
      (hlen : after.length < cs.length) (h : Scans goal b after es goal' b' rest) :
      Scans goal isLineStart cs es goal' b' rest
  | element {goal goal' : Goal} {isLineStart b' : Bool} {cs after rest : List Char}
      {e : Element} {es : List Element} (hstep : step goal isLineStart cs = .element e after)
      (hlen : after.length < cs.length) (h : Scans (goal.after e) false after es goal' b' rest) :
      Scans goal isLineStart cs (e :: es) goal' b' rest

namespace Scans

variable {goal goal' goal'' : Goal} {isLineStart b' b'' : Bool} {cs mid rest : List Char}
  {es es' : List Element}

/-- What is read of a text stands in front of what is read of its rest. -/
theorem lex (h : Scans goal isLineStart cs es goal' b' rest) :
    lex goal isLineStart cs = (lex goal' b' rest).map (es ++ ·) := by
  induction h with
  | here => simp
  | skip hstep hlen _ ih =>
    rw [Lexical.lex, hstep]
    simp only [if_pos hlen, ih]
  | element hstep hlen _ ih =>
    rw [Lexical.lex, hstep]
    simp only [if_pos hlen, ih, Option.map_map]
    rfl

theorem trans (h : Scans goal isLineStart cs es goal' b' mid)
    (h' : Scans goal' b' mid es' goal'' b'' rest) :
    Scans goal isLineStart cs (es ++ es') goal'' b'' rest := by
  induction h with
  | here => exact h'
  | skip hstep hlen _ ih => exact .skip hstep hlen (ih h')
  | element hstep hlen _ ih => exact .element hstep hlen (ih h')

end Scans

/-- A text in front of `rest` is read as some elements, and leaves a goal
behind. -/
def Reads (isLineStart : Bool) (goal : Goal) (text : List Char) (elements : List Element)
    (goal' : Goal) (rest : List Char) : Prop :=
  Scans goal isLineStart (text ++ rest) elements goal' false rest

namespace Reads

variable {isLineStart : Bool} {goal goal' goal'' : Goal} {text text' rest : List Char}
  {es es' : List Element}

theorem nil (goal : Goal) (rest : List Char) : Reads false goal [] [] goal rest := .here _ _ _

/-- A text that is read in one step is one element. -/
theorem of_step {e : Element} (h : step goal isLineStart (text ++ rest) = .element e rest)
    (hne : text ≠ []) : Reads isLineStart goal text [e] (goal.after e) rest := by
  have hlen : rest.length < (text ++ rest).length := by
    have := List.length_pos_iff.mpr hne
    rw [List.length_append]
    omega
  exact .element h hlen (.here _ _ _)

theorem append (h : Reads isLineStart goal text es goal' (text' ++ rest))
    (h' : Reads false goal' text' es' goal'' rest) :
    Reads isLineStart goal (text ++ text') (es ++ es') goal'' rest := by
  unfold Reads at h ⊢
  rw [List.append_assoc]
  exact h.trans h'

theorem blank (h : Reads isLineStart goal text es goal' rest) :
    Reads isLineStart goal (' ' :: text) es goal' rest :=
  .skip (by simp [step, isBlank]) (Nat.lt_succ_self _) h

/-- An optional blank changes nothing. -/
theorem gap {blanks : List Char} (hb : blanks = [] ∨ blanks = [' '])
    (h : Reads isLineStart goal text es goal' rest) :
    Reads isLineStart goal (blanks ++ text) es goal' rest := by
  rcases hb with rfl | rfl
  · exact h
  · exact h.blank

end Reads

end EcmaPrinter.Lexical
