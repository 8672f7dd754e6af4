/-
# Code, literals and comments

A text is read character by character with what it is part of: code, a string, the text
of a template, a regular expression or a comment. Substitutions of templates are code
again, up to the brace that closes them, so the braces that are open in each of them are
counted along.

Whether a slash in code opens a regular expression is known to a parser only, which
expects an operand there or an operator. So each character comes with the goal that it is
read under. A slash is followed up first as one that may open a comment, which it does
under either goal.

A string or a regular expression that a line break cuts off is broken, and so is all that
stands behind it. Comments of markup languages are left out.

Key definitions: `Mode`, `Place`, `readChar`, `scan`.
Key theorems: `scan_of_readString?`, `scan_of_readRegex?`, `scan_templateText`,
`readChar_terminator`.
-/
import EcmaPrinter.Proofs.Layout.Phrasing
import EcmaPrinter.Proofs.Lexical.Terminated

namespace EcmaPrinter.Lexical

/-! ### Modes -/

/-- What a character of a text is part of. -/
inductive Mode where
  | code
  -- behind a slash of code, which may open a comment
  | slash (goal : Goal)
  | quoted (isDouble : Bool)
  | quotedEscape (isDouble : Bool)
  | template
  | templateEscape
  -- behind a dollar sign of a template, which may open a substitution
  | dollar
  | regex (inClass : Bool)
  | regexEscape (inClass : Bool)
  | lineComment
  | blockComment
  -- behind a star of a comment, which may close it
  | star
  | broken
deriving DecidableEq

/-- Where a reader is: the mode, and how many braces are open in each substitution that it
is inside of, innermost first. -/
structure Place where
  mode : Mode
  braces : List Nat
deriving DecidableEq

def quoteChar (isDouble : Bool) : Char := if isDouble then '\x22' else '\x27'

/-- Outside of literals and comments. -/
def code (braces : List Nat) : Place := ⟨.code, braces⟩

/-- The counts behind a brace that opens. -/
def openBrace : List Nat → List Nat
  | [] => []
  | n :: ns => (n + 1) :: ns

/-- The place behind a brace that closes: it may be the one that closes a substitution. -/
def closeBrace : List Nat → Place
  | [] => code []
  | 0 :: ns => ⟨.template, ns⟩
  | (n + 1) :: ns => code (n :: ns)

/-- The place behind a character of code. -/
def readCode (goal : Goal) (braces : List Nat) (c : Char) : Place :=
  if c == '/' then ⟨.slash goal, braces⟩
  else if c == '\x22' then ⟨.quoted true, braces⟩
  else if c == '\x27' then ⟨.quoted false, braces⟩
  else if c == '`' then ⟨.template, braces⟩
  else if c == '\x7b' then code (openBrace braces)
  else if c == '\x7d' then closeBrace braces
  else code braces

/-- The mode behind a character of a regular expression. -/
def readRegexChar (inClass : Bool) (c : Char) : Mode :=
  if isLineBreak c then .broken
  else if c == '\\' then .regexEscape inClass
  else if c == '/' && !inClass then .code
  else .regex (staysInClass inClass c)

/-- The place behind a character of a template, or behind a dollar sign of one. -/
def readTemplate (afterDollar : Bool) (braces : List Nat) (c : Char) : Place :=
  if c == '`' then code braces
  else if c == '\\' then ⟨.templateEscape, braces⟩
  else if c == '$' then ⟨.dollar, braces⟩
  else if c == '\x7b' && afterDollar then code (0 :: braces)
  else ⟨.template, braces⟩

/-- The place behind a character. -/
def readChar (p : Place) (c : Char × Goal) : Place :=
  match p.mode with
  | .code => readCode c.2 p.braces c.1
  | .slash goal =>
    if c.1 == '/' then ⟨.lineComment, p.braces⟩
    else if c.1 == '*' then ⟨.blockComment, p.braces⟩
    else
      match goal with
      | .operator => readCode c.2 p.braces c.1
      | .operand => ⟨readRegexChar false c.1, p.braces⟩
  | .quoted isDouble =>
    if c.1 == quoteChar isDouble then code p.braces
    else if c.1 == '\n' || c.1 == '\r' then ⟨.broken, p.braces⟩
    else if c.1 == '\\' then ⟨.quotedEscape isDouble, p.braces⟩
    else p
  | .quotedEscape isDouble => ⟨.quoted isDouble, p.braces⟩
  | .template => readTemplate false p.braces c.1
  | .templateEscape => ⟨.template, p.braces⟩
  | .dollar => readTemplate true p.braces c.1
  | .regex inClass => ⟨readRegexChar inClass c.1, p.braces⟩
  | .regexEscape inClass =>
    ⟨if isLineBreak c.1 then .broken else .regex inClass, p.braces⟩
  | .lineComment => if isLineBreak c.1 then code p.braces else p
  | .blockComment => if c.1 == '*' then ⟨.star, p.braces⟩ else p
  | .star =>
    if c.1 == '/' then code p.braces
    else if c.1 == '*' then p
    else ⟨.blockComment, p.braces⟩
  | .broken => p

/-- The place behind a text. -/
def scan (p : Place) (text : List (Char × Goal)) : Place := text.foldl readChar p

/-- A text under one goal. -/
def under (goal : Goal) (cs : List Char) : List (Char × Goal) := cs.map fun c => (c, goal)

variable {p : Place} {braces : List Nat} {goal : Goal} {c : Char} {cs : List Char}

@[simp] theorem scan_nil (p : Place) : scan p [] = p := rfl

@[simp] theorem scan_cons (p : Place) (c : Char × Goal) (cs : List (Char × Goal)) :
    scan p (c :: cs) = scan (readChar p c) cs := rfl

theorem scan_append (p : Place) (cs ds : List (Char × Goal)) :
    scan p (cs ++ ds) = scan (scan p cs) ds :=
  List.foldl_append

@[simp] theorem under_nil (goal : Goal) : under goal [] = [] := rfl

@[simp] theorem under_cons (goal : Goal) (c : Char) (cs : List Char) :
    under goal (c :: cs) = (c, goal) :: under goal cs := rfl

@[simp] theorem under_append (goal : Goal) (cs ds : List Char) :
    under goal (cs ++ ds) = under goal cs ++ under goal ds :=
  List.map_append

/-! ### Code -/

/-- What neither opens a literal or a comment nor is a brace. -/
def isCodeChar (c : Char) : Bool :=
  !(c == '/' || c == '\x22' || c == '\x27' || c == '`' || c == '\x7b' || c == '\x7d')

/-- A text that stays in code. -/
def isCodeText (s : String) : Bool := s.toList.all isCodeChar

theorem isCodeText_of_isPlainText {s : String} (h : isPlainText s = true) :
    isCodeText s = true := by
  have hplain : ∀ c, isCodeChar c = false → isPlainChar c = false := by
    intro c hc
    simp only [isCodeChar, Bool.not_eq_false', Bool.or_eq_true, beq_iff_eq] at hc
    rcases hc with ((((rfl | rfl) | rfl) | rfl) | rfl) | rfl <;> decide
  rw [isCodeText, List.all_eq_true]
  intro c hc
  have hc := List.all_eq_true.mp h c hc
  cases hcode : isCodeChar c with
  | true => rfl
  | false =>
    rw [hplain c hcode] at hc
    cases hc

theorem readCode_of_isCodeChar (h : isCodeChar c = true) : readCode goal braces c = code braces := by
  simp only [isCodeChar, Bool.not_eq_true', Bool.or_eq_false_iff] at h
  obtain ⟨⟨⟨⟨⟨hslash, hdouble⟩, hsingle⟩, htick⟩, hopen⟩, hclose⟩ := h
  simp [readCode, hslash, hdouble, hsingle, htick, hopen, hclose]

theorem scan_code : ∀ {cs : List Char}, (∀ c ∈ cs, isCodeChar c = true) →
    scan (code braces) (under goal cs) = code braces
  | [], _ => rfl
  | c :: cs, h => by
    obtain ⟨hc, hcs⟩ := List.forall_mem_cons.mp h
    have hchar : readChar (code braces) (c, goal) = code braces := readCode_of_isCodeChar hc
    rw [under_cons, scan_cons, hchar, scan_code hcs]

/-- What follows a division: no slash and no star, which would open a comment. -/
def followsSlash (c : Char) : Bool := !(c == '/' || c == '*')

/-- Behind a division the reader is in code, unless a comment opens. -/
theorem scan_division {text : List (Char × Goal)}
    (h : text.head?.any (fun c => followsSlash c.1) = true) :
    scan ⟨.slash .operator, braces⟩ text = scan (code braces) text := by
  cases text with
  | nil => cases h
  | cons c cs =>
    have hc : (c.1 == '/') = false ∧ (c.1 == '*') = false := by
      simpa [followsSlash] using h
    simp [readChar, code, hc.1, hc.2]

/-- **A terminator behind which a reader is in code is read in code**, at most behind a
division. -/
theorem readChar_terminator (hc : isTerminator c = true) (h : readChar p (c, goal) = code braces) :
    p.mode = .code ∨ p.mode = .slash .operator := by
  have hmode : (readChar p (c, goal)).mode = .code := congrArg Place.mode h
  obtain ⟨mode, braces⟩ := p
  rcases isTerminator_cases hc with rfl | rfl
  all_goals
    cases mode with
    | code => exact .inl rfl
    | slash goal =>
      cases goal with
      | operator => exact .inr rfl
      | operand => cases hmode
    | quoted isDouble => cases isDouble <;> cases hmode
    | regex inClass => cases inClass <;> cases hmode
    | _ => cases hmode

/-! ### Literals -/

/-- A string is over where the reader of strings ends it. -/
theorem scan_of_readString? {isDouble : Bool} {cs : List Char} :
    ∀ {text rest : List Char}, readString? (quoteChar isDouble) cs = some (text, rest) →
    cs = text ++ rest ∧ scan ⟨.quoted isDouble, braces⟩ (under goal text) = code braces := by
  induction cs using readString?.induct (quoteChar isDouble) with
  | case1 => intro text rest h; rw [readString?] at h; cases h
  | case2 d t hquote =>
    intro text rest h
    rw [readString?.eq_def] at h
    simp only [hquote, if_true] at h
    cases h
    exact ⟨rfl, by simp [readChar, hquote]⟩
  | case3 d t hquote hbreak =>
    intro text rest h
    rw [readString?.eq_def] at h
    simp only [hquote, hbreak, if_true] at h
    cases h
  | case4 d hquote hbreak hback =>
    intro text rest h
    rw [readString?.eq_def] at h
    simp only [hquote, hbreak, hback, if_true] at h
    cases h
  | case5 d hquote hbreak hback e t ih =>
    intro text rest h
    rw [readString?.eq_def] at h
    simp only [hquote, hbreak, hback, if_true] at h
    obtain ⟨⟨text', rest'⟩, hread, hpair⟩ := Option.map_eq_some_iff.mp h
    cases hpair
    obtain ⟨rfl, hscan⟩ := ih hread
    exact ⟨rfl, by simp [readChar, hquote, hbreak, hback, hscan]⟩
  | case6 d t hquote hbreak hback ih =>
    intro text rest h
    rw [readString?.eq_def] at h
    simp only [hquote, hbreak, hback] at h
    obtain ⟨⟨text', rest'⟩, hread, hpair⟩ := Option.map_eq_some_iff.mp h
    cases hpair
    obtain ⟨rfl, hscan⟩ := ih hread
    exact ⟨rfl, by simp [readChar, hquote, hbreak, hback, hscan]⟩

/-- A regular expression is over where the reader of regular expressions ends it. -/
theorem scan_of_readRegex? {inClass : Bool} {cs : List Char} :
    ∀ {body rest : List Char}, readRegex? inClass cs = some (body, rest) →
    cs = body ++ '/' :: rest ∧
      scan ⟨.regex inClass, braces⟩ (under goal (body ++ ['/'])) = code braces := by
  induction inClass, cs using readRegex?.induct with
  | case1 inClass => intro body rest h; rw [readRegex?] at h; cases h
  | case2 inClass d t hbreak =>
    intro body rest h
    rw [readRegex?.eq_def] at h
    simp only [hbreak, if_true] at h
    cases h
  | case3 inClass d hbreak hback =>
    intro body rest h
    rw [readRegex?.eq_def] at h
    simp only [hbreak, hback, if_true] at h
    cases h
  | case4 inClass d hbreak hback e t hbreak' =>
    intro body rest h
    rw [readRegex?.eq_def] at h
    simp only [hbreak, hback, hbreak', if_true] at h
    cases h
  | case5 inClass d hbreak hback e t hbreak' ih =>
    intro body rest h
    rw [readRegex?.eq_def] at h
    simp only [hbreak, hback, hbreak', if_true] at h
    obtain ⟨⟨body', rest'⟩, hread, hpair⟩ := Option.map_eq_some_iff.mp h
    cases hpair
    obtain ⟨rfl, hscan⟩ := ih hread
    exact ⟨rfl, by simpa [readChar, readRegexChar, hbreak, hback, hbreak'] using hscan⟩
  | case6 inClass d t hbreak hback hslash =>
    intro body rest h
    rw [readRegex?.eq_def] at h
    simp only [hbreak, hback, hslash, if_true] at h
    cases h
    obtain ⟨rfl, rfl⟩ : d = '/' ∧ inClass = false := by simpa using hslash
    exact ⟨rfl, rfl⟩
  | case7 inClass d t hbreak hback hslash ih =>
    intro body rest h
    rw [readRegex?.eq_def] at h
    simp only [hbreak, hback, hslash] at h
    obtain ⟨⟨body', rest'⟩, hread, hpair⟩ := Option.map_eq_some_iff.mp h
    cases hpair
    obtain ⟨rfl, hscan⟩ := ih hread
    exact ⟨rfl, by simpa [readChar, readRegexChar, hbreak, hback, hslash] using hscan⟩

/-- Behind the slash that opens it the reader is in a regular expression, unless a comment
opens. -/
theorem scan_regex {text : List (Char × Goal)}
    (h : text.head?.any (fun c => followsSlash c.1) = true) :
    scan ⟨.slash .operand, braces⟩ text = scan ⟨.regex false, braces⟩ text := by
  cases text with
  | nil => cases h
  | cons c cs =>
    have hc : (c.1 == '/') = false ∧ (c.1 == '*') = false := by
      simpa [followsSlash] using h
    simp [readChar, hc.1, hc.2]

/-- Text of a template that neither ends it nor opens a substitution. -/
def isTemplateText (afterDollar : Bool) : List Char → Bool
  | [] => true
  | c :: cs =>
    c != '`' && !(c == '\x7b' && afterDollar) &&
      if c == '\\' then
        match cs with
        | [] => false
        | _ :: ds => isTemplateText false ds
      else isTemplateText (c == '$') cs

/-- In the text of a template. -/
def inTemplate (afterDollar : Bool) (braces : List Nat) : Place :=
  ⟨if afterDollar then .dollar else .template, braces⟩

theorem readChar_inTemplate (afterDollar : Bool) :
    readChar (inTemplate afterDollar braces) (c, goal) = readTemplate afterDollar braces c := by
  cases afterDollar <;> rfl

theorem scan_templateText : ∀ {afterDollar : Bool} {cs : List Char},
    isTemplateText afterDollar cs = true → ∃ afterDollar',
      scan (inTemplate afterDollar braces) (under goal cs) = inTemplate afterDollar' braces
  | afterDollar, [], _ => ⟨afterDollar, rfl⟩
  | afterDollar, c :: cs, h => by
    rw [isTemplateText.eq_def, Bool.and_eq_true, Bool.and_eq_true, bne_iff_ne,
      Bool.not_eq_true'] at h
    obtain ⟨⟨htick, hbrace⟩, h⟩ := h
    rw [under_cons, scan_cons, readChar_inTemplate, readTemplate]
    simp only [beq_eq_false_iff_ne.mpr htick, hbrace, Bool.false_eq_true, ↓reduceIte]
    by_cases hback : c = '\\'
    · simp only [hback, beq_self_eq_true, if_true] at h ⊢
      cases cs with
      | nil => cases h
      | cons d ds => exact scan_templateText h
    · simp only [beq_eq_false_iff_ne.mpr hback, Bool.false_eq_true, ↓reduceIte] at h ⊢
      have ih := scan_templateText h
      cases hdollar : c == '$' with
      | true => simpa [hdollar, inTemplate] using ih
      | false => simpa [hdollar, inTemplate] using ih
termination_by _ cs => cs.length

end EcmaPrinter.Lexical
