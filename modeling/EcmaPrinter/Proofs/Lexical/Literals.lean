/-
# Words and literals are read as one element

A word, a number, a string and a regular expression are each read as a single
element, as long as what follows does not continue them. Only words, numbers and
regular expressions can be continued: by a letter, a digit, `$` or `_`, and a
whole number also by a point.

Key definitions: `Numeral`, `EndsBefore`.
Key theorems: `reads_word`, `reads_number`, `reads_wholePoint`, `reads_string`,
`reads_regex`.
-/
import EcmaPrinter.Proofs.Lexical.Plain

namespace EcmaPrinter.Lexical

/-! ### Characters -/

/-- A text does not start with a character that passes the test. -/
def EndsBefore (test : Char → Bool) (rest : List Char) : Prop := rest.head?.any test = false

theorem endsBefore_cons {test : Char → Bool} {c : Char} {rest : List Char} :
    EndsBefore test (c :: rest) ↔ test c = false := by
  simp [EndsBefore]

theorem takeWhile_append_ends {test : Char → Bool} {text rest : List Char}
    (h : ∀ c ∈ text, test c = true) (hr : EndsBefore test rest) :
    (text ++ rest).takeWhile test = text := by
  rw [List.takeWhile_append_of_pos h]
  cases rest with
  | nil => simp
  | cons c cs => simp [endsBefore_cons.mp hr]

theorem dropWhile_append_ends {test : Char → Bool} {text rest : List Char}
    (h : ∀ c ∈ text, test c = true) (hr : EndsBefore test rest) :
    (text ++ rest).dropWhile test = rest := by
  rw [List.dropWhile_append_of_pos h]
  cases rest with
  | nil => simp
  | cons c cs => simp [endsBefore_cons.mp hr]

theorem mem_digits_of_isDigit {c : Char} (h : c.isDigit = true) : c ∈ "0123456789".toList := by
  have hall : ∀ k : Fin 10, Char.ofNat (48 + k) ∈ "0123456789".toList := by decide
  have hcodes : 48 ≤ c.toNat ∧ c.toNat ≤ 57 := Char.isDigit_iff_toNat.mp h
  have hmem := hall ⟨c.toNat - 48, by omega⟩
  have hcode : 48 + (c.toNat - 48) = c.toNat := by omega
  rwa [hcode, Char.ofNat_toNat] at hmem

/-- A digit passes a test that the ten of them pass. -/
theorem test_of_isDigit {test : Char → Bool} (h : "0123456789".toList.all test = true) {c : Char}
    (hc : c.isDigit = true) : test c = true :=
  List.all_eq_true.mp h c (mem_digits_of_isDigit hc)

theorem isWordPart_of_isDigit {c : Char} (h : c.isDigit = true) : isWordPart c = true := by
  simp [isWordPart, h]

theorem EndsBefore.mono {test test' : Char → Bool} (hmono : ∀ c, test c = false → test' c = false)
    {rest : List Char} (h : EndsBefore test rest) : EndsBefore test' rest := by
  cases rest with
  | nil => rfl
  | cons c cs => exact endsBefore_cons.mpr (hmono c (endsBefore_cons.mp h))

/-- What continues no word continues no name and no flags either. -/
theorem EndsBefore.wordPart {rest : List Char} (h : EndsBefore isWordy rest) :
    EndsBefore isWordPart rest :=
  h.mono fun _ hc => (Bool.or_eq_false_iff.mp hc).1

theorem EndsBefore.flagPart {rest : List Char} (h : EndsBefore isWordy rest) :
    EndsBefore isFlagPart rest :=
  h.mono fun c hc => by
    obtain ⟨hpart, hwide⟩ := Bool.or_eq_false_iff.mp hc
    simp [isFlagPart, hpart, hwide]

theorem EndsBefore.digit {rest : List Char} (h : EndsBefore isWordPart rest) :
    EndsBefore Char.isDigit rest :=
  h.mono fun _ hc => (Bool.or_eq_false_iff.mp hc).2

/-- The codes of letters. -/
theorem isAlpha_iff {c : Char} : c.isAlpha = true ↔
    (65 ≤ c.val.toNat ∧ c.val.toNat ≤ 90) ∨ (97 ≤ c.val.toNat ∧ c.val.toNat ≤ 122) := by
  change (decide (c.val ≥ 'A'.val ∧ c.val ≤ 'Z'.val) ||
    (decide (c.val ≥ 'a'.val) && decide (c.val ≤ 'z'.val))) = true ↔ _
  rw [Bool.or_eq_true, Bool.and_eq_true, decide_eq_true_iff, decide_eq_true_iff,
    decide_eq_true_iff]
  exact Iff.rfl

theorem toNat_lt_of_isWordPart {c : Char} (h : isWordPart c = true) : c.toNat < 128 := by
  simp only [isWordPart, isWordStart, isAlpha_iff, Char.isDigit, Bool.or_eq_true,
    Bool.and_eq_true, decide_eq_true_eq, beq_iff_eq, ge_iff_le, UInt32.le_iff_toNat_le] at h
  have hval : c.toNat = c.val.toNat := rfl
  rcases h with (((⟨_, h⟩ | ⟨_, h⟩) | rfl) | rfl) | ⟨_, h⟩
  · exact Nat.lt_of_le_of_lt h (by decide)
  · exact Nat.lt_of_le_of_lt h (by decide)
  · decide
  · decide
  · exact Nat.lt_of_le_of_lt h (by decide)

/-- Characters that neither open a comment nor separate elements. -/
def isSolid (c : Char) : Bool :=
  !isBlank c && !isLineBreak c && c != '/' && c != '<' && c != '-'

theorem isSolid_of_isWordPart {c : Char} (h : isWordPart c = true) : isSolid c = true := by
  have hlt := toNat_lt_of_isWordPart h
  have hne (d : Char) (hd : isWordPart d = false) : c ≠ d := by
    rintro rfl
    rw [h] at hd
    cases hd
  have hnat (n : Nat) (hn : 128 ≤ n) : c.toNat ≠ n := by omega
  simp [isSolid, isBlank, isLineBreak, hne ' ' (by decide), hne '\t' (by decide),
    hne '\n' (by decide), hne '\r' (by decide), hne '/' (by decide), hne '<' (by decide),
    hne '-' (by decide), hnat 0x2028 (by decide), hnat 0x2029 (by decide)]

theorem opensLineComment_of_isSolid {c : Char} (isLineStart : Bool) (rest : List Char)
    (h : isSolid c = true) : opensLineComment isLineStart (c :: rest) = false := by
  simp only [isSolid, Bool.and_eq_true, bne_iff_ne] at h
  obtain ⟨⟨⟨_, hslash⟩, hless⟩, hminus⟩ := h
  simp [opensLineComment, List.isPrefixOf, hslash.symm, hless.symm, hminus.symm]

/-- What a solid character starts is no comment. -/
theorem step_of_isSolid {goal : Goal} {isLineStart : Bool} {c : Char} {rest : List Char}
    (h : isSolid c = true) :
    step goal isLineStart (c :: rest) =
      if isWordStart c then
        .element (.word ((c :: rest).takeWhile isWordPart)) ((c :: rest).dropWhile isWordPart)
      else if startsNumber (c :: rest) then
        match readNumber? (c :: rest) with
        | none => .stuck
        | some (text, after) => .element (.number text) after
      else if c == '\x22' || c == '\x27' then
        match readString? c rest with
        | none => .stuck
        | some (text, after) => .element (.string (c :: text)) after
      else
        match readPunct? (c :: rest) with
        | none => .stuck
        | some p => .element (.punct p) ((c :: rest).drop p.length) := by
  have hcomment := opensLineComment_of_isSolid isLineStart rest h
  simp only [isSolid, Bool.and_eq_true, bne_iff_ne, Bool.not_eq_true'] at h
  obtain ⟨⟨⟨⟨hblank, hline⟩, hslash⟩, _⟩, _⟩ := h
  have hopens : "/*".toList.isPrefixOf (c :: rest) = false := by
    simp [List.isPrefixOf, hslash.symm]
  have hregex : (c == '/' && goal == .operand) = false := by simp [hslash]
  rw [step, hblank, hline, hcomment, hopens, hregex]
  rfl

/-! ### Words -/

theorem isWordPart_of_mem {text : List Char} (h : isWord text = true) :
    ∀ c ∈ text, isWordPart c = true := by
  cases text with
  | nil => cases h
  | cons c cs =>
    simp only [isWord, Bool.and_eq_true, List.all_eq_true] at h
    intro d hd
    rcases List.mem_cons.mp hd with rfl | hd
    · simp [isWordPart, h.1]
    · exact h.2 d hd

/-- **A word is read as one element** if no letter or digit follows. -/
theorem reads_word {isLineStart : Bool} {goal : Goal} {text rest : List Char}
    (h : isWord text = true) (hr : EndsBefore isWordPart rest) :
    Reads isLineStart goal text [.word text] (goal.after (.word text)) rest := by
  have hparts := isWordPart_of_mem h
  have htake := takeWhile_append_ends hparts hr
  have hdrop := dropWhile_append_ends hparts hr
  cases text with
  | nil => cases h
  | cons c cs =>
    simp only [isWord, Bool.and_eq_true] at h
    apply Reads.of_step _ (by simp)
    rw [List.cons_append] at htake hdrop ⊢
    rw [step_of_isSolid (isSolid_of_isWordPart (hparts c (by simp))), if_pos h.1, htake, hdrop]

/-! ### Strings -/

section Strings

open Text

/-- A character that a string holds as it is. -/
def isPlainIn (quote c : Char) : Bool := c != quote && c != '\n' && c != '\r' && c != '\\'

theorem readString?_plain {quote c : Char} (cs : List Char) (h : isPlainIn quote c = true) :
    readString? quote (c :: cs) = (readString? quote cs).map fun r => (c :: r.1, r.2) := by
  simp only [isPlainIn, Bool.and_eq_true, bne_iff_ne] at h
  obtain ⟨⟨⟨hquote, hnew⟩, hreturn⟩, hback⟩ := h
  rw [readString?.eq_def]
  simp [hquote, hnew, hreturn, hback]

theorem readString?_escaped {quote : Char} (d : Char) (cs : List Char) (h : quote ≠ '\\') :
    readString? quote ('\\' :: d :: cs) =
      (readString? quote cs).map fun r => ('\\' :: d :: r.1, r.2) := by
  simp [readString?, h.symm]

theorem readString?_plainAll {quote : Char} (cs : List Char) : ∀ {text : List Char},
    (∀ c ∈ text, isPlainIn quote c = true) →
    readString? quote (text ++ cs) = (readString? quote cs).map fun r => (text ++ r.1, r.2)
  | [], _ => by simp
  | c :: text, h => by
    rw [List.forall_mem_cons] at h
    rw [List.cons_append, readString?_plain _ h.1, readString?_plainAll cs h.2, Option.map_map]
    rfl

theorem isPlainIn_hexDigit {quote : Char} (hq : quote = singleQuote ∨ quote = doubleQuote)
    (n : Nat) : isPlainIn quote (hexDigit (n % 16)) = true := by
  have h : ∀ k : Fin 16, isPlainIn singleQuote (hexDigit k) = true ∧
      isPlainIn doubleQuote (hexDigit k) = true := by decide
  have hn := h ⟨n % 16, Nat.mod_lt n (by decide)⟩
  rcases hq with rfl | rfl
  · exact hn.1
  · exact hn.2

theorem isPlainIn_hex4 {quote : Char} (hq : quote = singleQuote ∨ quote = doubleQuote) (n : Nat) :
    ∀ c ∈ hex4 n, isPlainIn quote c = true := by
  intro c hc
  simp only [hex4, List.mem_cons, List.not_mem_nil, or_false] at hc
  rcases hc with rfl | rfl | rfl | rfl <;> exact isPlainIn_hexDigit hq _

/-- The characters that a backslash and a letter stand for, with the letter. -/
def letterEscapes : List (Char × Char) := [('\n', 'n'), ('\r', 'r'), ('\t', 't'), ('\\', '\\')]

/-- The texts that a character is written as in front of `next`. -/
inductive WrittenForm (quote : Char) (next : Option Char) (c : Char) : List Char → Prop where
  | plain (hplain : isPlainIn quote c = true) (hline : isLineBreak c = false)
    (hcontrol : 0x20 ≤ c.toNat ∧ c.toNat ≠ 0x7F) : WrittenForm quote next c [c]
  | letter {l : Char} (h : (c, l) ∈ letterEscapes) : WrittenForm quote next c ['\\', l]
  | quote (h : c = quote) : WrittenForm quote next c ['\\', c]
  | zero (h : c = '\x00') (hnext : next.any Char.isDigit = false) :
    WrittenForm quote next c ['\\', '0']
  | zeroBeforeDigit (h : c = '\x00') : WrittenForm quote next c ['\\', 'x', '0', '0']
  | hex (h : c.toNat < 65536) : WrittenForm quote next c ('\\' :: 'u' :: hex4 c.toNat)

theorem escapeChar_writtenForm (quote : Char) (next : Option Char) (c : Char) :
    WrittenForm quote next c (escapeChar quote next c) := by
  unfold escapeChar
  by_cases hn : c = '\n'
  · rw [if_pos hn]
    exact .letter (by simp [letterEscapes, hn])
  by_cases hr : c = '\r'
  · rw [if_neg hn, if_pos hr]
    exact .letter (by simp [letterEscapes, hr])
  by_cases ht : c = '\t'
  · rw [if_neg hn, if_neg hr, if_pos ht]
    exact .letter (by simp [letterEscapes, ht])
  by_cases hb : c = '\\'
  · rw [if_neg hn, if_neg hr, if_neg ht, if_pos hb]
    exact .letter (by simp [letterEscapes, hb])
  rw [if_neg hn, if_neg hr, if_neg ht, if_neg hb]
  by_cases hzero : c.toNat = 0
  · have hc : c = '\x00' := Char.toNat_inj.mp hzero
    rw [if_pos hzero]
    split
    · exact .zeroBeforeDigit hc
    · rename_i hnext
      exact .zero hc (by cases next <;> simp_all)
  rw [if_neg hzero]
  simp only [Bool.or_eq_true, decide_eq_true_eq]
  by_cases hline : c.toNat = 0x2028 ∨ c.toNat = 0x2029
  · rw [if_pos hline]
    exact .hex (by omega)
  by_cases hquote : c = quote
  · rw [if_neg hline, if_pos hquote]
    exact .quote hquote
  rw [if_neg hline, if_neg hquote]
  by_cases hcontrol : c.toNat < 0x20 ∨ c.toNat = 0x7F
  · rw [if_pos hcontrol]
    exact .hex (by omega)
  · rw [if_neg hcontrol]
    refine .plain (by simp [isPlainIn, hn, hr, hb, hquote]) ?_ (by omega)
    simpa [isLineBreak, hn, hr] using hline

/-- The written form of a character does not end a string. -/
theorem readString?_escapeChar {quote : Char} (hq : quote = singleQuote ∨ quote = doubleQuote)
    (next : Option Char) (c : Char) (cs : List Char) :
    readString? quote (escapeChar quote next c ++ cs) =
      (readString? quote cs).map fun r => (escapeChar quote next c ++ r.1, r.2) := by
  have hback : quote ≠ '\\' := by rcases hq with rfl | rfl <;> decide
  -- an escape ends no string, nor do plain digits behind it
  have hescape (d : Char) {digits : List Char} (h : ∀ d ∈ digits, isPlainIn quote d = true) :
      readString? quote ('\\' :: d :: digits ++ cs) =
        (readString? quote cs).map fun r => ('\\' :: d :: digits ++ r.1, r.2) := by
    rw [List.cons_append, List.cons_append, readString?_escaped d _ hback,
      readString?_plainAll cs h, Option.map_map]
    rfl
  have hform := escapeChar_writtenForm quote next c
  generalize escapeChar quote next c = text at hform
  cases hform with
  | plain hplain => exact readString?_plain cs hplain
  | letter => exact hescape _ nofun
  | quote => exact hescape _ nofun
  | zero => exact hescape _ nofun
  | zeroBeforeDigit =>
    refine hescape 'x' ?_
    rw [← List.all_eq_true]
    rcases hq with rfl | rfl <;> decide
  | hex => exact hescape 'u' (isPlainIn_hex4 hq _)

theorem readString?_escape {quote : Char} (hq : quote = singleQuote ∨ quote = doubleQuote)
    (rest : List Char) : ∀ value : List Char,
    readString? quote (escape quote value ++ quote :: rest) =
      some (escape quote value ++ [quote], rest)
  | [] => by
    rw [escape, List.nil_append, readString?.eq_def]
    simp
  | c :: cs => by
    rw [escape, List.append_assoc, readString?_escapeChar hq, readString?_escape hq rest cs,
      List.append_assoc]
    rfl

theorem chooseQuote_cases (value : List Char) :
    chooseQuote value = singleQuote ∨ chooseQuote value = doubleQuote := by
  unfold chooseQuote
  split
  · exact .inr rfl
  · exact .inl rfl

/-- A string starts with one of the two quotes. -/
theorem head_quoted {test : Char → Bool}
    (h : test singleQuote = true ∧ test doubleQuote = true) (value : String) :
    (quoted value).toList.head?.any test = true := by
  rw [quoted, String.toList_ofList]
  rcases chooseQuote_cases value.toList with hq | hq <;> rw [hq]
  · exact h.1
  · exact h.2

/-- **A string literal is read as one element**, whatever follows. -/
theorem reads_string {isLineStart : Bool} {goal : Goal} (value : String) (rest : List Char) :
    Reads isLineStart goal (quoted value).toList [.string (quoted value).toList] .operator
      rest := by
  have hq := chooseQuote_cases value.toList
  have hread := readString?_escape hq rest value.toList
  have htext : (quoted value).toList =
      chooseQuote value.toList ::
        (escape (chooseQuote value.toList) value.toList ++ [chooseQuote value.toList]) := by
    simp [quoted]
  rw [htext]
  generalize chooseQuote value.toList = quote at hq hread ⊢
  have hsolid : isSolid quote = true := by rcases hq with rfl | rfl <;> decide
  have hword : isWordStart quote = false := by rcases hq with rfl | rfl <;> decide
  have hnumber (cs : List Char) : startsNumber (quote :: cs) = false := by
    rcases hq with rfl | rfl <;> rfl
  have hquote : (quote == '\x22' || quote == '\x27') = true := by
    rcases hq with rfl | rfl <;> decide
  refine Reads.of_step (e := .string _) ?_ (by simp)
  rw [List.cons_append, step_of_isSolid hsolid, hword, hnumber, hquote, List.append_assoc,
    List.singleton_append, hread]
  rfl

end Strings

/-! ### Regular expressions -/

/-- The first slash outside classes and escapes closes a body. -/
theorem readRegex?_body (rest : List Char) : ∀ {inClass : Bool} {body : List Char},
    isRegexBody inClass body = true → readRegex? inClass (body ++ '/' :: rest) = some (body, rest)
  | inClass, [], h => by
    have hc : inClass = false := by simpa [isRegexBody] using h
    rw [List.nil_append, readRegex?.eq_def, hc]
    rfl
  | inClass, c :: cs, h => by
    rw [isRegexBody.eq_def, Bool.and_eq_true, Bool.not_eq_true'] at h
    obtain ⟨hline, h⟩ := h
    rw [List.cons_append, readRegex?.eq_def]
    by_cases hback : c = '\\'
    · simp only [hback, beq_self_eq_true, if_true] at h
      cases cs with
      | nil => cases h
      | cons d ds =>
        rw [Bool.and_eq_true, Bool.not_eq_true'] at h
        have ih := readRegex?_body rest h.2
        subst hback
        simp [hline, h.1, ih]
    · simp only [beq_eq_false_iff_ne.mpr hback, Bool.false_eq_true, if_false] at h
      rw [Bool.and_eq_true] at h
      have ih := readRegex?_body rest h.2
      have hslash : (c == '/' && !inClass) = false := by
        cases inClass with
        | true => simp
        | false => simpa using h.1
      simp [hline, beq_eq_false_iff_ne.mpr hback, hslash, ih]
termination_by _ body => body.length

/-- **A regular expression is read as one element where an operand is expected**,
if nothing follows that could be a flag. -/
theorem reads_regex {isLineStart : Bool} {literal : RegexLit} {rest : List Char}
    (h : literal.isPlain = true) (hr : EndsBefore isFlagPart rest) :
    Reads isLineStart .operand
      ('/' :: (literal.pattern.value.toList ++ '/' :: literal.flagChars))
      [.regex literal.pattern.value.toList literal.flagChars] .operator rest := by
  simp only [RegexLit.isPlain, Bool.and_eq_true, List.all_eq_true] at h
  obtain ⟨⟨⟨hbody, hne⟩, hstar⟩, hflags⟩ := h
  have htake := takeWhile_append_ends hflags hr
  have hdrop := dropWhile_append_ends hflags hr
  generalize literal.flagChars = flags at *
  have hread := readRegex?_body (flags ++ rest) hbody
  have hopens : opensLineComment isLineStart
      ('/' :: (literal.pattern.value.toList ++ '/' :: flags ++ rest)) = false ∧
      "/*".toList.isPrefixOf ('/' :: (literal.pattern.value.toList ++ '/' :: flags ++ rest)) =
        false := by
    cases hchars : literal.pattern.value.toList with
    | nil => simp_all
    | cons c cs =>
      rw [hchars] at hbody hstar
      have hslash : c ≠ '/' := by
        rintro rfl
        rw [isRegexBody.eq_def] at hbody
        simp at hbody
      have hc : c ≠ '*' := by simpa using hstar
      simp [opensLineComment, List.isPrefixOf, hslash.symm, hc.symm]
  refine Reads.of_step (e := .regex _ _) ?_ (by simp)
  rw [List.cons_append, step]
  simp only [hopens.1, hopens.2]
  rw [List.append_assoc, List.cons_append, hread]
  simp [isBlank, isLineBreak, isWordStart, startsNumber, htake, hdrop]

/-! ### Numbers -/

/-- Digits, at least one. -/
def IsDigits (ds : List Char) : Prop := ds ≠ [] ∧ ∀ c ∈ ds, c.isDigit = true

/-- The parts of a number: digits of which a zero is only the first if it is the
last, a fraction and an exponent, both of which may be missing. -/
structure Numeral (whole fraction exponent : List Char) : Prop where
  isDigits : IsDigits whole
  noLeadingZero : whole.head? = some '0' → whole.length = 1
  isFraction : fraction = [] ∨ ∃ ds, IsDigits ds ∧ fraction = '.' :: ds
  isExponent : exponent = [] ∨
    ∃ sign ds, (sign = [] ∨ sign = ['-']) ∧ IsDigits ds ∧ exponent = 'e' :: (sign ++ ds)

theorem IsDigits.takeWhile {ds rest : List Char} (h : IsDigits ds)
    (hr : EndsBefore Char.isDigit rest) : (ds ++ rest).takeWhile Char.isDigit = ds :=
  takeWhile_append_ends h.2 hr

theorem IsDigits.dropWhile {ds rest : List Char} (h : IsDigits ds)
    (hr : EndsBefore Char.isDigit rest) : (ds ++ rest).dropWhile Char.isDigit = rest :=
  dropWhile_append_ends h.2 hr

theorem exponentMark_digits {sign ds : List Char} (hs : sign = [] ∨ sign = ['-'])
    (hd : IsDigits ds) (rest : List Char) :
    exponentMark ('e' :: (sign ++ ds ++ rest)) = 'e' :: sign := by
  rcases hs with rfl | rfl
  · obtain ⟨hne, hall⟩ := hd
    cases ds with
    | nil => exact absurd rfl hne
    | cons d ds =>
      have hplus : d ≠ '+' := by
        rintro rfl
        exact absurd (hall '+' (by simp)) (by decide)
      have hminus : d ≠ '-' := by
        rintro rfl
        exact absurd (hall '-' (by simp)) (by decide)
      simp [exponentMark, hplus, hminus]
  · rfl

theorem readExponent_append {exponent rest : List Char}
    (h : exponent = [] ∨
      ∃ sign ds, (sign = [] ∨ sign = ['-']) ∧ IsDigits ds ∧ exponent = 'e' :: (sign ++ ds))
    (hr : EndsBefore isWordPart rest) : readExponent (exponent ++ rest) = (exponent, rest) := by
  rcases h with rfl | ⟨sign, ds, hs, hd, rfl⟩
  · have hmark : exponentMark rest = [] := by
      cases rest with
      | nil => rfl
      | cons c cs =>
        rw [endsBefore_cons] at hr
        have hlower : c ≠ 'e' := by
          rintro rfl
          exact absurd hr (by decide)
        have hupper : c ≠ 'E' := by
          rintro rfl
          exact absurd hr (by decide)
        simp [exponentMark, hlower, hupper]
    simp [readExponent, hmark]
  · have hdrop : ('e' :: (sign ++ ds ++ rest)).drop ('e' :: sign).length = ds ++ rest := by
      simp
    simp only [readExponent, List.cons_append, exponentMark_digits hs hd rest, hdrop,
      hd.takeWhile hr.digit, hd.dropWhile hr.digit]
    simp [hd.1]

theorem readFraction_append {fraction rest : List Char}
    (h : fraction = [] ∨ ∃ ds, IsDigits ds ∧ fraction = '.' :: ds)
    (hr : EndsBefore Char.isDigit rest) (hdot : fraction = [] → rest.head? ≠ some '.') :
    readFraction (fraction ++ rest) = (fraction, rest) := by
  rcases h with rfl | ⟨ds, hd, rfl⟩
  · cases rest with
    | nil => rfl
    | cons c cs =>
      have hc : c ≠ '.' := by simpa using hdot rfl
      simp [readFraction, hc]
  · simp [readFraction, hd.takeWhile hr, hd.dropWhile hr, hd.1]

/-- What follows the whole digits of a number is not a digit. -/
theorem Numeral.endsBefore {whole fraction exponent rest : List Char}
    (h : Numeral whole fraction exponent) (hr : EndsBefore isWordPart rest) :
    EndsBefore Char.isDigit (exponent ++ rest) ∧
      EndsBefore Char.isDigit (fraction ++ (exponent ++ rest)) := by
  have hexp : EndsBefore Char.isDigit (exponent ++ rest) := by
    rcases h.isExponent with rfl | ⟨sign, ds, _, _, rfl⟩
    · exact hr.digit
    · exact endsBefore_cons.mpr (by decide)
  refine ⟨hexp, ?_⟩
  rcases h.isFraction with rfl | ⟨ds, _, rfl⟩
  · exact hexp
  · exact endsBefore_cons.mpr (by decide)

theorem Numeral.no_octal {whole fraction exponent : List Char}
    (h : Numeral whole fraction exponent) :
    (whole.head? == some '0' && whole.length != 1) = false := by
  by_cases hz : whole.head? = some '0'
  · rw [h.noLeadingZero hz]
    simp
  · simp [hz]

theorem readNumber?_numeral {whole fraction exponent rest : List Char}
    (h : Numeral whole fraction exponent) (hr : EndsBefore isWordPart rest)
    (hdot : fraction = [] → exponent = [] → rest.head? ≠ some '.') :
    readNumber? (whole ++ (fraction ++ (exponent ++ rest))) =
      some (whole ++ fraction ++ exponent, rest) := by
  obtain ⟨hexp, hfrac⟩ := h.endsBefore hr
  have hdot' : fraction = [] → (exponent ++ rest).head? ≠ some '.' := by
    intro hf
    rcases h.isExponent with he | ⟨sign, ds, _, _, rfl⟩
    · rw [he]
      exact hdot hf he
    · simp
  simp only [readNumber?, h.isDigits.takeWhile hfrac, h.isDigits.dropWhile hfrac,
    readFraction_append h.isFraction hexp hdot', readExponent_append h.isExponent hr, h.no_octal]
  rw [show rest.head?.any isWordPart = false from hr]
  rfl

/-- A whole number takes a point behind it, which says nothing. -/
theorem readNumber?_wholePoint {whole rest : List Char} (h : Numeral whole [] [])
    (hr : EndsBefore isWordPart rest) :
    readNumber? (whole ++ '.' :: rest) = some (whole, rest) := by
  have hpoint : EndsBefore Char.isDigit ('.' :: rest) := endsBefore_cons.mpr (by decide)
  have hnil : ∀ c ∈ ([] : List Char), c.isDigit = true := by simp
  have hnone : rest.takeWhile Char.isDigit = [] := takeWhile_append_ends hnil hr.digit
  have hrest : rest.dropWhile Char.isDigit = rest := dropWhile_append_ends hnil hr.digit
  simp only [readNumber?, h.isDigits.takeWhile hpoint, h.isDigits.dropWhile hpoint, readFraction,
    hnone, hrest, h.no_octal]
  rw [show readExponent rest = ([], rest) from readExponent_append (.inl rfl) hr,
    show rest.head?.any isWordPart = false from hr]
  simp

theorem isWordStart_of_isDigit {c : Char} (h : c.isDigit = true) : isWordStart c = false := by
  simpa using @test_of_isDigit (fun d => !isWordStart d) (by decide) c h

/-- A number is read where digits stand. -/
theorem step_number {isLineStart : Bool} {goal : Goal} {whole tail text rest : List Char}
    (h : IsDigits whole) (hread : readNumber? (whole ++ tail) = some (text, rest)) :
    step goal isLineStart (whole ++ tail) = .element (.number text) rest := by
  cases whole with
  | nil => exact absurd rfl h.1
  | cons c cs =>
    have hc := h.2 c (by simp)
    have hne : c ≠ '.' := by
      rintro rfl
      cases hc
    have hstarts : startsNumber (c :: (cs ++ tail)) = true := by
      simp [startsNumber, hne, hc]
    rw [List.cons_append] at hread ⊢
    rw [step_of_isSolid (isSolid_of_isWordPart (isWordPart_of_isDigit hc)),
      isWordStart_of_isDigit hc, hstarts, hread]
    rfl

/-- **A number is read as one element** if no letter or digit follows, nor a point
behind a whole number. -/
theorem reads_number {isLineStart : Bool} {goal : Goal} {whole fraction exponent rest : List Char}
    (h : Numeral whole fraction exponent) (hr : EndsBefore isWordPart rest)
    (hdot : fraction = [] → exponent = [] → rest.head? ≠ some '.') :
    Reads isLineStart goal (whole ++ fraction ++ exponent)
      [.number (whole ++ fraction ++ exponent)] .operator rest := by
  refine Reads.of_step (e := .number _) ?_ (by simp [h.isDigits.1])
  have hread := readNumber?_numeral h hr hdot
  rw [List.append_assoc, List.append_assoc]
  exact step_number h.isDigits hread

/-- **A whole number and a point are read as the number**, in front of anything but
a letter or a digit. -/
theorem reads_wholePoint {isLineStart : Bool} {goal : Goal} {whole rest : List Char}
    (h : Numeral whole [] []) (hr : EndsBefore isWordPart rest) :
    Reads isLineStart goal (whole ++ ['.']) [.number whole] .operator rest := by
  refine Reads.of_step (e := .number _) ?_ (by simp)
  rw [List.append_assoc]
  exact step_number h.isDigits (readNumber?_wholePoint h hr)

end EcmaPrinter.Lexical
