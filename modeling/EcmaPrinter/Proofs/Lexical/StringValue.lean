/-
# String literals are read back as their values

A string literal is decoded by the rules of the language: a body between two equal
quotes, in which a backslash starts an escape. The decoder knows the escapes
`\n`, `\r`, `\t`, `\\`, `\'`, `\"`, `\0` in front of no digit, `\xHH` and
`\uHHHH`; a line break inside a body and every other escape are refused.

What is written for a character depends on the next one, since a zero in front of
a digit must not become an octal escape. So the character behind the written form
is part of what is shown about it: a digit may follow only where one was announced
(`Announced`).

Key definitions: `readEscape?`, `readBody?`, `readLiteral?`, `unescaped`,
`Announced`, `EscapeOf`.
Key theorems: `escapeChar_cases`, `readBody?_escape`, `string_literal_reads_back`.
-/
import EcmaPrinter.Proofs.Json.Lexing
import EcmaPrinter.Proofs.Lexical.Text

namespace EcmaPrinter.Lexical

open Text

/-! ### Decoding -/

/-- The number that hexadecimal digits write. -/
def hexNumber? (digits : List Char) : Option Nat :=
  digits.foldlM (fun n c => (Json.Lexer.hexValue c).map (16 * n + ·)) 0

/-- The character with the number that hexadecimal digits write. Half of a
surrogate pair is none. -/
def hexChar? (digits : List Char) : Option Char := do
  let n ← hexNumber? digits
  if n.isValidChar then some (Char.ofNat n) else none

/-- The character that an escape stands for, read behind its backslash, and the
text behind the escape. -/
def readEscape? : List Char → Option (Char × List Char)
  | 'n' :: rest => some ('\n', rest)
  | 'r' :: rest => some ('\r', rest)
  | 't' :: rest => some ('\t', rest)
  | '\\' :: rest => some ('\\', rest)
  | '\x27' :: rest => some ('\x27', rest)
  | '\x22' :: rest => some ('\x22', rest)
  | '0' :: rest => if rest.head?.any Char.isDigit then none else some ('\x00', rest)
  | 'x' :: a :: b :: rest => (hexChar? [a, b]).map fun c => (c, rest)
  | 'u' :: a :: b :: c :: d :: rest => (hexChar? [a, b, c, d]).map fun c => (c, rest)
  | _ => none

theorem length_readEscape? {text rest : List Char} {c : Char}
    (h : readEscape? text = some (c, rest)) : rest.length < text.length := by
  unfold readEscape? at h
  split at h
  case h_7 =>
    split at h
    · cases h
    · cases h
      simp
  case h_8 | h_9 =>
    obtain ⟨d, -, hd⟩ := Option.map_eq_some_iff.mp h
    cases hd
    simp only [List.length_cons]
    omega
  all_goals
    cases h
    try simp

/-- The value of the body of a literal, and the text behind the closing quote. -/
def readBody? (quote : Char) : List Char → Option (List Char × List Char)
  | [] => none
  | c :: cs =>
    if c = quote then some ([], cs)
    else if c = '\\' then
      match _h : readEscape? cs with
      | none => none
      | some (d, rest) => (readBody? quote rest).map fun r => (d :: r.1, r.2)
    else if isLineBreak c then none
    else (readBody? quote cs).map fun r => (c :: r.1, r.2)
termination_by text => text.length
decreasing_by
  · have := length_readEscape? _h
    simp only [List.length_cons]
    omega
  · simp

/-- The value of the string literal that a text starts with, and the text behind
the literal. -/
def readLiteral? : List Char → Option (String × List Char)
  | [] => none
  | quote :: cs =>
    if quote = singleQuote ∨ quote = doubleQuote then
      (readBody? quote cs).map fun r => (String.ofList r.1, r.2)
    else none

/-- The characters of a body that no backslash escapes. -/
def unescaped : List Char → List Char
  | [] => []
  | ['\\'] => []
  | '\\' :: _ :: cs => unescaped cs
  | c :: cs => c :: unescaped cs

/-! ### One character -/

/-- A digit that follows the written form of a character was announced as the next
character. -/
def Announced (next : Option Char) (rest : List Char) : Prop :=
  rest.head?.any Char.isDigit = true → next.any Char.isDigit = true

/-- A character that stands for itself in a line of text: no line break and no
control character. -/
def isPrintable (c : Char) : Bool := !isLineBreak c && 0x20 ≤ c.toNat && c.toNat != 0x7F

theorem hexChar?_hex4 {c : Char} (h : c.toNat < 65536) : hexChar? (hex4 c.toNat) = some c := by
  have hdigit (k : Nat) : Json.Lexer.hexValue (hexDigit (k % 16)) = some (k % 16) :=
    Json.hexValue_hexDigit ⟨k % 16, Nat.mod_lt _ (by decide)⟩
  have hvalue : 16 * (16 * (16 * (c.toNat / 4096 % 16) + c.toNat / 256 % 16) + c.toNat / 16 % 16) +
      c.toNat % 16 = c.toNat := by
    omega
  have hnumber : hexNumber? (hex4 c.toNat) = some c.toNat := by
    simp [hexNumber?, hex4, hdigit, hvalue]
  have hvalid : c.toNat.isValidChar := c.valid
  simp [hexChar?, hnumber, hvalid]

/-- The written form of a character that is escaped: a backslash, a letter and
digits. The escape is read as the character where no digit follows that was not
announced. -/
structure EscapeOf (quote : Char) (next : Option Char) (c letter : Char) (digits : List Char) :
    Prop where
  written : escapeChar quote next c = '\\' :: letter :: digits
  letterPrintable : isPrintable letter = true
  digitsPlain : ∀ d ∈ digits, isPrintable d = true ∧ isPlainIn quote d = true
  reads (rest : List Char) (h : Announced next rest) :
    readEscape? (letter :: (digits ++ rest)) = some (c, rest)

/-- An escape by one letter. -/
theorem EscapeOf.ofLetter {quote c letter : Char} {next : Option Char}
    (hwritten : escapeChar quote next c = ['\\', letter]) (hprint : isPrintable letter = true)
    (hread : ∀ rest, readEscape? (letter :: rest) = some (c, rest)) :
    EscapeOf quote next c letter [] :=
  ⟨hwritten, hprint, nofun, fun rest _ => hread rest⟩

theorem isPrintable_hexDigit (n : Nat) : isPrintable (hexDigit (n % 16)) = true := by
  have h : ∀ k : Fin 16, isPrintable (hexDigit k) = true := by decide
  exact h ⟨n % 16, Nat.mod_lt n (by decide)⟩

theorem plain_hex4 {quote : Char} (hq : quote = singleQuote ∨ quote = doubleQuote) (n : Nat) :
    ∀ d ∈ hex4 n, isPrintable d = true ∧ isPlainIn quote d = true := by
  intro d hd
  refine ⟨?_, isPlainIn_hex4 hq n d hd⟩
  simp only [hex4, List.mem_cons, List.not_mem_nil, or_false] at hd
  rcases hd with rfl | rfl | rfl | rfl <;> exact isPrintable_hexDigit _

/-- An escape by four digits. -/
theorem EscapeOf.ofHex {quote c : Char} {next : Option Char}
    (hq : quote = singleQuote ∨ quote = doubleQuote)
    (hwritten : escapeChar quote next c = '\\' :: 'u' :: hex4 c.toNat) (hc : c.toNat < 65536) :
    EscapeOf quote next c 'u' (hex4 c.toNat) := by
  refine ⟨hwritten, by decide, plain_hex4 hq _, fun rest _ => ?_⟩
  have hchar := hexChar?_hex4 hc
  rw [hex4] at hchar ⊢
  simp only [readEscape?, List.cons_append, List.nil_append, hchar, Option.map_some]

/-- **A character is written as it is or as an escape that is read as the
character.** -/
theorem escapeChar_cases {quote : Char} (hq : quote = singleQuote ∨ quote = doubleQuote)
    (next : Option Char) (c : Char) :
    (escapeChar quote next c = [c] ∧ isPrintable c = true ∧ isPlainIn quote c = true) ∨
      ∃ letter digits, EscapeOf quote next c letter digits := by
  have hform := escapeChar_writtenForm quote next c
  generalize hwritten : escapeChar quote next c = text at hform
  cases hform with
  | plain hplain hline hcontrol => exact .inl ⟨rfl, by simp [isPrintable, hline, hcontrol], hplain⟩
  | letter hl =>
    simp only [letterEscapes, List.mem_cons, Prod.mk.injEq, List.not_mem_nil, or_false] at hl
    rcases hl with ⟨rfl, rfl⟩ | ⟨rfl, rfl⟩ | ⟨rfl, rfl⟩ | ⟨rfl, rfl⟩ <;>
      exact .inr ⟨_, [], .ofLetter hwritten (by decide) fun _ => rfl⟩
  | quote hc =>
    subst hc
    rcases hq with rfl | rfl <;> exact .inr ⟨_, [], .ofLetter hwritten (by decide) fun _ => rfl⟩
  | zeroBeforeDigit hc =>
    subst hc
    refine .inr ⟨'x', ['0', '0'], hwritten, by decide, ?_, fun rest _ => rfl⟩
    have hplain : ['0', '0'].all fun d => isPrintable d && isPlainIn quote d := by
      rcases hq with rfl | rfl <;> decide
    simpa [List.all_eq_true] using hplain
  | zero hc hnext =>
    subst hc
    -- the one escape that looks at what follows
    refine .inr ⟨'0', [], hwritten, by decide, List.forall_mem_nil _, fun rest hrest => ?_⟩
    have hend : rest.head?.any Char.isDigit = false :=
      Bool.eq_false_iff.mpr fun hdigit => by simp [hrest hdigit] at hnext
    simp [readEscape?, hend]
  | hex hc => exact .inr ⟨'u', hex4 c.toNat, .ofHex hq hwritten hc⟩

/-! ### Whole bodies -/

theorem unescaped_plain {quote c : Char} (cs : List Char) (h : isPlainIn quote c = true) :
    unescaped (c :: cs) = c :: unescaped cs := by
  simp only [isPlainIn, Bool.and_eq_true, bne_iff_ne] at h
  rw [unescaped.eq_4 _ _ (fun hc _ => h.2 hc) fun _ _ hc _ => h.2 hc]

theorem unescaped_append_plain {quote : Char} (cs : List Char) : ∀ {text : List Char},
    (∀ c ∈ text, isPlainIn quote c = true) → unescaped (text ++ cs) = text ++ unescaped cs
  | [], _ => rfl
  | c :: text, h => by
    rw [List.forall_mem_cons] at h
    rw [List.cons_append, unescaped_plain _ h.1, unescaped_append_plain cs h.2]
    rfl

section Bodies

variable {quote : Char} (hq : quote = singleQuote ∨ quote = doubleQuote)
include hq

/-- The text behind a character starts with a digit only if the next character is
one. -/
theorem announced_escape (rest : List Char) :
    ∀ value : List Char, Announced value.head? (escape quote value ++ quote :: rest)
  | [] => by
    intro hdigit
    rcases hq with rfl | rfl <;> cases hdigit
  | c :: cs => by
    intro hdigit
    rcases escapeChar_cases hq cs.head? c with ⟨hwritten, -, -⟩ | ⟨letter, digits, he⟩
    · simpa [escape, hwritten] using hdigit
    · simp only [escape, he.written, List.cons_append, List.head?_cons, Option.any_some] at hdigit
      cases hdigit

theorem ne_backslash_of_isQuote : quote ≠ '\\' := by
  rcases hq with rfl | rfl <;> decide

/-- **The body of a literal is read as the value**, up to its closing quote. -/
theorem readBody?_escape (rest : List Char) : ∀ value : List Char,
    readBody? quote (escape quote value ++ quote :: rest) = some (value, rest)
  | [] => by
    rw [escape, List.nil_append, readBody?, if_pos rfl]
  | c :: cs => by
    have ih := readBody?_escape rest cs
    have hnext := announced_escape hq rest cs
    have hback := ne_backslash_of_isQuote hq
    rw [escape, List.append_assoc]
    rcases escapeChar_cases hq cs.head? c with ⟨hwritten, hprint, hplain⟩ | ⟨letter, digits, he⟩
    · simp only [isPrintable, isPlainIn, Bool.and_eq_true, Bool.not_eq_true', bne_iff_ne]
        at hprint hplain
      rw [hwritten, List.singleton_append, readBody?, if_neg hplain.1.1.1, if_neg hplain.2,
        if_neg (by simp [hprint.1.1]), ih]
      rfl
    · rw [he.written, List.cons_append, List.cons_append, readBody?, if_neg (Ne.symm hback),
        if_pos rfl]
      split
      · rename_i hnone
        rw [he.reads _ hnext] at hnone
        cases hnone
      · rename_i d text hsome
        rw [he.reads _ hnext] at hsome
        cases hsome
        rw [ih]
        rfl

/-- **No quote inside a body is unescaped.** -/
theorem quote_notMem_unescaped_escape : ∀ value : List Char,
    quote ∉ unescaped (escape quote value)
  | [] => by simp [escape, unescaped]
  | c :: cs => by
    have ih := quote_notMem_unescaped_escape cs
    rw [escape]
    rcases escapeChar_cases hq cs.head? c with ⟨hwritten, -, hplain⟩ | ⟨letter, digits, he⟩
    · rw [hwritten, List.singleton_append, unescaped_plain _ hplain, List.mem_cons, not_or]
      simp only [isPlainIn, Bool.and_eq_true, bne_iff_ne] at hplain
      exact ⟨Ne.symm hplain.1.1.1, ih⟩
    · have hplain : ∀ d ∈ digits, isPlainIn quote d = true := fun d hd => (he.digitsPlain d hd).2
      rw [he.written, List.cons_append, List.cons_append, unescaped,
        unescaped_append_plain _ hplain, List.mem_append, not_or]
      refine ⟨fun hmem => ?_, ih⟩
      have := hplain quote hmem
      simp [isPlainIn] at this

/-- **A body has no line breaks and no control characters.** -/
theorem isPrintable_of_mem_escape : ∀ (value : List Char), ∀ c ∈ escape quote value,
    isPrintable c = true
  | [], c, hc => nomatch hc
  | first :: cs, c, hc => by
    rw [escape, List.mem_append] at hc
    rcases hc with hc | hc
    · rcases escapeChar_cases hq cs.head? first with ⟨hwritten, hprint, -⟩ | ⟨letter, digits, he⟩
      · rw [hwritten, List.mem_singleton] at hc
        rw [hc]
        exact hprint
      · rw [he.written, List.mem_cons, List.mem_cons] at hc
        rcases hc with rfl | rfl | hc
        · decide
        · exact he.letterPrintable
        · exact (he.digitsPlain c hc).1
    · exact isPrintable_of_mem_escape cs c hc

end Bodies

theorem quoted_toList (value : String) :
    (quoted value).toList = chooseQuote value.toList ::
      escape (chooseQuote value.toList) value.toList ++ [chooseQuote value.toList] :=
  String.toList_ofList

/-- **A literal is read as its value**, whatever follows. -/
theorem readLiteral?_quoted (value : String) (rest : List Char) :
    readLiteral? ((quoted value).toList ++ rest) = some (value, rest) := by
  have hq := chooseQuote_cases value.toList
  rw [quoted_toList, List.append_assoc, List.cons_append, readLiteral?, if_pos hq,
    List.singleton_append, readBody?_escape hq]
  simp

theorem printExpr_str (literal : StringLit) (options : PrintOptions) :
    printExpr (.str literal) options = .ok (quoted literal.value) := by
  obtain ⟨code, hprint, htext⟩ := printExpr_plain (.str literal) options rfl
  have hcode : code = quoted literal.value :=
    String.toList_inj.mp (htext.trans (Node.text_str literal))
  rw [hprint, hcode]

/-- **A string literal is read back as its value.** Its text, on its own and inside
any other, starts and ends with the chosen quote. In between the quote stands only
escaped, and neither line breaks nor control characters are there. Decoding
consumes the text, whatever follows it, and yields the value. -/
theorem string_literal_reads_back (literal : StringLit) (options : PrintOptions) :
    ∃ (text : String) (body : List Char),
      Emit.str literal = .text text ∧ printExpr (.str literal) options = .ok text ∧
      text.toList =
        chooseQuote literal.value.toList :: body ++ [chooseQuote literal.value.toList] ∧
      chooseQuote literal.value.toList ∉ unescaped body ∧
      (∀ c ∈ body, isLineBreak c = false ∧ 0x20 ≤ c.toNat ∧ c.toNat ≠ 0x7F) ∧
      ∀ rest, readLiteral? (text.toList ++ rest) = some (literal.value, rest) := by
  have hq := chooseQuote_cases literal.value.toList
  refine ⟨quoted literal.value, escape _ literal.value.toList, rfl, printExpr_str literal options,
    quoted_toList literal.value, quote_notMem_unescaped_escape hq _, fun c hc => ?_,
    readLiteral?_quoted literal.value⟩
  have hprint := isPrintable_of_mem_escape hq _ c hc
  simpa [isPrintable, and_assoc] using hprint

end EcmaPrinter.Lexical
