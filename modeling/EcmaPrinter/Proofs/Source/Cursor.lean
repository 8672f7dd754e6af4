/-
# The cursor finds the comments of the scan

The cursor reads bytes, and the scan reads characters. They agree on every text
(`storedRanges_eq`), because UTF-8 spells a character of one byte by its code and every
other character by bytes that are no character the cursor looks for (`wide_of_mem`): a
cursor inside of such a character moves on to its end, from wherever a backslash took it
(`IsAt.pass`). In a text of less than 2^32 bytes the stored ranges are the ranges found
(`storedRanges_exact`).

Key definitions: `encode`, `Cursor.IsAt`, `Cursor.PassesWide`, `Cursor.resume`,
`Cursor.Reached`.
Key theorems: `Cursor.scan_stored`, `storedRanges_eq`, `storedRanges_exact`.
-/
import EcmaPrinter.Source.Cursor
import EcmaPrinter.Proofs.Source.Segments

namespace EcmaPrinter

/-! ### Characters in bytes -/

/-- The bytes of some characters. -/
def encode (cs : List Char) : List UInt8 := cs.flatMap String.utf8EncodeChar

@[simp] theorem encode_nil : encode [] = [] := rfl

@[simp] theorem encode_cons (c : Char) (cs : List Char) :
    encode (c :: cs) = String.utf8EncodeChar c ++ encode cs := List.flatMap_cons

theorem toList_toByteArray (source : String) :
    source.toByteArray.data.toList = encode source.toList := by
  rw [← String.utf8Encode_toList]
  simp [List.utf8Encode, encode]

/-- A character of one byte is the character whose code that byte is. -/
theorem ofUInt8_toUInt8 {c : Char} (hc : c.utf8Size = 1) : Char.ofUInt8 c.toUInt8 = c := by
  have hle : c.val.toNat ≤ 127 := Char.utf8Size_eq_one_iff.mp hc
  have hval : c.toUInt8.toNat = c.val.toNat := by
    show c.val.toUInt8.toNat = c.val.toNat
    rw [UInt32.toNat_toUInt8]
    omega
  refine Char.ext (UInt32.toNat_inj.mp ?_)
  show c.toUInt8.toUInt32.toNat = c.val.toNat
  rw [UInt8.toNat_toUInt32, hval]

theorem toUInt8_inj {c d : Char} (hc : c.utf8Size = 1) (hd : d.utf8Size = 1) :
    c.toUInt8 = d.toUInt8 ↔ c = d := by
  constructor
  · intro heq
    rw [← ofUInt8_toUInt8 hc, heq, ofUInt8_toUInt8 hd]
  · rintro rfl
    rfl

/-- The byte is not the code of a character of one byte. -/
def IsWide (b : UInt8) : Prop := 128 ≤ b.toNat

theorem wide_of_mem {c : Char} (hc : c.utf8Size ≠ 1) :
    ∀ b ∈ String.utf8EncodeChar c, IsWide b := by
  have hlt : ¬ c.val.toNat ≤ 127 := fun hle => hc (Char.utf8Size_eq_one_iff.mpr hle)
  intro b hb
  unfold String.utf8EncodeChar at hb
  unfold IsWide
  simp only [if_neg hlt] at hb
  split at hb
  · simp only [List.mem_cons, List.not_mem_nil, or_false] at hb
    rcases hb with rfl | rfl <;> simp <;> omega
  · split at hb
    · simp only [List.mem_cons, List.not_mem_nil, or_false] at hb
      rcases hb with rfl | rfl | rfl <;> simp <;> omega
    · simp only [List.mem_cons, List.not_mem_nil, or_false] at hb
      rcases hb with rfl | rfl | rfl | rfl <;> simp <;> omega

theorem toNat_lt_of_mem_operandStarters {c : Char} (h : c ∈ operandStarters) : c.toNat < 128 := by
  have hall : (operandStarters.all fun c => c.toNat < 128) = true := by decide
  exact of_decide_eq_true (List.all_eq_true.mp hall c h)

namespace IsWide

variable {b : UInt8}

theorem ofUInt8_ne (hb : IsWide b) {d : Char} (hd : d.toNat < 128) : Char.ofUInt8 b ≠ d := by
  rintro rfl
  have hcode : (Char.ofUInt8 b).toNat = b.toNat := UInt8.toNat_toUInt32 b
  unfold IsWide at hb
  omega

theorem isLineEnd (hb : IsWide b) : EcmaPrinter.isLineEnd (Char.ofUInt8 b) = false := by
  unfold EcmaPrinter.isLineEnd
  simp [hb.ofUInt8_ne (d := '\n') (by decide), hb.ofUInt8_ne (d := '\r') (by decide)]

theorem isQuote (hb : IsWide b) : EcmaPrinter.isQuote (Char.ofUInt8 b) = false := by
  unfold EcmaPrinter.isQuote
  simp [hb.ofUInt8_ne (d := '\x27') (by decide), hb.ofUInt8_ne (d := '\x22') (by decide),
    hb.ofUInt8_ne (d := '\x60') (by decide)]

theorem isBlank (hb : IsWide b) : EcmaPrinter.isBlank (Char.ofUInt8 b) = false := by
  unfold EcmaPrinter.isBlank
  simp [hb.ofUInt8_ne (d := ' ') (by decide), hb.ofUInt8_ne (d := '\t') (by decide),
    hb.ofUInt8_ne (d := '\n') (by decide), hb.ofUInt8_ne (d := '\x0c') (by decide),
    hb.ofUInt8_ne (d := '\r') (by decide)]

theorem regexAllowed (hb : IsWide b) :
    EcmaPrinter.regexAllowed (some (Char.ofUInt8 b)) = false := by
  have hne : Char.ofUInt8 b ∉ operandStarters := fun hmem =>
    hb.ofUInt8_ne (toNat_lt_of_mem_operandStarters hmem) rfl
  simpa [EcmaPrinter.regexAllowed] using hne

end IsWide

/-! ### The cursor in the bytes of a text -/

namespace Cursor

variable {bytes : List UInt8} {α : Type} {f : Nat → α} {pos : Nat} {c : Char} {cs : List Char}

variable (bytes) in
/-- The bytes from `pos` on are those of the characters `cs`. -/
def IsAt (pos : Nat) (cs : List Char) : Prop := bytes.drop pos = encode cs

variable (bytes) in
/-- What `f` finds from a byte on that is wide, it finds from the next byte on. -/
def PassesWide (f : Nat → α) : Prop :=
  ∀ pos (h : pos < bytes.length), IsWide bytes[pos] → f pos = f (pos + 1)

namespace IsAt

theorem length_le (h : IsAt bytes pos []) : bytes.length ≤ pos := List.drop_eq_nil_iff.mp h

theorem of_length_le (h : bytes.length ≤ pos) : IsAt bytes pos [] := List.drop_eq_nil_iff.mpr h

theorem lt_length (h : IsAt bytes pos (c :: cs)) : pos < bytes.length := by
  have hlength := congrArg List.length h
  have hpos := c.utf8Size_pos
  rw [List.length_drop, encode_cons, List.length_append, String.length_utf8EncodeChar] at hlength
  omega

theorem tail (h : IsAt bytes pos (c :: cs)) : IsAt bytes (pos + c.utf8Size) cs := by
  unfold IsAt at *
  rw [← List.drop_drop, h, encode_cons, List.drop_left' (String.length_utf8EncodeChar c)]

theorem take (h : IsAt bytes pos (c :: cs)) :
    bytes.take (pos + c.utf8Size) = bytes.take pos ++ String.utf8EncodeChar c := by
  unfold IsAt at h
  rw [List.take_add, h, encode_cons, List.take_left' (String.length_utf8EncodeChar c)]

/-- The bytes of the character that the cursor is at. -/
theorem getElem? (h : IsAt bytes pos (c :: cs)) {i : Nat} (hi : i < c.utf8Size) :
    bytes[pos + i]? = (String.utf8EncodeChar c)[i]? := by
  unfold IsAt at h
  rw [← List.getElem?_drop, h, encode_cons,
    List.getElem?_append_left (by rwa [String.length_utf8EncodeChar])]

/-- A character of one byte is read. -/
theorem narrow (h : IsAt bytes pos (c :: cs)) (hc : c.utf8Size = 1) :
    ∃ hlt : pos < bytes.length, bytes[pos] = c.toUInt8 := by
  have hget := h.getElem? (i := 0) (by omega)
  rw [String.utf8EncodeChar_eq_singleton hc] at hget
  exact List.getElem?_eq_some_iff.mp hget

/-- The cursor is inside of a character of several bytes. -/
theorem wide (h : IsAt bytes pos (c :: cs)) (hc : c.utf8Size ≠ 1) {i : Nat}
    (hi : i < c.utf8Size) : ∃ hlt : pos + i < bytes.length, IsWide bytes[pos + i] := by
  have hlt : i < (String.utf8EncodeChar c).length := by rwa [String.length_utf8EncodeChar]
  have hget := h.getElem? hi
  rw [List.getElem?_eq_getElem hlt] at hget
  obtain ⟨hpos, hbyte⟩ := List.getElem?_eq_some_iff.mp hget
  exact ⟨hpos, hbyte ▸ wide_of_mem hc _ (List.getElem_mem hlt)⟩

/-- **A cursor inside of a character of several bytes moves on to its end.** -/
theorem pass (h : IsAt bytes pos (c :: cs)) (hf : PassesWide bytes f) (hc : c.utf8Size ≠ 1)
    {n i : Nat} (hi : i + n = c.utf8Size) : f (pos + i) = f (pos + c.utf8Size) := by
  induction n generalizing i with
  | zero => rw [← hi, Nat.add_zero]
  | succ n ih =>
    obtain ⟨hlt, hwide⟩ := h.wide hc (i := i) (by omega)
    rw [hf _ hlt hwide]
    show f (pos + (i + 1)) = f (pos + c.utf8Size)
    exact ih (by omega)

theorem pass_char (h : IsAt bytes pos (c :: cs)) (hf : PassesWide bytes f) (hc : c.utf8Size ≠ 1) :
    f pos = f (pos + c.utf8Size) :=
  h.pass hf hc (i := 0) (Nat.zero_add _)

/-- A cursor that is taken over the first byte of a character moves on to its end. -/
theorem pass_tail (h : IsAt bytes pos (c :: cs)) (hf : PassesWide bytes f) :
    f (pos + 1) = f (pos + c.utf8Size) := by
  by_cases hc : c.utf8Size = 1
  · rw [hc]
  · have hpos := c.utf8Size_pos
    exact h.pass hf hc (n := c.utf8Size - 1) (by omega)

end IsAt

/-! ### One byte at a time -/

theorem skipQuoted_passesWide {quote : UInt8} (hquote : ¬ IsWide quote) :
    PassesWide bytes (skipQuoted bytes quote) := by
  intro pos hlt hwide
  have hne : bytes[pos] ≠ quote := fun heq => hquote (heq ▸ hwide)
  rw [skipQuoted, dif_pos hlt, if_neg hne, if_neg (hwide.ofUInt8_ne (by decide))]

theorem skipRegex_passesWide (inClass : Bool) : PassesWide bytes (skipRegex bytes inClass) := by
  intro pos hlt hwide
  rw [skipRegex, dif_pos hlt, if_neg (hwide.ofUInt8_ne (by decide)),
    if_neg (hwide.ofUInt8_ne (by decide)), if_neg (hwide.ofUInt8_ne (by decide)),
    if_neg fun h => hwide.ofUInt8_ne (by decide) h.1, hwide.isLineEnd, if_neg (by decide)]

theorem findLineEnd_passesWide : PassesWide bytes (findLineEnd bytes) := by
  intro pos hlt hwide
  rw [findLineEnd, dif_pos hlt, hwide.isLineEnd, if_neg (by decide)]

theorem findClose_passesWide : PassesWide bytes (findClose bytes) := by
  intro pos hlt hwide
  rw [findClose]
  by_cases hnext : pos + 1 < bytes.length
  · rw [dif_pos hnext, if_neg fun h => hwide.ofUInt8_ne (by decide) h.1]
  · rw [dif_neg hnext, findClose, dif_neg (by omega)]

theorem ranges_passesWide : PassesWide bytes (ranges bytes) := by
  intro pos hlt hwide
  rw [ranges, dif_pos hlt, hwide.isQuote, if_neg (by decide),
    dif_neg (hwide.ofUInt8_ne (by decide))]

section Narrow

variable (h : IsAt bytes pos (c :: cs)) (hc : c.utf8Size = 1)
include h hc

theorem skipQuoted_narrow {q : Char} (hq : q.utf8Size = 1) :
    skipQuoted bytes q.toUInt8 pos =
      if c = q then pos + 1
      else if c = '\\' then skipQuoted bytes q.toUInt8 (pos + 2)
      else skipQuoted bytes q.toUInt8 (pos + 1) := by
  obtain ⟨hlt, hbyte⟩ := h.narrow hc
  rw [skipQuoted, dif_pos hlt, hbyte, ofUInt8_toUInt8 hc]
  simp only [toUInt8_inj hc hq]

theorem skipRegex_narrow (inClass : Bool) :
    skipRegex bytes inClass pos =
      if c = '\\' then skipRegex bytes inClass (pos + 2)
      else if c = '[' then skipRegex bytes true (pos + 1)
      else if c = ']' then skipRegex bytes false (pos + 1)
      else if c = '/' ∧ inClass = false then pos + 1
      else if isLineEnd c then pos
      else skipRegex bytes inClass (pos + 1) := by
  obtain ⟨hlt, hbyte⟩ := h.narrow hc
  rw [skipRegex, dif_pos hlt, hbyte, ofUInt8_toUInt8 hc]

theorem findLineEnd_narrow :
    findLineEnd bytes pos = if isLineEnd c then pos else findLineEnd bytes (pos + 1) := by
  obtain ⟨hlt, hbyte⟩ := h.narrow hc
  rw [findLineEnd, dif_pos hlt, hbyte, ofUInt8_toUInt8 hc]

theorem char?_narrow : char? bytes pos = some c := by
  obtain ⟨hlt, hbyte⟩ := h.narrow hc
  rw [char?, List.getElem?_eq_getElem hlt, hbyte, Option.map_some, ofUInt8_toUInt8 hc]

end Narrow

/-- The byte that the cursor looks at is a character of one byte only where the text has it. -/
theorem char?_eq_some_iff {d : Char} (hd : d.toNat < 128) (h : IsAt bytes pos cs) :
    char? bytes pos = some d ↔ cs.head? = some d := by
  cases cs with
  | nil =>
    rw [char?, List.getElem?_eq_none h.length_le]
    simp
  | cons c cs =>
    by_cases hc : c.utf8Size = 1
    · rw [char?_narrow h hc, List.head?_cons]
    · obtain ⟨hlt, hwide⟩ : ∃ hlt : pos < bytes.length, IsWide bytes[pos] :=
        h.wide hc (i := 0) c.utf8Size_pos
      have hne : c ≠ d := by
        rintro rfl
        exact hc (Char.utf8Size_eq_one_iff.mpr (Nat.le_of_lt_succ hd))
      rw [char?, List.getElem?_eq_getElem hlt, Option.map_some, List.head?_cons]
      simp only [Option.some.injEq, hne, iff_false]
      exact hwide.ofUInt8_ne hd

theorem char?_isLineEnd (h : IsAt bytes pos cs) :
    (char? bytes pos).map isLineEnd = cs.head?.map isLineEnd := by
  cases cs with
  | nil =>
    rw [char?, List.getElem?_eq_none h.length_le]
    rfl
  | cons c cs =>
    by_cases hc : c.utf8Size = 1
    · rw [char?_narrow h hc, List.head?_cons]
    · obtain ⟨hlt, hwide⟩ : ∃ hlt : pos < bytes.length, IsWide bytes[pos] :=
        h.wide hc (i := 0) c.utf8Size_pos
      have hend : isLineEnd c = false :=
        Bool.eq_false_iff.mpr fun hend => hc (CommentRange.utf8Size_of_isLineEnd hend)
      rw [char?, List.getElem?_eq_getElem hlt, Option.map_some, Option.map_some, hwide.isLineEnd,
        List.head?_cons, Option.map_some, hend]

theorem findClose_char (h : IsAt bytes pos (c :: cs)) :
    findClose bytes pos =
      if c = '*' ∧ cs.head? = some '/' then pos + 2 else findClose bytes (pos + c.utf8Size) := by
  by_cases hc : c.utf8Size = 1
  · have htail := h.tail
    obtain ⟨hlt, hbyte⟩ := h.narrow hc
    rw [hc] at htail ⊢
    rw [findClose]
    by_cases hnext : pos + 1 < bytes.length
    · have hslash := char?_eq_some_iff (d := '/') (by decide) htail
      rw [char?, List.getElem?_eq_getElem hnext, Option.map_some, Option.some.injEq] at hslash
      rw [dif_pos hnext, hbyte, ofUInt8_toUInt8 hc]
      simp only [hslash]
    · obtain rfl : cs = [] := by
        cases cs with
        | nil => rfl
        | cons d ds => exact absurd htail.lt_length hnext
      rw [dif_neg hnext, if_neg nofun, findClose, dif_neg (by omega)]
  · have hne : c ≠ '*' := by
      rintro rfl
      exact hc rfl
    rw [if_neg fun hclose => hne hclose.1]
    exact h.pass_char findClose_passesWide hc

/-! ### One character at a time -/

theorem ranges_of_length_le (h : bytes.length ≤ pos) : ranges bytes pos = [] := by
  rw [ranges, dif_neg (by omega)]

theorem ranges_quote (h : IsAt bytes pos (c :: cs)) (hquote : isQuote c = true) :
    ranges bytes pos = ranges bytes (skipQuoted bytes c.toUInt8 (pos + 1)) := by
  have hc := CommentRange.utf8Size_of_isQuote hquote
  obtain ⟨hlt, hbyte⟩ := h.narrow hc
  rw [ranges, dif_pos hlt, hbyte, ofUInt8_toUInt8 hc, if_pos hquote]

theorem ranges_slash (h : IsAt bytes pos ('/' :: cs)) :
    ranges bytes pos =
      if cs.head? = some '/' then
        (lineComment bytes pos (findLineEnd bytes pos)).stored ::
          ranges bytes (findLineEnd bytes pos)
      else if cs.head? = some '*' then
        (blockComment bytes pos (findClose bytes (pos + 2))).stored ::
          ranges bytes (findClose bytes (pos + 2))
      else if regexAllowedAfter (bytes.take pos) then ranges bytes (skipRegex bytes false (pos + 1))
      else ranges bytes (pos + 1) := by
  obtain ⟨hlt, hbyte⟩ := h.narrow rfl
  have htail : IsAt bytes (pos + 1) cs := h.tail
  rw [ranges, dif_pos hlt, hbyte, ofUInt8_toUInt8 rfl, if_neg (by decide), dif_pos rfl]
  simp only [char?_eq_some_iff (d := '/') (by decide) htail,
    char?_eq_some_iff (d := '*') (by decide) htail, dite_eq_ite]

theorem ranges_char (h : IsAt bytes pos (c :: cs)) (hquote : isQuote c = false) (hslash : c ≠ '/') :
    ranges bytes pos = ranges bytes (pos + c.utf8Size) := by
  by_cases hc : c.utf8Size = 1
  · obtain ⟨hlt, hbyte⟩ := h.narrow hc
    rw [ranges, dif_pos hlt, hbyte, ofUInt8_toUInt8 hc, hquote, if_neg (by decide), dif_neg hslash,
      hc]
  · exact h.pass_char ranges_passesWide hc

theorem not_isWide_of_isQuote {q : Char} (hquote : isQuote q = true) : ¬ IsWide q.toUInt8 := by
  intro hwide
  have hne := hwide.isQuote
  rw [ofUInt8_toUInt8 (CommentRange.utf8Size_of_isQuote hquote), hquote] at hne
  cases hne

section Quoted

variable {q : Char} (hquote : isQuote q = true)
include hquote

theorem skipQuoted_close (h : IsAt bytes pos (q :: cs)) :
    skipQuoted bytes q.toUInt8 pos = pos + 1 := by
  have hq := CommentRange.utf8Size_of_isQuote hquote
  rw [skipQuoted_narrow h hq hq, if_pos rfl]

theorem skipQuoted_backslash (h : IsAt bytes pos ('\\' :: cs)) :
    skipQuoted bytes q.toUInt8 pos = skipQuoted bytes q.toUInt8 (pos + 2) := by
  have hne : '\\' ≠ q := by
    rintro rfl
    exact absurd hquote (by decide)
  rw [skipQuoted_narrow h rfl (CommentRange.utf8Size_of_isQuote hquote), if_neg hne, if_pos rfl]

theorem skipQuoted_char (h : IsAt bytes pos (c :: cs)) (hne : c ≠ q) (hback : c ≠ '\\') :
    skipQuoted bytes q.toUInt8 pos = skipQuoted bytes q.toUInt8 (pos + c.utf8Size) := by
  by_cases hc : c.utf8Size = 1
  · rw [skipQuoted_narrow h hc (CommentRange.utf8Size_of_isQuote hquote), if_neg hne,
      if_neg hback, hc]
  · exact h.pass_char (skipQuoted_passesWide (not_isWide_of_isQuote hquote)) hc

theorem skipQuoted_escape (h : IsAt bytes pos ('\\' :: c :: cs)) :
    skipQuoted bytes q.toUInt8 pos = skipQuoted bytes q.toUInt8 (pos + 1 + c.utf8Size) := by
  have htail : IsAt bytes (pos + 1) (c :: cs) := h.tail
  rw [skipQuoted_backslash hquote h]
  exact htail.pass_tail (skipQuoted_passesWide (not_isWide_of_isQuote hquote))

end Quoted

theorem skipRegex_escape {inClass : Bool} (h : IsAt bytes pos ('\\' :: c :: cs)) :
    skipRegex bytes inClass pos = skipRegex bytes inClass (pos + 1 + c.utf8Size) := by
  have htail : IsAt bytes (pos + 1) (c :: cs) := h.tail
  rw [skipRegex_narrow h rfl, if_pos rfl]
  exact htail.pass_tail (skipRegex_passesWide inClass)

theorem skipRegex_char {inClass : Bool} (h : IsAt bytes pos (c :: cs)) (hback : c ≠ '\\')
    (hopen : c ≠ '[') (hclose : c ≠ ']') (hslash : ¬ (c = '/' ∧ inClass = false))
    (hend : isLineEnd c = false) :
    skipRegex bytes inClass pos = skipRegex bytes inClass (pos + c.utf8Size) := by
  by_cases hc : c.utf8Size = 1
  · rw [skipRegex_narrow h hc, if_neg hback, if_neg hopen, if_neg hclose, if_neg hslash, hend,
      if_neg (by decide), hc]
  · exact h.pass_char (skipRegex_passesWide inClass) hc

theorem skipRegex_lineEnd {inClass : Bool} (h : IsAt bytes pos (c :: cs))
    (hend : isLineEnd c = true) : skipRegex bytes inClass pos = pos := by
  have hcases : c = '\n' ∨ c = '\r' := by simpa [isLineEnd] using hend
  have hc := CommentRange.utf8Size_of_isLineEnd hend
  rw [skipRegex_narrow h hc, if_pos hend]
  rcases hcases with rfl | rfl
  · simp
  · simp

/-- A line end that a regular expression or a line comment stops at is read as code. -/
theorem ranges_lineEnd (h : IsAt bytes pos (c :: cs)) (hend : isLineEnd c = true) :
    ranges bytes pos = ranges bytes (pos + 1) := by
  have hcases : c = '\n' ∨ c = '\r' := by simpa [isLineEnd] using hend
  rcases hcases with rfl | rfl
  · exact ranges_char h rfl (by decide)
  · exact ranges_char h rfl (by decide)

theorem findLineEnd_char (h : IsAt bytes pos (c :: cs)) (hend : isLineEnd c = false) :
    findLineEnd bytes pos = findLineEnd bytes (pos + c.utf8Size) := by
  by_cases hc : c.utf8Size = 1
  · rw [findLineEnd_narrow h hc, hend, hc]
    rfl
  · exact h.pass_char findLineEnd_passesWide hc

/-! ### The scan and the cursor -/

variable (bytes) in
/-- The stored ranges that the cursor finds from `pos` on, inside of what `mode` says. -/
def resume : CommentRange.Mode → Nat → List StoredRange
  | .code, pos => ranges bytes pos
  | .quoted q, pos => ranges bytes (skipQuoted bytes q.toUInt8 pos)
  | .regex inClass, pos => ranges bytes (skipRegex bytes inClass pos)
  | .lineComment start, pos =>
    (lineComment bytes start (findLineEnd bytes pos)).stored :: ranges bytes (findLineEnd bytes pos)
  | .blockComment start, pos =>
    (blockComment bytes start (findClose bytes pos)).stored :: ranges bytes (findClose bytes pos)

/-- Outside of comments the cursor finds nothing behind the end of the text. -/
theorem resume_of_length_le {mode : CommentRange.Mode} (hmode : mode.start? = none)
    (h : bytes.length ≤ pos) : resume bytes mode pos = [] := by
  cases mode with
  | code => exact ranges_of_length_le h
  | quoted q => exact ranges_of_length_le (Nat.le_trans h (le_skipQuoted bytes q.toUInt8 pos))
  | regex inClass => exact ranges_of_length_le (Nat.le_trans h (le_skipRegex bytes inClass pos))
  | lineComment | blockComment => cases hmode

variable (bytes) in
/-- The cursor has reached the characters `rest` of the text, and takes a `/` there for what
the scan takes it for, whose last significant character is `prev`. -/
structure Reached (pos : Nat) (prev : Option Char) (rest : List Char) : Prop where
  pos_le : pos ≤ bytes.length
  isAt : IsAt bytes pos rest
  allowed : regexAllowedAfter (bytes.take pos) = regexAllowed prev

theorem regexAllowedAfter_concat {before : List UInt8} {prev : Option Char}
    (h : regexAllowedAfter before = regexAllowed prev) (c : Char) :
    regexAllowedAfter (before ++ String.utf8EncodeChar c) = regexAllowed (significant prev c) := by
  by_cases hc : c.utf8Size = 1
  · rw [String.utf8EncodeChar_eq_singleton hc]
    unfold regexAllowedAfter significant at *
    rw [List.reverse_append, List.reverse_singleton, List.singleton_append]
    have hread : Char.ofUInt8 c.val.toUInt8 = c := ofUInt8_toUInt8 hc
    by_cases hblank : isBlank c = true
    · rw [List.find?_cons_of_neg (by rw [hread, hblank]; decide), if_pos hblank]
      exact h
    · rw [List.find?_cons_of_pos (by rw [hread]; simpa using hblank), if_neg hblank,
        Option.map_some, hread]
  · -- the last byte is wide: like the character, it is not blank and expects no operand
    have hne : String.utf8EncodeChar c ≠ [] := by
      intro hnil
      have hlength := String.length_utf8EncodeChar c
      rw [hnil] at hlength
      exact absurd hlength.symm (Nat.ne_of_gt c.utf8Size_pos)
    have hlast := wide_of_mem hc _ (List.getLast_mem hne)
    have hblank : isBlank c = false :=
      Bool.eq_false_iff.mpr fun hblank => hc (utf8Size_of_isBlank hblank)
    have hstarts : c ∉ operandStarters := fun hmem =>
      hc (Char.utf8Size_eq_one_iff.mpr (Nat.le_of_lt_succ (toNat_lt_of_mem_operandStarters hmem)))
    rw [← List.dropLast_concat_getLast hne, ← List.append_assoc, regexAllowedAfter,
      List.reverse_append, List.reverse_singleton, List.singleton_append,
      List.find?_cons_of_pos (by rw [hlast.isBlank]; decide), Option.map_some,
      hlast.regexAllowed, significant, hblank]
    simpa [regexAllowed] using hstarts

namespace Reached

variable {prev : Option Char}

theorem start (source : List Char) : Reached (encode source) 0 none source where
  pos_le := Nat.zero_le _
  isAt := rfl
  allowed := rfl

/-- The cursor reads a character. -/
theorem read (h : Reached bytes pos prev (c :: cs)) :
    Reached bytes (pos + c.utf8Size) (significant prev c) cs where
  pos_le := by
    have hlength := congrArg List.length h.isAt.take
    rw [List.length_take, List.length_append, String.length_utf8EncodeChar] at hlength
    have := h.pos_le
    rw [List.length_take] at hlength
    omega
  isAt := h.isAt.tail
  allowed := by
    rw [h.isAt.take]
    exact regexAllowedAfter_concat h.allowed c

theorem readLineEnd (h : Reached bytes pos prev (c :: cs)) (hend : isLineEnd c = true) :
    Reached bytes (pos + 1) prev cs := by
  have hcases : c = '\n' ∨ c = '\r' := by simpa [isLineEnd] using hend
  rcases hcases with rfl | rfl
  · exact h.read
  · exact h.read

theorem length_eq (h : Reached bytes pos prev []) : bytes.length = pos :=
  Nat.le_antisymm h.isAt.length_le h.pos_le

end Reached

theorem nil_of_forall_ne_cons : ∀ {cs : List Char}, (∀ d ds, cs = d :: ds → False) → cs = []
  | [], _ => rfl
  | d :: ds, h => (h d ds rfl).elim

theorem head?_ne {d : Char} (h : ∀ ds, cs = d :: ds → False) : cs.head? ≠ some d := fun hhead =>
  h cs.tail (List.eq_cons_of_mem_head? hhead)

/-- What a mode remembers as its quote is one. -/
def HasQuote : CommentRange.Mode → Prop
  | .quoted q => isQuote q = true
  | _ => True

open CommentRange in
/-- **The cursor finds what the scan finds**, from any place of a text on. -/
theorem scan_stored (mode : Mode) (pos : Nat) (prev : Option Char) (rest : List Char) :
    HasQuote mode → Reached bytes pos prev rest →
      (scan mode pos prev rest).map stored = resume bytes mode pos := by
  fun_induction scan mode pos prev rest with
  -- the text ends outside of comments
  | case1 | case8 | case12 => exact fun _ h => (resume_of_length_le rfl h.isAt.length_le).symm
  -- a comment opens
  | case2 prev pos rest ih =>
    intro _ h
    have hsecond : IsAt bytes (pos + 1) ('/' :: rest) := h.isAt.tail
    have hstop : findLineEnd bytes pos = findLineEnd bytes (pos + 2) :=
      (findLineEnd_char h.isAt rfl).trans (findLineEnd_char hsecond rfl)
    rw [ih trivial h.read.read, resume, resume, ranges_slash h.isAt, List.head?_cons, if_pos rfl,
      hstop]
  | case3 prev pos rest ih =>
    intro _ h
    rw [ih trivial h.read.read, resume, resume, ranges_slash h.isAt, List.head?_cons,
      if_neg (by decide), if_pos rfl]
  -- a `/` opens a regular expression or divides
  | case4 pos prev rest hallowed hline hblock ih =>
    intro _ h
    rw [ih trivial h.read, resume, resume, ranges_slash h.isAt,
      if_neg (head?_ne fun ds => hline ds rfl), if_neg (head?_ne fun ds => hblock ds rfl),
      h.allowed, if_pos hallowed]
  | case5 pos prev rest hallowed hline hblock ih =>
    intro _ h
    rw [ih trivial h.read, resume, resume, ranges_slash h.isAt,
      if_neg (head?_ne fun ds => hline ds rfl), if_neg (head?_ne fun ds => hblock ds rfl),
      h.allowed, if_neg hallowed]
  | case6 pos prev c rest _ _ hslash hquote ih =>
    intro _ h
    have hc := utf8Size_of_isQuote hquote
    have hread := h.read
    rw [hc, significant, isBlank_of_isQuote hquote, if_neg (by decide)] at hread
    rw [ih hquote hread, resume, resume,
      ranges_quote h.isAt hquote]
  | case7 pos prev c rest _ _ hslash hquote ih =>
    intro _ h
    rw [ih trivial h.read, resume, resume, ranges_char h.isAt (by simpa using hquote) hslash]
  -- inside of a string or a template
  | case9 q pos prev c rest ih =>
    intro hmode h
    rw [ih hmode h.read.read, resume, resume, skipQuoted_escape hmode h.isAt]
  | case10 pos prev q rest _ ih =>
    intro hmode h
    have hq := CommentRange.utf8Size_of_isQuote hmode
    rw [ih trivial h.read, resume, resume, skipQuoted_close hmode h.isAt, hq]
  | case11 q pos prev c rest hescape hne ih =>
    intro hmode h
    by_cases hback : c = '\\'
    · -- nothing is behind the backslash, and the cursor steps past the end
      subst hback
      obtain rfl : rest = [] := nil_of_forall_ne_cons fun d ds => hescape d ds rfl
      have hend : bytes.length = pos + 1 := h.read.length_eq
      rw [scan, resume, skipQuoted_backslash hmode h.isAt]
      show [] = resume bytes (.quoted q) (pos + 2)
      exact (resume_of_length_le rfl (by omega)).symm
    · rw [ih hmode h.read, resume, resume, skipQuoted_char hmode h.isAt hne hback]
  -- inside of a regular expression
  | case13 inClass pos prev c rest ih =>
    intro hmode h
    rw [ih trivial h.read.read, resume, resume, skipRegex_escape h.isAt]
  | case14 inClass pos prev c rest _ hend ih =>
    intro _ h
    rw [ih trivial (h.readLineEnd hend), resume, resume, skipRegex_lineEnd h.isAt hend,
      ranges_lineEnd h.isAt hend]
  | case15 inClass pos prev rest _ _ ih =>
    intro _ h
    rw [ih trivial h.read, resume, resume, skipRegex_narrow h.isAt rfl, if_neg (by decide),
      if_pos rfl]
  | case16 inClass pos prev rest _ _ _ ih =>
    intro _ h
    rw [ih trivial h.read, resume, resume, skipRegex_narrow h.isAt rfl, if_neg (by decide),
      if_neg (by decide), if_pos rfl]
  | case17 inClass pos prev c rest _ _ _ _ hslash ih =>
    intro _ h
    obtain ⟨rfl, rfl⟩ : c = '/' ∧ inClass = false := by simpa using hslash
    rw [ih trivial h.read, resume, resume, skipRegex_narrow h.isAt rfl, if_neg (by decide),
      if_neg (by decide), if_neg (by decide), if_pos ⟨rfl, rfl⟩]
  | case18 inClass pos prev c rest hescape hend hopen hclose hslash ih =>
    intro _ h
    by_cases hback : c = '\\'
    · subst hback
      obtain rfl : rest = [] := nil_of_forall_ne_cons fun d ds => hescape d ds rfl
      have hend : bytes.length = pos + 1 := h.read.length_eq
      rw [scan, resume, skipRegex_narrow h.isAt rfl, if_pos rfl]
      show [] = resume bytes (.regex inClass) (pos + 2)
      exact (resume_of_length_le rfl (by omega)).symm
    · rw [ih trivial h.read, resume, resume,
        skipRegex_char h.isAt hback hopen hclose (by simpa using hslash) (by simpa using hend)]
  -- inside of a line comment
  | case19 prev start pos =>
    intro _ h
    have hend : ¬ pos < bytes.length := Nat.not_lt_of_le h.isAt.length_le
    have hstop : findLineEnd bytes pos = pos := by
      rw [findLineEnd, dif_neg hend, h.length_eq]
    rw [resume, hstop, ranges_of_length_le h.isAt.length_le, lineComment, decide_eq_false hend]
    rfl
  | case20 start pos prev c rest hend ih =>
    intro _ h
    have hstop : findLineEnd bytes pos = pos := by
      rw [findLineEnd_narrow h.isAt (utf8Size_of_isLineEnd hend), if_pos hend]
    rw [List.map_cons, ih trivial (h.readLineEnd hend), resume, resume, hstop, lineComment,
      decide_eq_true h.isAt.lt_length, ranges_lineEnd h.isAt hend]
  | case21 start pos prev c rest hend ih =>
    intro _ h
    rw [ih trivial h.read, resume, resume, findLineEnd_char h.isAt (by simpa using hend)]
  -- inside of a block comment
  | case22 prev start pos =>
    intro _ h
    have hlength := h.length_eq
    have hstop : findClose bytes pos = pos := by
      rw [findClose, dif_neg (by omega), hlength]
    have hnone : char? bytes pos = none := by
      rw [char?, List.getElem?_eq_none h.isAt.length_le]
      rfl
    rw [resume, hstop, ranges_of_length_le h.isAt.length_le, blockComment, hnone]
    rfl
  | case23 prev start pos rest ih =>
    intro _ h
    have hread : Reached bytes (pos + 2) (some '/') rest := h.read.read
    rw [List.map_cons, ih trivial hread, resume, resume, findClose_char h.isAt,
      if_pos ⟨rfl, rfl⟩, blockComment, char?_isLineEnd hread.isAt]
  | case24 start pos prev c rest hclose ih =>
    intro _ h
    have hopen : ¬ (c = '*' ∧ rest.head? = some '/') := fun hend =>
      head?_ne (fun ds => hclose ds hend.1) hend.2
    rw [ih trivial h.read, resume, resume, findClose_char h.isAt, if_neg hopen]

end Cursor

/-- **The cursor finds the comments of the scan**, on every text. -/
theorem storedRanges_eq (source : String) :
    storedRanges source = (commentRanges source).map CommentRange.stored := by
  unfold storedRanges commentRanges
  rw [toList_toByteArray, Cursor.scan_stored .code 0 none _ trivial (.start _)]
  rfl

/-- Offsets of less than 2^32 are stored as they are. -/
theorem CommentRange.range_stored {r : CommentRange} (hstart : r.start < 2 ^ 32)
    (hstop : r.stop < 2 ^ 32) : r.stored.range = r := by
  unfold stored StoredRange.range
  rw [UInt32.toNat_ofNat_of_lt' hstart, UInt32.toNat_ofNat_of_lt' hstop]

/-- **In a text of less than 2^32 bytes, the cursor finds the ranges of the scan**, offsets
included. -/
theorem storedRanges_exact {source : String} (h : source.utf8ByteSize < 2 ^ 32) :
    (storedRanges source).map StoredRange.range = commentRanges source := by
  rw [storedRanges_eq, List.map_map]
  refine (List.map_congr_left fun r hr => ?_).trans (List.map_id _)
  obtain ⟨before, comment, after, hsource, -, hstart, hstop⟩ := commentRanges_fits source r hr
  have hsize : byteLength before + byteLength comment + byteLength after < 2 ^ 32 := by
    rw [← byteLength_append, ← byteLength_append, ← hsource, byteLength_toList]
    exact h
  rw [byteLength_append] at hstop
  exact CommentRange.range_stored (by omega) (by omega)

/-- The backslash takes the cursor into a character of three bytes. -/
example : storedRanges "'\\\u20ac'//\\" = [⟨6, 9, false, false⟩] := by
  rw [storedRanges_eq]
  decide

end EcmaPrinter
