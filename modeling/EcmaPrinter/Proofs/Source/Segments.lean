/-
# The comments of a source text are found exactly

A source text is a concatenation of segments: plain text, string and template
literals, regular expressions, divisions and comments (`Segment`). Whether a `/`
opens a regular expression is decided by the last character in front of it that is
not blank. A segment fits its place if it reads as what it stands for there
(`Segment.Fits`).

On such a text the scan is in step with the segments: it enters each of them where
it starts, outside of everything, and leaves it in the same way where it ends
(`Segment.scan_text`). The comments that it finds are the comment segments
(`comment_ranges_are_comment_segments`). For a text of less than 2^32 bytes these are also
the ranges that a cursor stores (`storedRanges_exact`).

Key definitions: `Part`, `RegexPart`, `Segment`, `Segment.Fits`, `Segment.Fit`,
`Segment.ranges`.
Key theorems: `CommentRange.passes_quoted`, `CommentRange.passes_regexBody`,
`Segment.scan_text`, `comment_ranges_are_comment_segments`.
-/
import EcmaPrinter.Proofs.Source.Ranges
import Mathlib.Data.List.Infix

namespace EcmaPrinter

/-! ### Segments -/

/-- A part of a literal: a character that stands for itself, or one behind a
backslash. -/
inductive Part where
  | plain (c : Char)
  | escape (c : Char)

namespace Part

def text : Part → List Char
  | .plain c => [c]
  | .escape c => ['\\', c]

/-- The part can stand in front of `closing`, which ends the literal. -/
def fits (closing : Char) : Part → Bool
  | .plain c => c != closing && c != '\\'
  | .escape _ => true

end Part

/-- A part of a regular expression. Inside of a class, nothing but its end has a
meaning. -/
inductive RegexPart where
  | part (p : Part)
  | klass (parts : List Part)

namespace RegexPart

def text : RegexPart → List Char
  | .part p => p.text
  | .klass parts => '[' :: parts.flatMap Part.text ++ [']']

/-- The part can stand in front of the `/` that ends the regular expression. -/
def fits : RegexPart → Bool
  | .part (.plain c) => c != '/' && c != '\\' && c != '['
  | .part (.escape _) => true
  | .klass parts => parts.all (Part.fits ']')

end RegexPart

/-- A segment of a source text. -/
inductive Segment where
  | plain (cs : List Char)
  /-- A string or a template. -/
  | quoted (quote : Char) (body : List Part)
  | regex (body : List RegexPart)
  /-- The sign of a division. -/
  | division
  | lineComment (body : List Char)
  | blockComment (body : List Char)
  /-- A block comment that is not closed. -/
  | openComment (body : List Char)

/-- The last character of a text that is not blank. -/
def lastSignificant (cs : List Char) : Option Char := (cs.filter fun c => !isBlank c).getLast?

/-- A line end is the first character of a text. -/
def startsWithLineEnd (cs : List Char) : Bool := (cs.head?.map isLineEnd).getD false

namespace Segment

def text : Segment → List Char
  | .plain cs => cs
  | .quoted quote body => quote :: body.flatMap Part.text ++ [quote]
  | .regex body => '/' :: body.flatMap RegexPart.text ++ ['/']
  | .division => ['/']
  | .lineComment body => '/' :: '/' :: body
  | .blockComment body => '/' :: '*' :: body ++ ['*', '/']
  | .openComment body => '/' :: '*' :: body

/-- The segment reads as what it stands for between these texts. -/
def Fits (before after : List Char) : Segment → Prop
  | .plain cs => ∀ c ∈ cs, isQuote c = false ∧ c ≠ '/'
  | .quoted quote body => isQuote quote = true ∧ ∀ p ∈ body, p.fits quote = true
  | .regex body =>
    (∀ p ∈ body, p.fits = true) ∧ (∀ c ∈ body.flatMap RegexPart.text, isLineEnd c = false) ∧
      body.flatMap RegexPart.text ≠ [] ∧ (body.flatMap RegexPart.text).head? ≠ some '*' ∧
      (body.flatMap RegexPart.text).head? ≠ some '/' ∧
      ∀ c ∈ lastSignificant before, c ∈ operandStarters
  | .division =>
    (∃ c ∈ lastSignificant before, c ∉ operandStarters) ∧
      after.head? ≠ some '/' ∧ after.head? ≠ some '*'
  | .lineComment body =>
    (∀ c ∈ body, isLineEnd c = false) ∧ (after = [] ∨ startsWithLineEnd after = true)
  | .blockComment body => ¬ ['*', '/'] <:+: body
  | .openComment body => ¬ ['*', '/'] <:+: body ∧ after = []

-- Characters are tested along a text, which is faster than over the whole type.
instance decidableFits (before after : List Char) : (s : Segment) → Decidable (s.Fits before after)
  | .plain cs => List.decidableBAll (fun c => isQuote c = false ∧ c ≠ '/') cs
  | .quoted quote body =>
    have := List.decidableBAll (fun p : Part => p.fits quote = true) body
    instDecidableAnd
  | .regex body =>
    have := List.decidableBAll (fun p : RegexPart => p.fits = true) body
    have := List.decidableBAll (fun c => isLineEnd c = false) (body.flatMap RegexPart.text)
    have := Option.decidableForallMem (p := (· ∈ operandStarters)) (lastSignificant before)
    instDecidableAnd
  | .division =>
    have := Option.decidableExistsMem (p := (· ∉ operandStarters)) (lastSignificant before)
    instDecidableAnd
  | .lineComment body =>
    have := List.decidableBAll (fun c => isLineEnd c = false) body
    instDecidableAnd
  | .blockComment _ => instDecidableNot
  | .openComment _ => instDecidableAnd

/-- Segments fit their places one behind the other, behind the text `before`. -/
def Fit (before : List Char) : List Segment → Prop
  | [] => True
  | s :: rest => s.Fits before (rest.flatMap text) ∧ Fit (before ++ s.text) rest

instance decidableFit : (before : List Char) → (segments : List Segment) →
    Decidable (Fit before segments)
  | _, [] => inferInstanceAs (Decidable True)
  | before, s :: rest =>
    have := decidableFit (before ++ s.text) rest
    inferInstanceAs (Decidable (s.Fits before (rest.flatMap text) ∧ Fit (before ++ s.text) rest))

/-- The range of a segment that is a comment, from the offset `start` on and in front of
the text `after`. -/
def range? (start : Nat) (after : List Char) (s : Segment) : Option CommentRange :=
  match s with
  | .lineComment _ => some ⟨start, start + byteLength s.text, false, startsWithLineEnd after⟩
  | .blockComment _ | .openComment _ =>
    some ⟨start, start + byteLength s.text, true, startsWithLineEnd after⟩
  | .plain _ | .quoted _ _ | .regex _ | .division => none

/-- The ranges of the segments that are comments, in order. -/
def ranges (start : Nat) : List Segment → List CommentRange
  | [] => []
  | s :: rest =>
    (s.range? start (rest.flatMap text)).toList ++ ranges (start + byteLength s.text) rest

end Segment

/-! ### The last significant character -/

theorem lastSignificant_concat (before : List Char) (c : Char) :
    lastSignificant (before ++ [c]) = significant (lastSignificant before) c := by
  unfold lastSignificant significant
  by_cases hc : isBlank c = true
  · simp [hc]
  · simp [hc]

/-- The last significant character after reading on. -/
theorem lastSignificant_append : ∀ cs before : List Char,
    lastSignificant (before ++ cs) = cs.foldl significant (lastSignificant before)
  | [], before => by rw [List.append_nil]; rfl
  | c :: cs, before => by
    rw [List.append_cons, lastSignificant_append cs, lastSignificant_concat]
    rfl

theorem regexAllowed_iff (prev : Option Char) :
    regexAllowed prev = true ↔ ∀ c ∈ prev, c ∈ operandStarters := by
  cases prev <;> simp [regexAllowed]

/-! ### The scan inside of a segment -/

namespace CommentRange

/-- Two characters that the scan reads at once. -/
def Mode.readsPair : Mode → Char → Char → Bool
  | .code, c, d => c == '/' && (d == '/' || d == '*')
  | .quoted _, c, _ | .regex _, c, _ => c == '\\'
  | .lineComment _, _, _ => false
  | .blockComment _, c, d => c == '*' && d == '/'

/-- A line end ends what the scan is inside of. -/
def Mode.endsWithLine : Mode → Bool
  | .regex _ | .lineComment _ => true
  | .code | .quoted _ | .blockComment _ => false

/-- What the scan is inside of behind a character that it reads alone. -/
def Mode.behind (prev : Option Char) (c : Char) : Mode → Mode
  | .code =>
    if c = '/' then if regexAllowed prev then .regex false else .code
    else if isQuote c then .quoted c
    else .code
  | .quoted quote => if c = quote then .code else .quoted quote
  | .regex inClass =>
    if c = '[' then .regex true
    else if c = ']' then .regex false
    else if c = '/' && !inClass then .code
    else .regex inClass
  | .lineComment start => .lineComment start
  | .blockComment start => .blockComment start

theorem isBlank_of_isQuote {quote : Char} (h : isQuote quote = true) : isBlank quote = false := by
  simp only [isQuote, Bool.or_eq_true, beq_iff_eq] at h
  rcases h with (rfl | rfl) | rfl <;> rfl

/-- **The scan reads a character.** -/
theorem scan_cons {mode : Mode} {c : Char} {rest : List Char}
    (hpair : ∀ d ∈ rest.head?, mode.readsPair c d = false)
    (hend : mode.endsWithLine = true → isLineEnd c = false) (pos : Nat) (prev : Option Char) :
    scan mode pos prev (c :: rest) =
      scan (mode.behind prev c) (pos + c.utf8Size) (significant prev c) rest := by
  cases mode with
  | code =>
    rw [scan.eq_4 _ _ _ _ (by rintro _ rfl rfl; cases hpair _ rfl)
      (by rintro _ rfl rfl; cases hpair _ rfl), Mode.behind]
    by_cases hslash : c = '/'
    · subst hslash
      rw [if_pos rfl, if_pos rfl]
      split <;> rfl
    rw [if_neg hslash, if_neg hslash]
    by_cases hquote : isQuote c = true
    · rw [if_pos hquote, if_pos hquote, utf8Size_of_isQuote hquote, significant,
        isBlank_of_isQuote hquote]
      rfl
    rw [if_neg hquote, if_neg hquote]
  | quoted quote =>
    rw [scan.eq_7 _ _ _ _ _ (by rintro d _ rfl rfl; cases hpair _ rfl), Mode.behind]
    split <;> rfl
  | regex inClass =>
    rw [scan.eq_10 _ _ _ _ _ (by rintro d _ rfl rfl; cases hpair _ rfl),
      if_neg (by simp [hend rfl]), Mode.behind]
    by_cases hopen : c = '['
    · subst hopen
      rfl
    by_cases hclose : c = ']'
    · subst hclose
      rfl
    rw [if_neg hopen, if_neg hopen, if_neg hclose, if_neg hclose]
    by_cases hslash : (c = '/' && !inClass) = true
    · rw [if_pos hslash, if_pos hslash]
      obtain ⟨rfl, -⟩ : c = '/' ∧ inClass = false := by simpa using hslash
      rfl
    · rw [if_neg hslash, if_neg hslash]
  | lineComment start => exact if_neg (by simp [hend rfl])
  | blockComment start =>
    exact scan.eq_15 _ _ _ _ _ (by rintro _ rfl rfl; cases hpair _ rfl)

/-- The scan reads some characters, comes from one mode into another, and finds
nothing. -/
def Passes (mode next : Mode) (cs : List Char) : Prop :=
  ∀ pos prev rest, scan mode pos prev (cs ++ rest) =
    scan next (pos + byteLength cs) (cs.foldl significant prev) rest

namespace Passes

variable {mode next last : Mode} {cs ds : List Char}

theorem nil : Passes mode mode [] := fun _ _ _ => rfl

theorem append (hcs : Passes mode next cs) (hds : Passes next last ds) :
    Passes mode last (cs ++ ds) := by
  intro pos prev rest
  rw [List.append_assoc, hcs, hds, byteLength_append, List.foldl_append, Nat.add_assoc]

/-- Parts that are all read in one mode. -/
theorem flatMap {α : Type} {text : α → List Char} : ∀ {parts : List α},
    (∀ p ∈ parts, Passes mode mode (text p)) → Passes mode mode (parts.flatMap text)
  | [], _ => nil
  | p :: parts, h => by
    obtain ⟨hp, hparts⟩ := List.forall_mem_cons.mp h
    rw [List.flatMap_cons]
    exact hp.append (flatMap hparts)

end Passes

/-- A character that is never read with the next one. -/
theorem passes_char {mode : Mode} {c : Char} (hpair : ∀ d, mode.readsPair c d = false)
    (hend : mode.endsWithLine = true → isLineEnd c = false)
    (hnext : ∀ prev, mode.behind prev c = next) : Passes mode next [c] := by
  intro pos prev rest
  exact (scan_cons (fun d _ => hpair d) hend pos prev).trans (by rw [hnext]; rfl)

/-- Plain text. -/
theorem passes_plain {c : Char} (hquote : isQuote c = false) (hslash : c ≠ '/') :
    Passes .code .code [c] :=
  passes_char (by simp [Mode.readsPair, hslash]) nofun (by simp [Mode.behind, hslash, hquote])

section Quoted

variable {quote : Char} (hquote : isQuote quote = true)

include hquote

theorem passes_openQuote : Passes .code (.quoted quote) [quote] := by
  have hslash : quote ≠ '/' := by
    rintro rfl
    cases hquote
  exact passes_char (by simp [Mode.readsPair, hslash]) nofun
    (by simp [Mode.behind, hslash, hquote])

theorem passes_closeQuote : Passes (.quoted quote) .code [quote] := by
  have hescape : quote ≠ '\\' := by
    rintro rfl
    cases hquote
  exact passes_char (by simp [Mode.readsPair, hescape]) nofun (by simp [Mode.behind])

omit hquote in
theorem passes_quotedPart {p : Part} (h : p.fits quote = true) :
    Passes (.quoted quote) (.quoted quote) p.text := by
  cases p with
  | plain c =>
    obtain ⟨hclosing, hescape⟩ : c ≠ quote ∧ c ≠ '\\' := by simpa [Part.fits] using h
    exact passes_char (by simp [Mode.readsPair, hescape]) nofun (by simp [Mode.behind, hclosing])
  | escape c =>
    intro pos prev rest
    change scan (.quoted quote) (pos + 1 + c.utf8Size) _ rest = _
    rw [Nat.add_assoc]
    rfl

/-- **A string or template is passed as a whole.** -/
theorem passes_quoted {body : List Part} (hbody : ∀ p ∈ body, p.fits quote = true) :
    Passes .code .code (Segment.quoted quote body).text :=
  ((passes_openQuote hquote).append (.flatMap fun p hp => passes_quotedPart (hbody p hp))).append
    (passes_closeQuote hquote)

end Quoted

section Regex

theorem passes_escape (inClass : Bool) (c : Char) :
    Passes (.regex inClass) (.regex inClass) (Part.escape c).text := by
  intro pos prev rest
  change scan (.regex inClass) (pos + 1 + c.utf8Size) _ rest = _
  rw [Nat.add_assoc]
  rfl

/-- A character of a regular expression that neither opens nor closes anything, or
stands in a class. -/
theorem passes_regexChar {inClass : Bool} {c : Char} (hend : isLineEnd c = false)
    (hescape : c ≠ '\\') (hopen : inClass = true ∨ c ≠ '[') (hclose : inClass = false ∨ c ≠ ']')
    (hslash : inClass = true ∨ c ≠ '/') : Passes (.regex inClass) (.regex inClass) [c] := by
  refine passes_char (by simp [Mode.readsPair, hescape]) (fun _ => hend) fun prev => ?_
  cases inClass with
  | false => simp_all [Mode.behind]
  | true => simp_all [Mode.behind]

theorem passes_class {parts : List Part} (hparts : ∀ p ∈ parts, p.fits ']' = true)
    (hends : ∀ c ∈ parts.flatMap Part.text, isLineEnd c = false) :
    Passes (.regex false) (.regex false) (RegexPart.klass parts).text := by
  have hopen : Passes (.regex false) (.regex true) ['['] := fun _ _ _ => rfl
  have hclose : Passes (.regex true) (.regex false) [']'] := fun _ _ _ => rfl
  refine (hopen.append (.flatMap fun p hp => ?_)).append hclose
  cases p with
  | escape c => exact passes_escape true c
  | plain c =>
    obtain ⟨hclosing, hescape⟩ : c ≠ ']' ∧ c ≠ '\\' := by simpa [Part.fits] using hparts _ hp
    have hend : isLineEnd c = false :=
      hends c (List.mem_flatMap.mpr ⟨.plain c, hp, List.mem_singleton_self c⟩)
    exact passes_regexChar hend hescape (.inl rfl) (.inr hclosing) (.inl rfl)

theorem passes_regexPart {p : RegexPart} (h : p.fits = true)
    (hends : ∀ c ∈ p.text, isLineEnd c = false) : Passes (.regex false) (.regex false) p.text := by
  cases p with
  | part p =>
    cases p with
    | escape c => exact passes_escape false c
    | plain c =>
      obtain ⟨⟨hslash, hescape⟩, hopen⟩ : (c ≠ '/' ∧ c ≠ '\\') ∧ c ≠ '[' := by
        simpa [RegexPart.fits] using h
      exact passes_regexChar (hends c (List.mem_singleton_self c)) hescape (.inr hopen) (.inl rfl)
        (.inr hslash)
  | klass parts =>
    refine passes_class (List.all_eq_true.mp h) fun c hc => hends c ?_
    simp [RegexPart.text, hc]

/-- The body of a regular expression is passed, and so is the `/` behind it. -/
theorem passes_regexBody {body : List RegexPart} (hbody : ∀ p ∈ body, p.fits = true)
    (hends : ∀ c ∈ body.flatMap RegexPart.text, isLineEnd c = false) :
    Passes (.regex false) .code (body.flatMap RegexPart.text ++ ['/']) := by
  have hclose : Passes (.regex false) .code ['/'] := fun _ _ _ => rfl
  refine Passes.append (.flatMap fun p hp => passes_regexPart (hbody p hp) fun c hc => ?_) hclose
  exact hends c (List.mem_flatMap.mpr ⟨p, hp, hc⟩)

end Regex

section Slash

variable {rest : List Char} (pos : Nat) (prev : Option Char)

/-- A `/` that opens no comment. -/
theorem scan_slash (hline : rest.head? ≠ some '/') (hblock : rest.head? ≠ some '*') :
    scan .code pos prev ('/' :: rest) =
      scan (if regexAllowed prev then .regex false else .code) (pos + 1) (some '/') rest := by
  have hpair : ∀ d ∈ rest.head?, Mode.code.readsPair '/' d = false := by
    intro d hd
    have hne : d ≠ '/' ∧ d ≠ '*' := ⟨fun h => hline (h ▸ hd), fun h => hblock (h ▸ hd)⟩
    simp [Mode.readsPair, hne]
  exact scan_cons hpair nofun pos prev

/-- A line comment ends in front of a line end or at the end of the text. -/
theorem scan_lineComment (start : Nat) {body : List Char}
    (hbody : ∀ c ∈ body, isLineEnd c = false)
    (hrest : rest = [] ∨ startsWithLineEnd rest = true) :
    scan (.lineComment start) pos prev (body ++ rest) =
      ⟨start, pos + byteLength body, false, startsWithLineEnd rest⟩ ::
        scan .code (pos + byteLength body) (body.foldl significant prev) rest := by
  have hpasses : Passes (.lineComment start) (.lineComment start) body := by
    rw [← List.flatMap_singleton' body]
    exact .flatMap fun c hc => passes_char (fun _ => rfl) (fun _ => hbody c hc) fun _ => rfl
  rw [hpasses]
  rcases hrest with rfl | hrest
  · rfl
  · cases rest with
    | nil => cases hrest
    | cons c rest =>
      have hend : isLineEnd c = true := hrest
      have hplain : isQuote c = false ∧ c ≠ '/' ∧ isBlank c = true ∧ c.utf8Size = 1 := by
        simp only [isLineEnd, Bool.or_eq_true, beq_iff_eq] at hend
        rcases hend with rfl | rfl <;> decide
      have hcode (pos : Nat) (prev : Option Char) :
          scan .code pos prev (c :: rest) = scan .code (pos + 1) prev rest := by
        have hpass := passes_plain hplain.1 hplain.2.1 pos prev rest
        simpa [significant, hplain.2.2.1, hplain.2.2.2] using hpass
      rw [hrest, hcode]
      exact if_pos hend

/-- A block comment is read up to its end. -/
theorem scan_blockBody (start : Nat) : ∀ (pos : Nat) (prev : Option Char) {body : List Char},
    ¬ ['*', '/'] <:+: body → rest.head? ≠ some '/' →
    scan (.blockComment start) pos prev (body ++ rest) =
      scan (.blockComment start) (pos + byteLength body) (body.foldl significant prev) rest
  | _, _, [], _, _ => rfl
  | pos, prev, c :: body, hbody, hrest => by
    have hnext : ∀ d ∈ (body ++ rest).head?, (Mode.blockComment start).readsPair c d = false := by
      intro d hd
      by_contra hpair
      obtain ⟨rfl, rfl⟩ : c = '*' ∧ d = '/' := by simpa [Mode.readsPair] using hpair
      cases body with
      | nil => exact hrest hd
      | cons d body =>
        obtain rfl : d = '/' := Option.some.inj hd
        exact hbody ⟨[], body, rfl⟩
    have hinner : ¬ ['*', '/'] <:+: body := fun h => hbody (List.infix_cons h)
    rw [List.cons_append, scan_cons hnext nofun, Mode.behind, scan_blockBody _ _ _ hinner hrest,
      byteLength_cons, Nat.add_assoc]
    rfl

/-- **A closed block comment is found.** -/
theorem scan_blockComment (start : Nat) {body : List Char} (hbody : ¬ ['*', '/'] <:+: body) :
    scan (.blockComment start) pos prev (body ++ ['*', '/'] ++ rest) =
      ⟨start, pos + byteLength (body ++ ['*', '/']), true, startsWithLineEnd rest⟩ ::
        scan .code (pos + byteLength (body ++ ['*', '/']))
          ((body ++ ['*', '/']).foldl significant prev) rest := by
  have hclose (pos : Nat) (prev : Option Char) :
      scan (.blockComment start) pos prev ('*' :: '/' :: rest) =
        ⟨start, pos + 2, true, startsWithLineEnd rest⟩ :: scan .code (pos + 2) (some '/') rest :=
    rfl
  rw [List.append_assoc, scan_blockBody _ _ _ hbody (by simp)]
  change scan (.blockComment start) _ _ ('*' :: '/' :: rest) = _
  rw [hclose, byteLength_append, List.foldl_append, Nat.add_assoc]
  rfl

end Slash

end CommentRange

/-! ### The scan along segments -/

open CommentRange

/-- **The scan is in step with the segments.** From the start of a segment on, outside of
everything, it comes to its end in the same way, and finds its comment if it is one. -/
theorem Segment.scan_text {before after : List Char} {s : Segment} (h : s.Fits before after)
    (pos : Nat) :
    scan .code pos (lastSignificant before) (s.text ++ after) =
      (s.range? pos after).toList ++
        scan .code (pos + byteLength s.text) (lastSignificant (before ++ s.text)) after := by
  have hopening (c : Char) (hc : c.utf8Size = 1) (body : List Char) :
      byteLength ('/' :: c :: body) = 2 + byteLength body := by
    have hslash : '/'.utf8Size = 1 := rfl
    rw [byteLength_cons, byteLength_cons, hc, hslash, ← Nat.add_assoc]
  rw [lastSignificant_append]
  cases s with
  | plain cs =>
    have hpasses : Passes .code .code cs := by
      rw [← List.flatMap_singleton' cs]
      exact .flatMap fun c hc => passes_plain (h c hc).1 (h c hc).2
    exact hpasses pos _ after
  | quoted quote body => exact passes_quoted h.1 h.2 pos _ after
  | regex body =>
    obtain ⟨hbody, hends, hne, hstar, hslash, hstarters⟩ := h
    have hhead : (body.flatMap RegexPart.text ++ ['/'] ++ after).head? =
        (body.flatMap RegexPart.text).head? := by
      rw [List.append_assoc, List.head?_append_of_ne_nil _ hne]
    have hscan := scan_slash pos (lastSignificant before) (hhead ▸ hslash) (hhead ▸ hstar)
    rw [if_pos ((regexAllowed_iff _).mpr hstarters),
      passes_regexBody hbody hends (pos + 1) _ after, Nat.add_assoc] at hscan
    exact hscan
  | division =>
    obtain ⟨⟨c, hlast, hstarters⟩, hline, hblock⟩ := h
    have hdivides : ¬ regexAllowed (lastSignificant before) = true := fun hallowed =>
      hstarters ((regexAllowed_iff _).mp hallowed c hlast)
    have hscan := scan_slash pos (lastSignificant before) hline hblock
    rw [if_neg hdivides] at hscan
    exact hscan
  | lineComment body =>
    have hscan := scan_lineComment (pos + 2) (some '/') pos h.1 h.2
    rw [Nat.add_assoc, ← hopening '/' rfl] at hscan
    exact hscan
  | blockComment body =>
    have hscan := @scan_blockComment after (pos + 2) (some '*') pos body h
    rw [Nat.add_assoc, ← hopening '*' rfl] at hscan
    exact hscan
  | openComment body =>
    obtain ⟨hbody, rfl⟩ := h
    have hscan := @scan_blockBody [] pos (pos + 2) (some '*') body hbody (by simp)
    rw [Nat.add_assoc, ← hopening '*' rfl] at hscan
    exact hscan

/-- The scan along segments, behind some text. -/
theorem Segment.scan_segments : ∀ {segments : List Segment} {before : List Char},
    Fit before segments →
    scan .code (byteLength before) (lastSignificant before) (segments.flatMap text) =
      ranges (byteLength before) segments
  | [], _, _ => rfl
  | s :: rest, before, h => by
    have hrest := scan_segments h.2
    rw [List.flatMap_cons, scan_text h.1, ← byteLength_append, hrest, ranges, byteLength_append]

/-- **The comments of a source text are found exactly.** If a source text is made of
plain text, literals, divisions and comments that fit their places, then the ranges that
are found in it are those of its comments, in order, each with its kind and with whether
a line end directly follows it. -/
theorem comment_ranges_are_comment_segments (source : String) (segments : List Segment)
    (hsource : source.toList = segments.flatMap Segment.text) (hfit : Segment.Fit [] segments) :
    commentRanges source = Segment.ranges 0 segments := by
  rw [commentRanges, hsource]
  exact Segment.scan_segments hfit

/-- A source text in segments: behind an operand a `/` divides, and in front of one it
opens a regular expression, which may have a `/` in a class. -/
def segmentedSource : List Segment :=
  [.plain "q = ".toList, .regex [.klass [.plain '/', .plain '\x27']], .plain "; ".toList,
    .lineComment " one".toList, .plain "\nd = a ".toList, .division, .plain " ".toList,
    .quoted '\x27' [.escape '\x27', .plain '/', .plain '/'], .openComment "* two".toList]

/-- Its two comments are found. -/
theorem segmentedSource_comments :
    commentRanges "q = /[/']/; // one\nd = a / '\\'//'/** two" =
      [⟨12, 18, false, true⟩, ⟨33, 40, true, false⟩] :=
  (comment_ranges_are_comment_segments _ segmentedSource (by decide) (by decide)).trans (by decide)

end EcmaPrinter
