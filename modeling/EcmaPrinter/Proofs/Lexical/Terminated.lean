/-
# Terminators

A semicolon or a closing brace ends a statement. It is no part of a longer word, number
or punctuator, whatever stands in front of it or behind, so outside of literals and
comments it is an element of its own.

Key definitions: `isTerminator`, `Lexical.Element.isCode`, `Lexical.Element.text`.
Key theorems: `Lexical.reads_terminator`, `Lexical.step_terminator`.
-/
import EcmaPrinter.Proofs.Lexical.Punctuators
import Mathlib.Data.List.TakeWhile

namespace EcmaPrinter

/-- A character that ends a statement. -/
def isTerminator (c : Char) : Bool := c == ';' || c == '\x7d'

namespace Lexical

theorem isTerminator_cases {c : Char} (h : isTerminator c = true) : c = ';' ∨ c = '\x7d' := by
  simpa [isTerminator] using h

variable {c : Char} {test : Char → Bool}

/-! ### Tests of what stands in front -/

theorem takeWhile_before (h : test c = false) (rest : List Char) : ∀ t : List Char,
    (t ++ c :: rest).takeWhile test = t.takeWhile test
  | [] => by simp [h]
  | d :: t => by
    simp only [List.cons_append, List.takeWhile_cons, takeWhile_before h rest t]

/-- What does not hold the terminator is a prefix or not whatever stands behind it. -/
theorem isPrefixOf_before (rest : List Char) : ∀ {q t : List Char}, c ∉ q →
    q.isPrefixOf (t ++ c :: rest) = q.isPrefixOf t
  | [], [], _ | [], _ :: _, _ => rfl
  | e :: q, [], h => by simp [List.isPrefixOf, (List.ne_of_not_mem_cons h).symm]
  | e :: q, d :: t, h => by
    simp [List.isPrefixOf, isPrefixOf_before rest (t := t) (List.not_mem_of_not_mem_cons h)]

/-! ### Elements -/

/-- **A terminator is read as it is**, whatever follows. -/
theorem reads_terminator (hc : isTerminator c = true) (goal : Goal) (isLineStart : Bool)
    (rest : List Char) :
    Reads isLineStart goal [c] [.punct [c]] (goal.after (.punct [c])) rest := by
  have hall : [c] ∈ punctuators ∧ [c].head? ≠ some '.' ∧ [c] ≠ "?.".toList ∧ clashes [c] = [] ∧
      [c].head? ≠ some '/' := by
    rcases isTerminator_cases hc with rfl | rfl <;> decide
  obtain ⟨hmem, hdot, hchain, hclashes, hslash⟩ := hall
  refine reads_punct hmem hdot hchain (absurd · hslash) ?_
  rw [hclashes]
  cases rest <;> rfl

/-- Whether an element is one of code, not a string or a regular expression. -/
def Element.isCode : Element → Bool
  | .word _ | .number _ | .punct _ => true
  | .string _ | .regex _ _ => false

/-- The characters of an element. -/
def Element.text : Element → List Char
  | .word text | .number text | .string text | .punct text => text
  | .regex body flags => '/' :: (body ++ '/' :: flags)

/-- What numbers are made of, besides digits. -/
def numberMarks : List Char := ['.', 'e', 'E', '+', '-']

theorem mem_exponentMark {d : Char} {cs : List Char} (h : d ∈ exponentMark cs) :
    d ∈ numberMarks := by
  unfold exponentMark at h
  split at h
  · cases h
  · rename_i e cs
    split at h
    · rename_i he
      have hletter : e = 'e' ∨ e = 'E' := by simpa using he
      split at h <;> grind [numberMarks]
    · cases h

theorem mem_readExponent {d : Char} {cs : List Char} (h : d ∈ (readExponent cs).1) :
    d.isDigit = true ∨ d ∈ numberMarks := by
  unfold readExponent at h
  dsimp only at h
  split at h
  · cases h
  · rcases List.mem_append.mp h with h | h
    · exact .inr (mem_exponentMark h)
    · exact .inl (List.mem_takeWhile_imp h)

theorem mem_readFraction {d : Char} {cs : List Char} (h : d ∈ (readFraction cs).1) :
    d.isDigit = true ∨ d ∈ numberMarks := by
  unfold readFraction at h
  split at h
  · dsimp only at h
    split at h
    · cases h
    · rcases List.mem_cons.mp h with rfl | h
      · exact .inr List.mem_cons_self
      · exact .inl (List.mem_takeWhile_imp h)
  · cases h

theorem mem_readNumber? {d : Char} {cs text rest : List Char}
    (h : readNumber? cs = some (text, rest)) (hd : d ∈ text) :
    d.isDigit = true ∨ d ∈ numberMarks := by
  unfold readNumber? at h
  dsimp only at h
  split at h
  · cases h
  · split at h
    · cases h
    · cases h
      rcases List.mem_append.mp hd with hd | hd
      · rcases List.mem_append.mp hd with hd | hd
        · exact .inl (List.mem_takeWhile_imp hd)
        · exact mem_readFraction hd
      · exact mem_readExponent hd

/-- **No other element of code holds a terminator.** -/
theorem step_terminator (hc : isTerminator c = true) {goal : Goal} {isLineStart : Bool}
    {cs rest : List Char} {e : Element} (h : step goal isLineStart cs = .element e rest)
    (he : e.isCode = true) (hmem : c ∈ e.text) : e = .punct [c] := by
  have hclass : isWordPart c = false ∧ c.isDigit = false ∧ c ∉ numberMarks ∧
      ∀ p ∈ punctuators, c ∈ p → p = [c] := by
    rcases isTerminator_cases hc with rfl | rfl <;> decide
  obtain ⟨hword, hdigit, hmarks, hpuncts⟩ := hclass
  unfold step at h
  split at h
  · cases h
  split at h
  · cases h
  split at h
  · cases h
  split at h
  · cases h
  split at h
  · split at h <;> cases h
  split at h
  · cases h
    rw [List.mem_takeWhile_imp hmem] at hword
    cases hword
  split at h
  · split at h
    · cases h
    · rename_i hread
      cases h
      rcases mem_readNumber? hread hmem with hd | hd
      · rw [hd] at hdigit
        cases hdigit
      · exact absurd hd hmarks
  split at h
  · split at h
    · cases h
    · cases h
      cases he
  split at h
  · split at h
    · cases h
    · cases h
      cases he
  · split at h
    · cases h
    · rename_i hread
      cases h
      exact congrArg Element.punct (hpuncts _ (List.mem_of_find?_eq_some hread) hmem)

end Lexical

end EcmaPrinter
