/-
# Punctuators are read as they were written

Of the punctuators that a text starts with the longest is read. So a punctuator
in front of some text is read as it is, unless the text starts with a character
that continues it to a longer punctuator or to what opens a comment. Which
characters these are is computed from the lists of punctuators and openings
(`followers`).

Key definitions: `followers`, `clashes`.
Key theorems: `readPunct?_append`, `reads_punct`, `reads_less`, `reads_updateBehind`.
-/
import EcmaPrinter.Proofs.Lexical.Literals

namespace EcmaPrinter.Lexical

/-! ### Continued by the next character -/

/-- The characters that continue a text towards one of some longer texts. -/
def followers (longer : List (List Char)) (p : List Char) : List Char :=
  longer.filterMap fun q => if p.isPrefixOf q then q[p.length]? else none

/-- What a joined text starts with, its first part does too, or it continues the
first part with the next character. -/
theorem prefix_append_cases {p q rest : List Char} (h : q <+: p ++ rest) :
    q <+: p ∨ ∃ c t, q = p ++ c :: t ∧ rest.head? = some c := by
  rcases Nat.lt_or_ge p.length q.length with hlt | hle
  · obtain ⟨t, rfl⟩ := List.prefix_of_prefix_length_le (List.prefix_append p rest) h (by omega)
    rw [List.prefix_append_right_inj] at h
    cases t with
    | nil => simp at hlt
    | cons c t =>
      obtain ⟨s, rfl⟩ := h
      exact .inr ⟨c, t, rfl, rfl⟩
  · exact .inl (List.prefix_of_prefix_length_le h (List.prefix_append p rest) hle)

theorem isPrefixOf_append_eq_false {longer : List (List Char)} {p q rest : List Char}
    (hq : q ∈ longer) (hend : EndsBefore (followers longer p).contains rest) (hp : ¬ q <+: p) :
    q.isPrefixOf (p ++ rest) = false := by
  rw [Bool.eq_false_iff, ne_eq, List.isPrefixOf_iff_prefix]
  intro h
  rcases prefix_append_cases h with h | ⟨c, t, rfl, hc⟩
  · exact hp h
  · have hmem : c ∈ followers longer p := by
      refine List.mem_filterMap.mpr ⟨p ++ c :: t, hq, ?_⟩
      simp
    rw [EndsBefore, hc] at hend
    simp [hmem] at hend

/-- **The longest punctuator is read**: one that the next character does not
continue. -/
theorem readPunct?_append {p rest : List Char} (hp : p ∈ punctuators) (hchain : p ≠ "?.".toList)
    (hend : EndsBefore (followers punctuators p).contains rest) :
    readPunct? (p ++ rest) = some p := by
  have hsorted : punctuators.Pairwise fun a b => b.length ≤ a.length ∧ a ≠ b := by decide
  obtain ⟨before, behind, hsplit⟩ := List.append_of_mem hp
  have hpre : p.isPrefixOf (p ++ rest) = true := List.isPrefixOf_iff_prefix.mpr ⟨rest, rfl⟩
  unfold readPunct?
  rw [List.find?_eq_some_iff_append]
  refine ⟨?_, before, behind, hsplit, fun q hq => ?_⟩
  · simp only [hpre, isChain, beq_eq_false_iff_ne.mpr hchain]
    rfl
  · have hqp : p.length ≤ q.length ∧ q ≠ p := by
      rw [hsplit, List.pairwise_append] at hsorted
      exact hsorted.2.2 q hq p (by simp)
    have hmem : q ∈ punctuators := by
      rw [hsplit]
      exact List.mem_append_left _ hq
    have hnot : ¬ q <+: p := fun h => hqp.2 (h.eq_of_length_le hqp.1)
    simp [isPrefixOf_append_eq_false hmem hend hnot]

/-! ### Steps -/

/-- What opens a comment, a line of it at least. -/
def openings : List (List Char) := ["//".toList, "/*".toList, "<!--".toList, "-->".toList]

/-- The characters that must not follow a punctuator. -/
def clashes (p : List Char) : List Char := followers punctuators p ++ followers openings p

theorem EndsBefore.of_clashes {p rest : List Char} (h : EndsBefore (clashes p).contains rest) :
    EndsBefore (followers punctuators p).contains rest ∧
      EndsBefore (followers openings p).contains rest := by
  cases rest with
  | nil => exact ⟨rfl, rfl⟩
  | cons c cs =>
    simp only [endsBefore_cons, clashes, List.contains_eq_mem, List.mem_append,
      decide_eq_false_iff_not, not_or] at h ⊢
    exact h

theorem opensNothing {p rest : List Char} (hp : p ∈ punctuators)
    (h : EndsBefore (followers openings p).contains rest) (isLineStart : Bool) :
    opensLineComment isLineStart (p ++ rest) = false ∧
      "/*".toList.isPrefixOf (p ++ rest) = false := by
  have hnot : ∀ q ∈ openings, q.isPrefixOf (p ++ rest) = false := by
    intro q hq
    refine isPrefixOf_append_eq_false hq h fun hpre => ?_
    have hall : ∀ p ∈ punctuators, ∀ q ∈ openings, q.isPrefixOf p = false := by decide
    have := hall p hp q hq
    rw [List.isPrefixOf_iff_prefix.mpr hpre] at this
    cases this
  refine ⟨?_, hnot _ (by decide)⟩
  simp only [opensLineComment, hnot "//".toList (by decide), hnot "<!--".toList (by decide),
    hnot "-->".toList (by decide), Bool.and_false, Bool.or_false]

/-- What punctuators start with. -/
def isPunctStart (c : Char) : Bool :=
  !isBlank c && !isLineBreak c && !isWordStart c && c != '\x22' && c != '\x27'

theorem step_punct {goal : Goal} {isLineStart : Bool} {p rest : List Char} (hp : p ∈ punctuators)
    (hread : readPunct? (p ++ rest) = some p)
    (hopens : opensLineComment isLineStart (p ++ rest) = false)
    (hblock : "/*".toList.isPrefixOf (p ++ rest) = false)
    (hnumber : startsNumber (p ++ rest) = false) (hslash : p.head? = some '/' → goal = .operator) :
    step goal isLineStart (p ++ rest) = .element (.punct p) rest := by
  have hall : ∀ p ∈ punctuators, p.head?.any isPunctStart = true := by decide
  have hstart := hall p hp
  have hdrop : (p ++ rest).drop p.length = rest := by simp
  cases p with
  | nil => cases hstart
  | cons c cs =>
    have hc : isPunctStart c = true := hstart
    simp only [isPunctStart, Bool.and_eq_true, Bool.not_eq_true', bne_iff_ne] at hc
    obtain ⟨⟨⟨⟨hblank, hline⟩, hword⟩, hdouble⟩, hsingle⟩ := hc
    have hregex : (c == '/' && goal == .operand) = false := by
      by_cases h : c = '/'
      · rw [hslash (by rw [h]; rfl)]
        simp
      · simp [h]
    rw [List.cons_append] at hread hopens hblock hnumber hdrop ⊢
    simp only [step, hblank, hline, hopens, hblock, hword, hnumber, hregex, hread, hdrop,
      beq_eq_false_iff_ne.mpr hdouble, beq_eq_false_iff_ne.mpr hsingle, Bool.or_self,
      Bool.false_eq_true, if_false]

/-- Punctuators that a point, a number and a slash play no part in. -/
theorem reads_punct {isLineStart : Bool} {goal : Goal} {p rest : List Char}
    (hp : p ∈ punctuators) (hdot : p.head? ≠ some '.') (hchain : p ≠ "?.".toList)
    (hslash : p.head? = some '/' → goal = .operator)
    (h : EndsBefore (clashes p).contains rest) :
    Reads isLineStart goal p [.punct p] (goal.after (.punct p)) rest := by
  obtain ⟨hlong, hopen⟩ := h.of_clashes
  obtain ⟨hline, hblock⟩ := opensNothing hp hopen isLineStart
  have hall : ∀ p ∈ punctuators, p.head?.any (fun c => !c.isDigit) = true := by decide
  have hdigit := hall p hp
  have hnumber : startsNumber (p ++ rest) = false := by
    cases p with
    | nil => cases hdigit
    | cons c cs =>
      have hc : c ≠ '.' := by simpa using hdot
      simpa [startsNumber, hc] using hdigit
  have hne : p ≠ [] := by
    rintro rfl
    exact absurd hp (by decide)
  exact .of_step (step_punct hp (readPunct?_append hp hchain hlong) hline hblock hnumber hslash) hne

/-- A dot is read as one in front of anything but a dot or a digit. -/
theorem reads_dot {isLineStart : Bool} {goal : Goal} {rest : List Char}
    (hdigit : EndsBefore Char.isDigit rest) (h : EndsBefore (clashes ".".toList).contains rest) :
    Reads isLineStart goal ['.'] [.punct ".".toList] .operand rest := by
  obtain ⟨hlong, hopen⟩ := h.of_clashes
  have hp : ".".toList ∈ punctuators := by decide
  obtain ⟨hline, hblock⟩ := opensNothing hp hopen isLineStart
  have hnumber : startsNumber (".".toList ++ rest) = false := by
    cases rest with
    | nil => rfl
    | cons c cs => exact endsBefore_cons.mp hdigit
  refine .of_step (e := .punct ".".toList) ?_ (by simp)
  exact step_punct hp (readPunct?_append hp (by decide) hlong) hline hblock hnumber
    (fun h => absurd h (by decide))

/-- `<` opens a comment only in front of `!--`. -/
theorem reads_less {isLineStart : Bool} {goal : Goal} {rest : List Char}
    (hend : EndsBefore (followers punctuators "<".toList).contains rest)
    (h : "!--".toList.isPrefixOf rest = false) :
    Reads isLineStart goal "<".toList [.punct "<".toList] .operand rest := by
  have hp : "<".toList ∈ punctuators := by decide
  have hline : opensLineComment isLineStart ("<".toList ++ rest) = false := by
    simp [opensLineComment, List.isPrefixOf]
    simpa using h
  refine .of_step (e := .punct "<".toList) ?_ (by simp)
  exact step_punct hp (readPunct?_append hp (by decide) hend) hline rfl rfl
    (fun h => absurd h (by decide))

/-- Behind an operand, `++` and `--` are read as they are, whatever follows. -/
theorem reads_updateBehind (op : UpdateOp) (rest : List Char) :
    Reads false .operator op.text.toList [.punct op.text.toList] .operator rest := by
  have hp : op.text.toList ∈ punctuators := by cases op <;> decide
  have hend : EndsBefore (followers punctuators op.text.toList).contains rest := by
    cases rest with
    | nil => rfl
    | cons c cs => cases op <;> rfl
  have hchain : op.text.toList ≠ "?.".toList := by cases op <;> decide
  have hread := readPunct?_append hp hchain hend
  cases op with
  | increment =>
    exact .of_step (step_punct hp hread rfl rfl rfl (fun h => absurd h (by decide))) (by decide)
  | decrement =>
    exact .of_step (step_punct hp hread rfl rfl rfl (fun h => absurd h (by decide))) (by decide)

end EcmaPrinter.Lexical
