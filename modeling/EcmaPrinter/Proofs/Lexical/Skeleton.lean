/-
# Statements read as trees of branches

Reads text as statements the way a parser of the language would, as far as the branches
of `if` go. Heads, labels and expression statements are passed over as wholes, by a reader
that is left open (`PartReader`). Of the rest, an `else` belongs to the nearest `if` in
front of it that has none yet: after its branch, a statement takes the `else` that follows,
before anything around it can (`readStatement`).

So not every tree comes back from its text. What does not is an `if` with an `else` whose
first branch ends in an `if` without one, directly or as the last body of what the branch
ends in: the `else` moves into the branch. A tree is grouped if it has no such `if`, and
it comes back exactly if it is (`readWhole_marks`).

Key definitions: `Skeleton`, `Mark`, `readStatement`, `Skeleton.isGrouped`, `PartReader`,
`readMarks`, `Spelled`.
Key theorems: `readWhole_marks`, `Spelled.readMarks`.
-/
import EcmaPrinter.Proofs.Emit.Joints
import EcmaPrinter.Proofs.Lexical.Terminated
import Mathlib.Data.List.Find

namespace EcmaPrinter.Lexical

/-! ### Skeletons -/

/-- The words in front of a head in parentheses, besides `if`. -/
inductive LoopWord where
  | whileLoop
  | withScope
  | forLoop
  | forAwait
deriving DecidableEq

def LoopWord.opening : LoopWord → String
  | .whileLoop => "while("
  | .withScope => "with("
  | .forLoop => "for("
  | .forAwait => "for await("

/-- What stands in front of the body of a loop or label. -/
inductive Head where
  | loop (word : LoopWord) (inside : List Char)
  | label (name : List Char)

def Head.text : Head → List Char
  | .loop word inside => word.opening.toList ++ (inside ++ [')'])
  | .label name => name ++ [':']

/-- A statement as far as the branches of `if` go. What is no statement is text. -/
inductive Skeleton where
  | plain (text : List Char)
  | under (head : Head) (body : Skeleton)
  | block (body : List Skeleton)
  | cond (test : List Char) (consequent : Skeleton)
  | condElse (test : List Char) (consequent alternate : Skeleton)

/-- What a reader meets on its way through statements. -/
inductive Mark where
  | plain (text : List Char)
  | under (head : Head)
  | cond (test : List Char)
  | otherwise
  | opening
  | closing

mutual

/-- The marks of a statement from left to right. -/
def Skeleton.marks : Skeleton → List Mark
  | .plain text => [.plain text]
  | .under head body => .under head :: body.marks
  | .block body => .opening :: (marksOf body ++ [.closing])
  | .cond test consequent => .cond test :: consequent.marks
  | .condElse test consequent alternate =>
    .cond test :: (consequent.marks ++ .otherwise :: alternate.marks)

def marksOf : List Skeleton → List Mark
  | [] => []
  | s :: ss => s.marks ++ marksOf ss

end

namespace Skeleton

/-- Whether the last part of a statement is an `if` without an `else`, so that an `else`
behind the statement would be its. -/
def endsOpen : Skeleton → Bool
  | .plain _ | .block _ => false
  | .under _ body => body.endsOpen
  | .cond _ _ => true
  | .condElse _ _ alternate => alternate.endsOpen

mutual

/-- Whether no `else` stands behind a branch that would take it. -/
def isGrouped : Skeleton → Bool
  | .plain _ => true
  | .under _ body => body.isGrouped
  | .block body => areGrouped body
  | .cond _ consequent => consequent.isGrouped
  | .condElse _ consequent alternate =>
    !consequent.endsOpen && consequent.isGrouped && alternate.isGrouped

def areGrouped : List Skeleton → Bool
  | [] => true
  | s :: ss => s.isGrouped && areGrouped ss

end

end Skeleton

/-! ### Reading statements -/

mutual

/-- The statement that some marks start with, and the marks behind it. An `else` is
taken by the statement that has just read its branch. -/
def readStatement : Nat → List Mark → Option (Skeleton × List Mark)
  | 0, _ => none
  | _ + 1, .plain text :: ms => some (.plain text, ms)
  | n + 1, .under head :: ms =>
    (readStatement n ms).map fun (body, ms) => (.under head body, ms)
  | n + 1, .opening :: ms => (readBody n ms).map fun (body, ms) => (.block body, ms)
  | n + 1, .cond test :: ms =>
    match readStatement n ms with
    | none => none
    | some (consequent, .otherwise :: ms) =>
      (readStatement n ms).map fun (alternate, ms) => (.condElse test consequent alternate, ms)
    | some (consequent, ms) => some (.cond test consequent, ms)
  | _ + 1, _ => none

/-- The statements in front of a closing brace, and the marks behind it. -/
def readBody : Nat → List Mark → Option (List Skeleton × List Mark)
  | 0, _ => none
  | _ + 1, .closing :: ms => some ([], ms)
  | n + 1, ms =>
    match readStatement n ms with
    | none => none
    | some (s, ms) => (readBody n ms).map fun (ss, ms) => (s :: ss, ms)

end

/-- The statement that some marks are. -/
def readWhole (ms : List Mark) : Option Skeleton :=
  match readStatement ms.length ms with
  | some (s, []) => some s
  | _ => none

variable {rest : List Mark}

theorem readStatement_cond {n : Nat} {test : List Char} {consequent : Skeleton} {ms : List Mark}
    (h : readStatement n ms = some (consequent, rest)) (hrest : rest.head? ≠ some .otherwise) :
    readStatement (n + 1) (.cond test :: ms) = some (.cond test consequent, rest) := by
  rw [readStatement, h]
  cases rest with
  | nil => rfl
  | cons m ms => cases m <;> first | rfl | exact absurd rfl hrest

theorem readStatement_condElse {n : Nat} {test : List Char} {consequent alternate : Skeleton}
    {ms ms' : List Mark} (h : readStatement n ms = some (consequent, .otherwise :: ms'))
    (h' : readStatement n ms' = some (alternate, rest)) :
    readStatement (n + 1) (.cond test :: ms) =
      some (.condElse test consequent alternate, rest) := by
  rw [readStatement, h]
  simp only [h', Option.map_some]

/-- A statement starts with a mark that closes nothing. -/
theorem Skeleton.marks_eq_cons (k : Skeleton) : ∃ m ms, k.marks = m :: ms ∧ m ≠ .closing := by
  cases k <;> exact ⟨_, _, rfl, nofun⟩

theorem Skeleton.marks_length_pos (k : Skeleton) : 0 < k.marks.length := by
  obtain ⟨m, ms, h, -⟩ := k.marks_eq_cons
  simp [h]

theorem readBody_cons {n : Nat} {k : Skeleton} {ms ms' : List Mark} {ks : List Skeleton}
    (h : readStatement n (k.marks ++ ms) = some (k, ms))
    (h' : readBody n ms = some (ks, ms')) :
    readBody (n + 1) (k.marks ++ ms) = some (k :: ks, ms') := by
  obtain ⟨m, tail, hk, hm⟩ := k.marks_eq_cons
  rw [hk, List.cons_append] at h ⊢
  rw [readBody, h]
  · simp only [h', Option.map_some]
  · intro _ hcons
    exact hm (List.cons.inj hcons).1

mutual

/-- **A grouped statement is read from its marks**, in front of anything but an `else`
that it would take. -/
theorem readStatement_marks : ∀ (k : Skeleton) {n : Nat} {rest : List Mark},
    k.isGrouped = true → k.marks.length ≤ n →
    (k.endsOpen = true → rest.head? ≠ some .otherwise) →
    readStatement n (k.marks ++ rest) = some (k, rest)
  | k, 0, _, _, hn, _ => absurd k.marks_length_pos (by omega)
  | .plain text, n + 1, rest, _, _, _ => rfl
  | .under head body, n + 1, rest, hg, hn, hopen => by
    have hlen : body.marks.length ≤ n := Nat.le_of_succ_le_succ hn
    rw [Skeleton.marks, List.cons_append, readStatement, readStatement_marks body hg hlen hopen]
    rfl
  | .block body, n + 1, rest, hg, hn, _ => by
    have hlen : (marksOf body).length < n := by
      simp only [Skeleton.marks, List.length_cons, List.length_append] at hn
      omega
    rw [Skeleton.marks, List.cons_append, List.append_assoc, List.singleton_append,
      readStatement, readBody_marks body hg hlen]
    rfl
  | .cond test consequent, n + 1, rest, hg, hn, hopen => by
    have hlen : consequent.marks.length ≤ n := Nat.le_of_succ_le_succ hn
    have hrest := hopen rfl
    exact readStatement_cond (readStatement_marks consequent hg hlen fun _ => hrest) hrest
  | .condElse test consequent alternate, n + 1, rest, hg, hn, hopen => by
    simp only [Skeleton.isGrouped, Bool.and_eq_true, Bool.not_eq_true'] at hg
    obtain ⟨⟨hclosed, hconsequent⟩, halternate⟩ := hg
    simp only [Skeleton.marks, List.length_cons, List.length_append] at hn
    rw [Skeleton.marks, List.cons_append, List.append_assoc, List.cons_append]
    -- the branch ends in no `if` that would take the `else`
    refine readStatement_condElse (readStatement_marks consequent hconsequent (by omega) ?_)
      (readStatement_marks alternate halternate (by omega) hopen)
    rw [hclosed]
    exact nofun

theorem readBody_marks : ∀ (ks : List Skeleton) {n : Nat} {rest : List Mark},
    Skeleton.areGrouped ks = true → (marksOf ks).length < n →
    readBody n (marksOf ks ++ .closing :: rest) = some (ks, rest)
  | _, 0, _, _, hn => absurd hn (Nat.not_lt_zero _)
  | [], n + 1, rest, _, _ => rfl
  | k :: ks, n + 1, rest, hg, hn => by
    simp only [Skeleton.areGrouped, Bool.and_eq_true] at hg
    simp only [marksOf, List.length_append] at hn
    have hpos := k.marks_length_pos
    have hbehind : ∃ m ms, marksOf ks ++ .closing :: rest = m :: ms ∧ m ≠ .otherwise := by
      cases ks with
      | nil => exact ⟨_, _, rfl, nofun⟩
      | cons k' ks =>
        cases k' <;> exact ⟨_, _, rfl, nofun⟩
    obtain ⟨m, ms, hms, hm⟩ := hbehind
    rw [marksOf, List.append_assoc]
    refine readBody_cons (readStatement_marks k hg.1 (by omega) fun _ => ?_)
      (readBody_marks ks hg.2 (by omega))
    rw [hms]
    simpa using hm

end

mutual

/-- **What is read is grouped**, and in front of no `else` if it would take one. -/
theorem readStatement_grouped : ∀ (n : Nat) {ms rest : List Mark} {k : Skeleton},
    readStatement n ms = some (k, rest) →
    k.isGrouped = true ∧ (k.endsOpen = true → rest.head? ≠ some .otherwise)
  | 0, _, _, _, h => by
    rw [readStatement] at h
    cases h
  | n + 1, [], _, _, h => by
    rw [readStatement] at h
    · cases h
    all_goals nofun
  | n + 1, .plain text :: ms, _, _, h => by
    rw [readStatement] at h
    cases h
    exact ⟨rfl, nofun⟩
  | n + 1, .under head :: ms, _, _, h => by
    rw [readStatement] at h
    obtain ⟨⟨body, rest⟩, hbody, hk⟩ := Option.map_eq_some_iff.mp h
    cases hk
    have hread := readStatement_grouped n hbody
    exact ⟨hread.1, hread.2⟩
  | n + 1, .opening :: ms, _, _, h => by
    rw [readStatement] at h
    obtain ⟨⟨body, rest⟩, hbody, hk⟩ := Option.map_eq_some_iff.mp h
    cases hk
    exact ⟨readBody_grouped n hbody, nofun⟩
  | n + 1, .cond test :: ms, rest, k, h => by
    rw [readStatement] at h
    split at h
    · cases h
    · rename_i consequent ms hconsequent
      obtain ⟨⟨alternate, rest⟩, halternate, hk⟩ := Option.map_eq_some_iff.mp h
      cases hk
      have hc := readStatement_grouped n hconsequent
      have ha := readStatement_grouped n halternate
      -- the branch stands in front of the `else`, so it would not take one
      have hclosed : consequent.endsOpen = false :=
        Bool.eq_false_iff.mpr fun hopen => hc.2 hopen rfl
      exact ⟨by simp [Skeleton.isGrouped, hclosed, hc.1, ha.1], ha.2⟩
    · rename_i consequent ms hne hconsequent
      cases h
      have hc := readStatement_grouped n hconsequent
      refine ⟨hc.1, fun _ hhead => ?_⟩
      obtain ⟨ms, rfl⟩ := List.head?_eq_some_iff.mp hhead
      exact hne _ rfl
  | n + 1, .otherwise :: ms, _, _, h | n + 1, .closing :: ms, _, _, h => by
    rw [readStatement] at h
    · cases h
    all_goals nofun

theorem readBody_grouped : ∀ (n : Nat) {ms rest : List Mark} {ks : List Skeleton},
    readBody n ms = some (ks, rest) → Skeleton.areGrouped ks = true
  | 0, _, _, _, h => by
    rw [readBody] at h
    cases h
  | n + 1, ms, rest, ks, h => by
    by_cases hclosing : ∃ behind, ms = .closing :: behind
    · obtain ⟨behind, rfl⟩ := hclosing
      rw [readBody] at h
      cases h
      rfl
    · rw [readBody] at h
      · split at h
        · cases h
        · rename_i hk
          obtain ⟨⟨ks, rest⟩, hks, hcons⟩ := Option.map_eq_some_iff.mp h
          cases hcons
          rw [Skeleton.areGrouped, (readStatement_grouped n hk).1, readBody_grouped n hks]
          rfl
      · intro behind hms
        exact hclosing ⟨behind, hms⟩

end

/-- **A statement comes back from its marks exactly if it is grouped.** -/
theorem readWhole_marks (k : Skeleton) : readWhole k.marks = some k ↔ k.isGrouped = true := by
  unfold readWhole
  constructor
  · intro h
    split at h
    · rename_i hread
      cases h
      exact (readStatement_grouped _ hread).1
    · cases h
  · intro h
    have hread : readStatement k.marks.length (k.marks ++ []) = some (k, []) :=
      readStatement_marks k h (Nat.le_refl _) fun _ => nofun
    rw [List.append_nil] at hread
    rw [hread]

/-! ### Reading marks -/

/-- Readers of what is no statement: of what stands inside parentheses, and of what a
statement without a word or brace of its own starts with. Each gives the text that it
passes over and what follows it. -/
structure PartReader where
  inside : List Char → Option (List Char × List Char)
  statement : List Char → Option (List Char × List Char)

/-- What opens a head in parentheses, and the mark of such a head. -/
def openers : List (List Char × (List Char → Mark)) :=
  ("if(".toList, .cond) ::
    [LoopWord.whileLoop, .withScope, .forLoop, .forAwait].map fun word =>
      (word.opening.toList, fun inside => .under (.loop word inside))

namespace PartReader

variable (r : PartReader)

def readHead? (mark : List Char → Mark) (cs : List Char) : Option (Mark × List Char) :=
  match r.inside cs with
  | some (inside, ')' :: rest) => some (mark inside, rest)
  | _ => none

/-- The mark that some text starts with, and what follows it. -/
def readMark? (cs : List Char) : Option (Mark × List Char) :=
  match openers.find? fun opener => opener.1.isPrefixOf cs with
  | some (opening, mark) => r.readHead? mark (cs.drop opening.length)
  | none =>
    if cs.takeWhile isWordy = "else".toList then some (.otherwise, cs.drop 4)
    else
      match cs with
      | '\x7b' :: rest => some (.opening, rest)
      | '\x7d' :: rest => some (.closing, rest)
      | _ =>
        match r.statement cs with
        | some (text, ';' :: rest) => some (.plain text, rest)
        | some (name, ':' :: rest) => some (.under (.label name), rest)
        | _ => none

/-- The marks of a text, if it can be read to its end. -/
def readMarks (cs : List Char) : Option (List Mark) :=
  match cs with
  | [] => some []
  | ' ' :: rest => readMarks rest
  | c :: rest =>
    match r.readMark? (c :: rest) with
    | none => none
    | some (m, after) =>
      if after.length < (c :: rest).length then (readMarks after).map (m :: ·) else none
termination_by cs.length
decreasing_by
  · exact Nat.lt_succ_self _
  · assumption

/-- The statement that a text is. -/
def readBack (cs : List Char) : Option Skeleton := (r.readMarks cs).bind readWhole

end PartReader

/-! ### Parts -/

/-- What a reader passes over. -/
inductive Part where
  | inside (text : List Char)
  | plain (text : List Char)
  | label (name : List Char)

def Head.part : Head → Part
  | .loop _ inside => .inside inside
  | .label name => .label name

mutual

/-- What a reader passes over on its way through a statement. -/
def Skeleton.parts : Skeleton → List Part
  | .plain text => [.plain text]
  | .under head body => head.part :: body.parts
  | .block body => partsOf body
  | .cond test consequent => .inside test :: consequent.parts
  | .condElse test consequent alternate => .inside test :: (consequent.parts ++ alternate.parts)

def partsOf : List Skeleton → List Part
  | [] => []
  | k :: ks => k.parts ++ partsOf ks

end

/-- A reader passes over a part, whatever follows what closes it. -/
def PartReader.Passes (r : PartReader) : Part → Prop
  | .inside text => ∀ rest, r.inside (text ++ ')' :: rest) = some (text, ')' :: rest)
  | .plain text => ∀ rest, r.statement (text ++ ';' :: rest) = some (text, ';' :: rest)
  | .label name => ∀ rest, r.statement (name ++ ':' :: rest) = some (name, ':' :: rest)

/-- Whether a text starts with no word or brace of a statement, and no blank. -/
def startsPlain (text : List Char) : Bool :=
  (openers.find? fun opener => opener.1.isPrefixOf text).isNone
    && text.takeWhile isWordy != "else".toList
    && !text.head?.any ['\x7b', '\x7d', ' '].contains

/-- A label is read as what it is. -/
def Head.isPlain : Head → Bool
  | .loop _ _ => true
  | .label name => startsPlain name

theorem startsPlain_of {text : List Char}
    (hfind : (openers.find? fun opener => opener.1.isPrefixOf text) = none)
    (hword : text.takeWhile isWordy ≠ "else".toList)
    (hhead : text.head?.any ['\x7b', '\x7d', ' '].contains = false) : startsPlain text = true := by
  rw [startsPlain, hfind, hhead, bne_iff_ne.mpr hword]
  rfl

/-- A character that no word and no brace of a statement starts with. -/
def isPlainStart (c : Char) : Bool := !(['i', 'w', 'f', 'e', '\x7b', '\x7d', ' '].contains c)

theorem startsPlain_cons {c : Char} (h : isPlainStart c = true) (cs : List Char) :
    startsPlain (c :: cs) = true := by
  simp only [isPlainStart, List.contains_eq_mem, Bool.not_eq_true', decide_eq_false_iff_not,
    List.mem_cons, List.not_mem_nil, or_false, not_or] at h
  obtain ⟨hi, hw, hf, he, hopening, hclosing, hblank⟩ := h
  refine startsPlain_of ?_ ?_ (by simp [hopening, hclosing, hblank])
  · simp [openers, LoopWord.opening, List.isPrefixOf, Ne.symm hi, Ne.symm hw, Ne.symm hf]
  · rw [List.takeWhile_cons]
    split <;> simp [he]

/-- The words that heads and branches start with. -/
def headWords : List String := ["if", "else", "while", "with", "for"]

/-- A word that starts no statement but a label or one made of an expression. -/
def isPlainWord (word : List Char) : Bool :=
  !word.isEmpty && word.all isWordy && !(headWords.map String.toList).contains word

theorem startsPlain_word {word rest : List Char} (h : isPlainWord word = true)
    (hrest : EndsBefore isWordy rest) : startsPlain (word ++ rest) = true := by
  simp only [isPlainWord, Bool.and_eq_true, Bool.not_eq_true', List.contains_eq_mem,
    decide_eq_false_iff_not, List.all_eq_true] at h
  obtain ⟨⟨hempty, hall⟩, hfree⟩ := h
  have hword : (word ++ rest).takeWhile isWordy = word := takeWhile_append_ends hall hrest
  -- an opener in front would be the word up to its parenthesis
  have hopeners : ∀ o ∈ openers, (o.1.takeWhile isWordy).length ≠ o.1.length ∧
      o.1.takeWhile isWordy ∈ headWords.map String.toList := by
    decide
  refine startsPlain_of ?_ ?_ ?_
  · rw [List.find?_eq_none]
    intro o ho hpre
    obtain ⟨u, hu⟩ := List.isPrefixOf_iff_prefix.mp hpre
    obtain ⟨hlen, hmem⟩ := hopeners o ho
    rw [← hu, List.takeWhile_append, if_neg hlen] at hword
    exact hfree (hword ▸ hmem)
  · rw [hword]
    rintro rfl
    exact hfree (by decide)
  · cases word with
    | nil => cases hempty
    | cons c cs =>
      have hc := hall c List.mem_cons_self
      rw [List.cons_append, List.head?_cons, Option.any_some, Bool.eq_false_iff]
      intro hmem
      have hsymbols : ∀ d ∈ ['\x7b', '\x7d', ' '], isWordy d = false := by
        simp only [List.forall_mem_cons]
        exact ⟨rfl, rfl, rfl, nofun⟩
      rw [hsymbols c (List.contains_iff_mem.mp hmem)] at hc
      cases hc

namespace PartReader

variable {r : PartReader} {m : Mark} {text rest : List Char}

theorem readMarks_nil : r.readMarks [] = some [] := by rw [readMarks]

theorem readMarks_blank : r.readMarks (' ' :: rest) = r.readMarks rest := by rw [readMarks]

/-- One mark is read after the other. -/
theorem readMarks_step (text : List Char) {after : List Char}
    (h : r.readMark? (text ++ after) = some (m, after)) {c : Char}
    (hhead : text.head? = some c) (hc : c ≠ ' ') :
    r.readMarks (text ++ after) = (r.readMarks after).map (m :: ·) := by
  obtain ⟨cs, rfl⟩ := List.head?_eq_some_iff.mp hhead
  have hlen : after.length < (c :: (cs ++ after)).length := by
    rw [List.length_cons, List.length_append]
    omega
  rw [List.cons_append] at h ⊢
  rw [readMarks]
  · rw [h]
    exact if_pos hlen
  · exact hc

/-- What follows an opener is passed over up to its parenthesis. -/
theorem readMark?_opener {opener : List Char × (List Char → Mark)} (ho : opener ∈ openers)
    (hpass : r.Passes (.inside text)) (rest : List Char) :
    r.readMark? (opener.1 ++ (text ++ ')' :: rest)) = some (opener.2 text, rest) := by
  have hread : ∀ mark, r.readHead? mark (text ++ ')' :: rest) = some (mark text, rest) := by
    intro mark
    rw [readHead?, hpass]
    rfl
  have hfind : (openers.find? fun o => o.1.isPrefixOf (opener.1 ++ (text ++ ')' :: rest))) =
      some opener := by
    simp only [openers, List.map_cons, List.map_nil, List.mem_cons, List.not_mem_nil,
      or_false] at ho
    rcases ho with rfl | rfl | rfl | rfl | rfl <;> rfl
  unfold readMark?
  rw [hfind]
  simp only [List.drop_left, hread]

theorem readMark?_else (h : EndsBefore isWordy rest) :
    r.readMark? ("else".toList ++ rest) = some (.otherwise, rest) := by
  have hfind : (openers.find? fun o => o.1.isPrefixOf ("else".toList ++ rest)) = none := rfl
  have hword : ("else".toList ++ rest).takeWhile isWordy = "else".toList :=
    takeWhile_append_ends (List.all_eq_true.mp rfl) h
  unfold readMark?
  rw [hfind]
  simp only [hword, if_true]
  rfl

theorem readMark?_opening : r.readMark? ('\x7b' :: rest) = some (.opening, rest) := rfl

theorem readMark?_closing : r.readMark? ('\x7d' :: rest) = some (.closing, rest) := rfl

/-- A text that starts like none of the words and braces goes to the reader. -/
theorem readMark?_statement {c : Char} (hc : c = ';' ∨ c = ':') (hplain : startsPlain text = true)
    (hread : r.statement (text ++ c :: rest) = some (text, c :: rest)) :
    r.readMark? (text ++ c :: rest) =
      some (if c = ';' then .plain text else .under (.label text), rest) := by
  simp only [startsPlain, Bool.and_eq_true, Option.isNone_iff_eq_none, bne_iff_ne, ne_eq,
    Bool.not_eq_true'] at hplain
  obtain ⟨⟨hfind, hword⟩, hhead⟩ := hplain
  have hclass : isWordy c = false ∧ ∀ o ∈ openers, c ∉ o.1 := by
    rcases hc with rfl | rfl <;> decide
  have hfind' : (openers.find? fun o => o.1.isPrefixOf (text ++ c :: rest)) = none := by
    rw [← hfind]
    exact List.find?_congr fun o ho => isPrefixOf_before rest (hclass.2 o ho)
  have hbrace : ∀ d ds, text ++ c :: rest = d :: ds → d ≠ '\x7b' ∧ d ≠ '\x7d' := by
    intro d ds hcons
    cases text with
    | nil =>
      cases hcons
      rcases hc with rfl | rfl <;> decide
    | cons d ds =>
      cases hcons
      simp only [List.head?_cons, Option.any_some] at hhead
      constructor <;>
        · rintro rfl
          cases hhead
  unfold readMark?
  rw [hfind', takeWhile_before hclass.1]
  simp only [hword, if_false]
  split
  · rename_i hcons
    exact absurd rfl (hbrace _ _ hcons).1
  · rename_i hcons
    exact absurd rfl (hbrace _ _ hcons).2
  · rw [hread]
    rcases hc with rfl | rfl <;> rfl

/-- A text that starts like no statement does not start with a blank, not even where it
is empty. -/
theorem head?_of_startsPlain {c : Char} (hc : c = ';' ∨ c = ':') (hplain : startsPlain text = true) :
    ∃ d, (text ++ [c]).head? = some d ∧ d ≠ ' ' := by
  simp only [startsPlain, Bool.and_eq_true, Bool.not_eq_true'] at hplain
  cases text with
  | nil => exact ⟨c, rfl, by rcases hc with rfl | rfl <;> decide⟩
  | cons d ds => exact ⟨d, rfl, by rintro rfl; simp at hplain⟩

theorem readMarks_opening (rest : List Char) :
    r.readMarks ('\x7b' :: rest) = (r.readMarks rest).map (.opening :: ·) :=
  readMarks_step ['\x7b'] readMark?_opening rfl (by decide)

theorem readMarks_closing (rest : List Char) :
    r.readMarks ('\x7d' :: rest) = (r.readMarks rest).map (.closing :: ·) :=
  readMarks_step ['\x7d'] readMark?_closing rfl (by decide)

/-- An `else` is read where a blank or the next statement ends the word. -/
theorem readMarks_else {blank : List Char}
    (hblank : blank = [' '] ∨ blank = [] ∧ ∃ c, text.head? = some c ∧ isWordy c = false)
    (rest : List Char) :
    r.readMarks ("else".toList ++ (blank ++ (text ++ rest))) =
      (r.readMarks (text ++ rest)).map (.otherwise :: ·) := by
  have hends : EndsBefore isWordy (blank ++ (text ++ rest)) := by
    rcases hblank with rfl | ⟨rfl, c, hc, hwordy⟩
    · exact endsBefore_cons.mpr (by decide)
    · obtain ⟨cs, rfl⟩ := List.head?_eq_some_iff.mp hc
      exact endsBefore_cons.mpr hwordy
  have hgap : r.readMarks (blank ++ (text ++ rest)) = r.readMarks (text ++ rest) := by
    rcases hblank with rfl | ⟨rfl, -⟩
    · exact readMarks_blank
    · rfl
  rw [readMarks_step _ (readMark?_else hends) rfl (by decide), hgap]

end PartReader

/-! ### Spellings -/

mutual

/-- The texts that a compact printer writes for a statement: no blanks but the one behind
`else`, which must be there where the next statement would continue the word, and nothing
that starts like another statement. -/
inductive Spelled : Skeleton → List Char → Prop
  | plain {text : List Char} (hplain : startsPlain text = true) :
      Spelled (.plain text) (text ++ [';'])
  | under {head : Head} (hhead : head.isPlain = true) {body : Skeleton} {text : List Char}
      (h : Spelled body text) : Spelled (.under head body) (head.text ++ text)
  | block {body : List Skeleton} {text : List Char} (h : SpelledAll body text) :
      Spelled (.block body) ('\x7b' :: (text ++ ['\x7d']))
  | cond (test : List Char) {consequent : Skeleton} {text : List Char}
      (h : Spelled consequent text) :
      Spelled (.cond test consequent) ("if(".toList ++ (test ++ ')' :: text))
  | condElse (test : List Char) {consequent alternate : Skeleton} {text text' : List Char}
      {blank : List Char} (h : Spelled consequent text) (h' : Spelled alternate text')
      (hblank : blank = [' '] ∨ blank = [] ∧ ∃ c, text'.head? = some c ∧ isWordy c = false) :
      Spelled (.condElse test consequent alternate)
        ("if(".toList ++ (test ++ ')' :: (text ++ ("else".toList ++ (blank ++ text')))))

inductive SpelledAll : List Skeleton → List Char → Prop
  | nil : SpelledAll [] []
  | cons {k : Skeleton} {ks : List Skeleton} {text text' : List Char} (h : Spelled k text)
      (h' : SpelledAll ks text') : SpelledAll (k :: ks) (text ++ text')

end

variable {r : PartReader}

theorem if_mem_openers : ("if(".toList, Mark.cond) ∈ openers := List.mem_cons_self

theorem mem_openers (word : LoopWord) :
    (word.opening.toList, fun inside => Mark.under (.loop word inside)) ∈ openers := by
  cases word <;> simp [openers]

/-- A head in parentheses is one mark. -/
theorem readMarks_opener {opener : List Char × (List Char → Mark)} (ho : opener ∈ openers)
    {inside : List Char} (h : r.Passes (.inside inside)) (rest : List Char) :
    r.readMarks (opener.1 ++ (inside ++ ')' :: rest)) =
      (r.readMarks rest).map (opener.2 inside :: ·) := by
  have hhead : ∀ o ∈ openers, o.1.headD ' ' ≠ ' ' := by decide
  have hne := hhead opener ho
  have hread : r.readMark? ((opener.1 ++ (inside ++ [')'])) ++ rest) =
      some (opener.2 inside, rest) := by
    simpa using PartReader.readMark?_opener ho h rest
  obtain ⟨c, cs, hcons⟩ : ∃ c cs, opener.1 = c :: cs := by
    cases hopening : opener.1 with
    | nil => exact absurd (by rw [hopening]; rfl) hne
    | cons c cs => exact ⟨c, cs, rfl⟩
  have hstep := PartReader.readMarks_step _ hread (c := c) (by rw [hcons]; rfl)
    (by simpa [hcons] using hne)
  simpa using hstep

/-- A head is one mark. -/
theorem Head.readMarks {head : Head} (hhead : head.isPlain = true) (h : r.Passes head.part)
    (rest : List Char) :
    r.readMarks (head.text ++ rest) = (r.readMarks rest).map (.under head :: ·) := by
  cases head with
  | loop word inside =>
    rw [Head.text, List.append_assoc, List.append_assoc, List.singleton_append]
    exact readMarks_opener (mem_openers word) h rest
  | label name =>
    obtain ⟨c, hc, hne⟩ := PartReader.head?_of_startsPlain (.inr rfl) hhead
    refine PartReader.readMarks_step _ ?_ hc hne
    rw [Head.text, List.append_assoc]
    exact PartReader.readMark?_statement (.inr rfl) hhead (h rest)

mutual

/-- **The text of a statement is read as its marks**, whatever follows. -/
theorem Spelled.readMarks : ∀ {k : Skeleton} {text : List Char}, Spelled k text →
    (∀ part ∈ k.parts, r.Passes part) → ∀ rest,
    r.readMarks (text ++ rest) = (r.readMarks rest).map (k.marks ++ ·)
  | _, _, @Spelled.plain text hplain, hpass, rest => by
    have hread := hpass (.plain text) List.mem_cons_self
    obtain ⟨c, hc, hne⟩ := PartReader.head?_of_startsPlain (.inl rfl) hplain
    refine PartReader.readMarks_step _ ?_ hc hne
    rw [List.append_assoc]
    exact PartReader.readMark?_statement (.inl rfl) hplain (hread rest)
  | _, _, .under hhead h, hpass, rest => by
    obtain ⟨hpart, hbody⟩ := List.forall_mem_cons.mp hpass
    rw [List.append_assoc, Head.readMarks hhead hpart, h.readMarks hbody, Option.map_map]
    rfl
  | _, _, .block h, hpass, rest => by
    rw [List.cons_append, List.append_assoc, List.singleton_append, PartReader.readMarks_opening,
      h.readMarks hpass, PartReader.readMarks_closing, Option.map_map, Option.map_map]
    simp [Skeleton.marks, Function.comp_def]
  | _, _, .cond test h, hpass, rest => by
    obtain ⟨htest, hbody⟩ := List.forall_mem_cons.mp hpass
    rw [List.append_assoc, List.append_assoc, List.cons_append,
      readMarks_opener if_mem_openers htest, h.readMarks hbody, Option.map_map]
    rfl
  | _, _, .condElse test h h' hblank, hpass, rest => by
    obtain ⟨htest, hbranches⟩ := List.forall_mem_cons.mp hpass
    obtain ⟨hconsequent, halternate⟩ := List.forall_mem_append.mp hbranches
    rw [List.append_assoc, List.append_assoc, List.cons_append,
      readMarks_opener if_mem_openers htest, List.append_assoc, h.readMarks hconsequent,
      List.append_assoc, List.append_assoc, PartReader.readMarks_else hblank,
      h'.readMarks halternate, Option.map_map, Option.map_map, Option.map_map]
    simp [Skeleton.marks, Function.comp_def]

theorem SpelledAll.readMarks : ∀ {ks : List Skeleton} {text : List Char}, SpelledAll ks text →
    (∀ part ∈ partsOf ks, r.Passes part) → ∀ rest,
    r.readMarks (text ++ rest) = (r.readMarks rest).map (marksOf ks ++ ·)
  | _, _, .nil, _, rest => by simp [marksOf]
  | _, _, .cons h h', hpass, rest => by
    obtain ⟨hk, hks⟩ := List.forall_mem_append.mp hpass
    rw [List.append_assoc, h.readMarks hk, h'.readMarks hks, Option.map_map]
    simp [marksOf, Function.comp_def]

end

/-- **A statement comes back from its text exactly if it is grouped.** -/
theorem Spelled.readBack {k : Skeleton} {text : List Char} (h : Spelled k text)
    (hpass : ∀ part ∈ k.parts, r.Passes part) :
    r.readBack text = some k ↔ k.isGrouped = true := by
  have hmarks := h.readMarks hpass []
  rw [List.append_nil, PartReader.readMarks_nil] at hmarks
  rw [← readWhole_marks, PartReader.readBack, hmarks]
  simp

end EcmaPrinter.Lexical
