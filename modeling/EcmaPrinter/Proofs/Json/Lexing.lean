/-
# The lexemes of written values

The text of a value is cut into the lexemes it was put together from. Punctuation and
strings are lexemes as soon as they end; a number or a word ends at the punctuation
behind it, or at the end of the text. So a text is cut cleanly if the lexer is between
lexemes behind it (`Cuts`), and a value is cut up to a lexeme that is still open
(`Lexes`). What is cut cleanly may be followed by anything.

That a number is read back is shown here for integers. For doubles it is a property of
the number (`isReread`): they are read in steps, each of which rounds.

Key definitions: `lexemesOf`, `Cuts`, `Lexes`, `isReread`.
Key theorems: `cuts_quoted`, `number_int`, `lexes_chars`, `lexemes_chars`.
-/
import EcmaPrinter.Json.Lexeme
import EcmaPrinter.Json.Text
import EcmaPrinter.Proofs.Json.Canonical
import EcmaPrinter.Proofs.Lexical.Numerals
import Mathlib.Data.List.Forall2
import Mathlib.Data.List.TakeWhile

namespace EcmaPrinter.Json

/-! ### Lexemes of a value -/

/-- Lexemes with commas between them. -/
def joined : List (List Lexeme) → List Lexeme
  | [] => []
  | [ls] => ls
  | ls :: rest => ls ++ .comma :: joined rest

mutual
/-- The lexemes that a value is written with. -/
def lexemesOf : Json → List Lexeme
  | .str s => [.str (some s)]
  | .arr items => .openBracket :: joined (itemLexemes items) ++ [.closeBracket]
  | .obj members => .openBrace :: joined (memberLexemes members) ++ [.closeBrace]
  | scalar => [.scalar scalar]

def itemLexemes : List Json → List (List Lexeme)
  | [] => []
  | item :: rest => item.lexemesOf :: itemLexemes rest

def memberLexemes : List (String × Json) → List (List Lexeme)
  | [] => []
  | (key, value) :: rest => (.str (some key) :: .colon :: value.lexemesOf) :: memberLexemes rest
end

/-! ### Cutting texts in parts -/

namespace Lexer

/-- The lexer has found these lexemes, the last one perhaps still open. -/
inductive HasFound (found : List Lexeme) : Lexer → Prop where
  | between : HasFound found ⟨.between, found⟩
  | bare {read : List Char} {value : Json} {rest : List Lexeme}
      (hvalue : Json.bare read.reverse = some value) (hfound : found = .scalar value :: rest) :
      HasFound found ⟨.bare read, rest⟩

/-- The lexeme of a punctuation mark. -/
def punct? : Char → Option Lexeme
  | '\x7b' => some .openBrace
  | '\x7d' => some .closeBrace
  | '[' => some .openBracket
  | ']' => some .closeBracket
  | ':' => some .colon
  | ',' => some .comma
  | _ => none

theorem between_punct {c : Char} {p : Lexeme} (h : punct? c = some p) (found : List Lexeme) :
    between found c = some ⟨.between, p :: found⟩ ∧ isBareChar c = false := by
  unfold punct? at h
  split at h <;> first | exact ⟨by cases h; rfl, by decide⟩ | cases h

theorem step_punct {l : Lexer} {found : List Lexeme} {c : Char} {p : Lexeme}
    (hl : l.HasFound found) (h : punct? c = some p) :
    l.step c = some ⟨.between, p :: found⟩ := by
  obtain ⟨hbetween, hbare⟩ := between_punct h found
  cases hl with
  | between => exact hbetween
  | bare hvalue hfound =>
    subst hfound
    simp only [step, hbare, Bool.false_eq_true, if_false, hvalue]
    exact hbetween

theorem finish_of_hasFound {l : Lexer} {found : List Lexeme} (hl : l.HasFound found) :
    l.finish = some found.reverse := by
  cases hl with
  | between => rfl
  | bare hvalue hfound =>
    subst hfound
    simp only [finish, hvalue]
    rfl

end Lexer

open Lexer

/-- Behind the text the lexer has found these lexemes, the last one perhaps still
open. -/
def Lexes (cs : List Char) (ls : List Lexeme) : Prop :=
  ∀ found, ∃ l, cs.foldlM step ⟨.between, found⟩ = some l ∧ l.HasFound (ls.reverse ++ found)

/-- Behind the text the lexer is between lexemes and has found these. -/
def Cuts (cs : List Char) (ls : List Lexeme) : Prop :=
  ∀ found, cs.foldlM step ⟨.between, found⟩ = some ⟨.between, ls.reverse ++ found⟩

section Parts

variable {cs ds : List Char} {ls ms : List Lexeme}

theorem Cuts.nil : Cuts [] [] := fun _ => rfl

theorem Cuts.lexes (h : Cuts cs ls) : Lexes cs ls := fun found => ⟨_, h found, .between⟩

theorem Cuts.append_lexes (h : Cuts cs ls) (h' : Lexes ds ms) : Lexes (cs ++ ds) (ls ++ ms) := by
  intro found
  rw [List.foldlM_append, h found, List.reverse_append, List.append_assoc]
  exact h' _

/-- Punctuation ends a lexeme that is still open. -/
theorem Lexes.punct (h : Lexes cs ls) {c : Char} {p : Lexeme} (hp : punct? c = some p) :
    Cuts (cs ++ [c]) (ls ++ [p]) := by
  intro found
  obtain ⟨l, hl, hfound⟩ := h found
  rw [List.foldlM_append, hl, List.reverse_append]
  change [c].foldlM step l = _
  rw [List.foldlM_cons, step_punct hfound hp]
  rfl

/-- A punctuation mark by itself. -/
theorem cuts_punct {c : Char} {p : Lexeme} (hp : punct? c = some p) : Cuts [c] [p] :=
  Cuts.nil.lexes.punct hp

/-- Texts with commas between them. -/
theorem lexes_separated : ∀ {texts : List (List Char)} {lss : List (List Lexeme)},
    List.Forall₂ Lexes texts lss → Lexes (separated texts) (joined lss)
  | _, _, .nil => Cuts.nil.lexes
  | _, _, .cons h .nil => h
  | text :: _ :: _, ls :: _ :: _, .cons h (.cons h' hrest) => by
    have hfirst := h.punct (c := ',') rfl
    have htail := lexes_separated (.cons h' hrest)
    simpa [separated, joined] using hfirst.append_lexes htail

/-- Something between brackets. -/
theorem Lexes.between {c d : Char} {p q : Lexeme} (h : Lexes cs ls) (hp : punct? c = some p)
    (hq : punct? d = some q) : Cuts (c :: cs ++ [d]) (p :: ls ++ [q]) :=
  ((cuts_punct hp).append_lexes h).punct hq

end Parts

/-! ### Strings -/

section Strings

variable {read : List Nat} {found : List Lexeme}

theorem hexValue_hexDigit : ∀ n : Fin 16, hexValue (Text.hexDigit n) = some n.val := by
  decide

/-- Four hexadecimal digits are read as the number they write. -/
theorem foldlM_hex4 {n : Nat} (h : n < 65536) :
    (Text.hex4 n).foldlM step ⟨.unicode read 0 0, found⟩ = some ⟨.string (n :: read), found⟩ := by
  have hdigit (k : Nat) : hexValue (Text.hexDigit (k % 16)) = some (k % 16) :=
    hexValue_hexDigit ⟨k % 16, Nat.mod_lt _ (by decide)⟩
  have hvalue : 16 * (16 * (16 * (n / 4096 % 16) + n / 256 % 16) + n / 16 % 16) + n % 16 = n := by
    omega
  simp [Text.hex4, step, hdigit, hvalue]

/-- An escaped character is read as the character. -/
theorem foldlM_escaped (c : Char) :
    (escaped c).foldlM step ⟨.string read, found⟩ = some ⟨.string (c.toNat :: read), found⟩ := by
  unfold escaped
  repeat' split
  all_goals try (rename_i h; subst h; rfl)
  · rename_i hcontrol
    rw [List.foldlM_cons]
    change ('u' :: Text.hex4 c.toNat).foldlM step ⟨.escape read, found⟩ = _
    rw [List.foldlM_cons]
    exact foldlM_hex4 (by omega)
  · rename_i hquote hslash _ _ _ _ _ hcontrol
    rw [List.foldlM_cons, step]
    simp [hquote, hslash, hcontrol]

theorem foldlM_flatMap_escaped : ∀ (cs : List Char) (read : List Nat),
    (cs.flatMap escaped).foldlM step ⟨.string read, found⟩ =
      some ⟨.string (cs.reverse.map Char.toNat ++ read), found⟩
  | [], _ => rfl
  | c :: cs, read => by
    rw [List.flatMap_cons, List.foldlM_append, foldlM_escaped]
    change (cs.flatMap escaped).foldlM step _ = _
    rw [foldlM_flatMap_escaped cs]
    simp

/-- A character is no half of a surrogate pair. -/
theorem isHalf_toNat (c : Char) : isHighHalf c.toNat = false ∧ isLowHalf c.toNat = false := by
  have hvalid := c.valid
  have hval : c.toNat = c.val.toNat := rfl
  unfold isHighHalf isLowHalf
  simp only [UInt32.isValidChar, Nat.isValidChar] at hvalid
  simp only [Bool.and_eq_false_iff, decide_eq_false_iff_not]
  omega

theorem joinHalves_toNat : ∀ cs found : List Char,
    joinHalves found (cs.map Char.toNat) = some (cs.reverse ++ found)
  | [], _ => rfl
  | [c], found => by
    obtain ⟨hhigh, hlow⟩ := isHalf_toNat c
    simp [joinHalves, hhigh, hlow, Char.ofNat_toNat]
  | c :: d :: cs, found => by
    obtain ⟨hhigh, hlow⟩ := isHalf_toNat c
    have ih := joinHalves_toNat (d :: cs) (c :: found)
    simp only [List.map_cons] at ih ⊢
    simp [joinHalves, hhigh, hlow, Char.ofNat_toNat, ih]

/-- **A string in quotes is cut as the string.** -/
theorem cuts_quoted (s : String) : Cuts (quoted s) [.str (some s)] := by
  intro found
  rw [quoted, List.cons_append, List.foldlM_cons]
  change ((s.toList.flatMap escaped) ++ ['\x22']).foldlM step ⟨.string [], found⟩ = _
  rw [List.foldlM_append, foldlM_flatMap_escaped]
  change some (⟨.between, .str ((joinHalves [] (s.toList.reverse.map Char.toNat ++ [])).map
    String.ofList) :: found⟩ : Lexer) = _
  rw [List.append_nil, joinHalves_toNat]
  simp

end Strings

/-! ### Numbers and words -/

theorem between_bareChar {c : Char} (h : isBareChar c = true) (found : List Lexeme) :
    Lexer.between found c = some ⟨.bare [c], found⟩ := by
  unfold Lexer.between
  have hne (d : Char) (hd : isBareChar d = false) : c ≠ d := by
    rintro rfl
    rw [h] at hd
    cases hd
  simp [hne ' ' rfl, hne '\t' rfl, hne '\n' rfl, hne '\r' rfl, hne '\x7b' rfl, hne '\x7d' rfl,
    hne '[' rfl, hne ']' rfl, hne ':' rfl, hne ',' rfl, hne '\x22' rfl, h]

theorem foldlM_bare {found : List Lexeme} : ∀ {cs : List Char} {read : List Char},
    (∀ c ∈ cs, isBareChar c = true) →
    cs.foldlM step ⟨.bare read, found⟩ = some ⟨.bare (cs.reverse ++ read), found⟩
  | [], _, _ => rfl
  | c :: cs, read, h => by
    obtain ⟨hc, hcs⟩ := List.forall_mem_cons.mp h
    have hstep : step ⟨.bare read, found⟩ c = some ⟨.bare (c :: read), found⟩ := if_pos hc
    rw [List.foldlM_cons, hstep]
    change cs.foldlM step _ = _
    rw [foldlM_bare hcs]
    simp

/-- A number or a word is cut as its value. -/
theorem lexes_bare {cs : List Char} {value : Json} (hne : cs ≠ [])
    (h : ∀ c ∈ cs, isBareChar c = true) (hvalue : Json.bare cs = some value) :
    Lexes cs [.scalar value] := by
  intro found
  cases cs with
  | nil => exact absurd rfl hne
  | cons c cs =>
    obtain ⟨hc, hcs⟩ := List.forall_mem_cons.mp h
    have hstep : step ⟨.between, found⟩ c = some ⟨.bare [c], found⟩ := between_bareChar hc found
    rw [List.foldlM_cons, hstep]
    refine ⟨_, foldlM_bare hcs, .bare ?_ rfl⟩
    simpa using hvalue

/-- What is read as a number is no word. -/
theorem bare_of_number {cs : List Char} {value : Json} (h : number cs = some value) :
    Json.bare cs = some value := by
  have hne (word : List Char) (hword : number word = none) : cs ≠ word := by
    rintro rfl
    rw [h] at hword
    cases hword
  rw [Json.bare, if_neg (hne _ rfl), if_neg (hne _ rfl), if_neg (hne _ rfl), h]

theorem takeDigits_append {c : Char} : ∀ {ds : List Char} {n m : Nat}, takeDigits n ds = (m, 0) →
    takeDigits n (ds ++ [c]) = takeDigits m [c]
  | [], _, _, h => by
    cases h
    rfl
  | d :: ds, n, m, h => by
    rw [List.cons_append]
    rw [takeDigits] at h ⊢
    split at h
    · rename_i hlt
      rw [if_pos hlt]
      exact takeDigits_append h
    · cases h

/-- All digits of a number of 64 bits are taken. -/
theorem takeDigits_toDigits (n : Nat) (h : n < 2 ^ 64) :
    takeDigits 0 (Nat.toDigits 10 n) = (n, 0) := by
  have hdigit : ∀ k : Fin 10, k.val.digitChar.toNat - 48 = k.val := by decide
  induction n using Nat.strongRecOn with
  | _ n ih =>
    rw [Nat.toDigits_eq_if (by decide)]
    split
    · rename_i hlt
      simp only [takeDigits, hdigit ⟨n, hlt⟩, Nat.mul_zero, Nat.zero_add, if_pos h]
    · have hlead := ih (n / 10) (by omega) (by omega)
      have hlast := hdigit ⟨n % 10, Nat.mod_lt _ (by decide)⟩
      rw [takeDigits_append hlead, takeDigits]
      dsimp only at hlast ⊢
      rw [hlast, show 10 * (n / 10) + n % 10 = n by omega, if_pos h]
      rfl

/-- The digits of a natural are read as it. -/
theorem unsignedNumber_toDigits (negative : Bool) {n : Nat} (h : n < 2 ^ 64) :
    unsignedNumber negative (Nat.toDigits 10 n) = some (wholeNumber negative n 0) := by
  have hdigits := isDigits_toDigits n
  have htake : (Nat.toDigits 10 n).takeWhile Char.isDigit = Nat.toDigits 10 n :=
    List.takeWhile_eq_self_iff.mpr hdigits.2
  have hdrop : (Nat.toDigits 10 n).dropWhile Char.isDigit = [] :=
    List.dropWhile_eq_nil_iff.mpr hdigits.2
  have hzero : ¬ ((Nat.toDigits 10 n).isEmpty = true ∨
      ((Nat.toDigits 10 n).head? = some '0' ∧ 1 < (Nat.toDigits 10 n).length)) := by
    rintro (hempty | ⟨hhead, hlength⟩)
    · exact hdigits.1 (List.isEmpty_iff.mp hempty)
    · rcases Nat.eq_zero_or_pos n with rfl | hpos
      · exact absurd hlength (by decide)
      · exact head_toDigits n hpos hhead
  rw [unsignedNumber]
  dsimp only
  rw [htake, hdrop, if_neg hzero, takeDigits_toDigits n h]
  rfl

/-- The text of an integer: a sign and digits. -/
theorem toList_toString_int (n : Int) :
    (toString n).toList =
      if 0 ≤ n then Nat.toDigits 10 n.toNat else '-' :: Nat.toDigits 10 (-n).toNat := by
  rw [Int.toString_eq_repr, Int.repr_eq_if]
  split
  · rename_i h
    rw [Nat.toList_repr]
  · rw [String.toList_append, Nat.toList_repr]
    rfl

/-- **The text of an integer of 64 bits is read as it.** -/
theorem number_int {n : Int} (h : isFitting (.int n) = true) :
    number (toString n).toList = some (.int n) := by
  simp only [isFitting, Bool.and_eq_true, decide_eq_true_eq] at h
  rw [toList_toString_int]
  split
  · rename_i hn
    obtain ⟨k, rfl⟩ := Int.eq_ofNat_of_zero_le hn
    have hread := unsignedNumber_toDigits false (n := k) (by omega)
    have hminus : number (Nat.toDigits 10 k) = unsignedNumber false (Nat.toDigits 10 k) := by
      have hdigits := (isDigits_toDigits k).2
      cases hds : Nat.toDigits 10 k with
      | nil => rfl
      | cons c cs =>
        rw [hds] at hdigits
        have hc : c ≠ '-' := by
          rintro rfl
          exact absurd (hdigits '-' List.mem_cons_self) (by decide)
        simp [number, hc]
    rw [Int.toNat_natCast, hminus, hread]
    rfl
  · rename_i hn
    obtain ⟨k, hk⟩ : ∃ k : Nat, n = -(k : Int) := ⟨(-n).toNat, by omega⟩
    have hread := unsignedNumber_toDigits true (n := k) (by omega)
    rw [show (-n).toNat = k by omega, number, hread, wholeNumber, if_neg (by omega), if_pos rfl,
      if_pos (by omega), hk]

theorem isBareChar_of_isDigit {c : Char} (h : c.isDigit = true) : isBareChar c = true := by
  simp [isBareChar, Char.isAlphanum, h]

theorem isBareChar_toString_int (n : Int) : ∀ c ∈ (toString n).toList, isBareChar c = true := by
  have hdigits (k : Nat) : ∀ c ∈ Nat.toDigits 10 k, isBareChar c = true :=
    fun c hc => isBareChar_of_isDigit ((isDigits_toDigits k).2 c hc)
  rw [toList_toString_int]
  split
  · exact hdigits _
  · exact List.forall_mem_cons.mpr ⟨rfl, hdigits _⟩

/-! ### Doubles -/

/-- A double whose text is read as it. -/
def isReread : Json → Bool
  | .float x =>
    match number (numberFormat.text x) with
    | some (.float y) => x == y
    | _ => false
  | _ => true

theorem number_float {x : Binary64} (h : isReread (.float x) = true) :
    number (numberFormat.text x) = some (.float x) := by
  dsimp only [isReread] at h
  split at h
  · rename_i y hy
    rw [hy, beq_iff_eq.mp h]
  · cases h

theorem isBareChar_positional (d : Decimal) (wholePoint : Bool) :
    ∀ c ∈ d.positional wholePoint, isBareChar c = true := by
  have hdigits : ∀ c ∈ d.digits, isBareChar c = true :=
    fun c hc => isBareChar_of_isDigit (d.isDigits_digits.2 c hc)
  have hzeros (n : Nat) : ∀ c ∈ List.replicate n '0', isBareChar c = true := by
    intro c hc
    rw [List.eq_of_mem_replicate hc]
    rfl
  unfold Decimal.positional
  dsimp only
  split
  · refine List.forall_mem_append.mpr ⟨List.forall_mem_append.mpr ⟨hdigits, hzeros _⟩, ?_⟩
    split <;> exact List.all_eq_true.mp rfl
  · split
    · refine List.forall_mem_append.mpr ⟨fun c hc => hdigits c (List.mem_of_mem_take hc), ?_⟩
      exact List.forall_mem_cons.mpr ⟨rfl, fun c hc => hdigits c (List.mem_of_mem_drop hc)⟩
    · refine List.forall_mem_cons.mpr ⟨rfl, List.forall_mem_cons.mpr ⟨rfl, ?_⟩⟩
      exact List.forall_mem_append.mpr ⟨hzeros _, hdigits⟩

theorem isBareChar_scientific (d : Decimal) : ∀ c ∈ d.scientific, isBareChar c = true := by
  have hdigits : ∀ c ∈ d.digits, isBareChar c = true :=
    fun c hc => isBareChar_of_isDigit (d.isDigits_digits.2 c hc)
  unfold Decimal.scientific
  dsimp only
  refine List.forall_mem_append.mpr ⟨?_, List.forall_mem_cons.mpr
    ⟨rfl, isBareChar_toString_int _⟩⟩
  split
  · exact List.forall_mem_nil _
  · rename_i hds
    rwa [hds] at hdigits
  · rename_i hds
    rw [hds] at hdigits
    obtain ⟨hlead, hrest⟩ := List.forall_mem_cons.mp hdigits
    exact List.forall_mem_cons.mpr ⟨hlead, List.forall_mem_cons.mpr ⟨rfl, hrest⟩⟩

theorem isBareChar_text (f : NumeralFormat) (x : Binary64) :
    ∀ c ∈ f.text x, isBareChar c = true := by
  have hmagnitude : ∀ c ∈ f.magnitudeText x, isBareChar c = true := by
    rw [NumeralFormat.magnitudeText]
    generalize (if x.significand = 0 then _ else _) = d
    unfold NumeralFormat.decimalText
    split
    · exact isBareChar_positional d _
    · exact isBareChar_scientific d
  unfold NumeralFormat.text
  split
  · exact List.forall_mem_cons.mpr ⟨rfl, hmagnitude⟩
  · exact hmagnitude

/-- What is read as a number is not empty. -/
theorem ne_nil_of_number {cs : List Char} {value : Json} (h : number cs = some value) :
    cs ≠ [] := by
  rintro rfl
  cases h

theorem lexes_number {cs : List Char} {value : Json} (hbare : ∀ c ∈ cs, isBareChar c = true)
    (h : number cs = some value) : Lexes cs [.scalar value] :=
  lexes_bare (ne_nil_of_number h) hbare (bare_of_number h)

/-! ### Values -/

mutual
/-- **The text of a value is cut into its lexemes.** -/
theorem lexes_chars : ∀ {json : Json}, json.isSound = true → json.everyScalar isReread = true →
    Lexes json.chars json.lexemesOf
  | .null, _, _ => lexes_bare (by decide) (List.all_eq_true.mp rfl) rfl
  | .bool true, _, _ => lexes_bare (by decide) (List.all_eq_true.mp rfl) rfl
  | .bool false, _, _ => lexes_bare (by decide) (List.all_eq_true.mp rfl) rfl
  | .int n, h, _ =>
    lexes_number (isBareChar_toString_int n) (number_int (Bool.and_eq_true_iff.mp h).1)
  | .float x, _, h => lexes_number (isBareChar_text _ x) (number_float h)
  | .str s, _, _ => (cuts_quoted s).lexes
  | .arr items, h, h' => ((lexes_separated (lexes_items h h')).between rfl rfl).lexes
  | .obj members, h, h' => ((lexes_separated (lexes_members h h')).between rfl rfl).lexes
  | .unreadable, h, _ => by cases h

theorem lexes_items : ∀ {items : List Json}, (Json.arr items).isSound = true →
    everyItem isReread items = true → List.Forall₂ Lexes (itemChars items) (itemLexemes items)
  | [], _, _ => .nil
  | item :: items, h, h' => by
    obtain ⟨hitem, hitems⟩ := Bool.and_eq_true_iff.mp h
    obtain ⟨hitem', hitems'⟩ := Bool.and_eq_true_iff.mp h'
    exact .cons (lexes_chars hitem hitem') (lexes_items hitems hitems')

theorem lexes_members : ∀ {members : List (String × Json)}, membersSound members = true →
    everyMember isReread members = true →
    List.Forall₂ Lexes (memberChars members) (memberLexemes members)
  | [], _, _ => .nil
  | (key, value) :: members, h, h' => by
    obtain ⟨hvalue, hmembers⟩ := Bool.and_eq_true_iff.mp h
    obtain ⟨hvalue', hmembers'⟩ := Bool.and_eq_true_iff.mp h'
    have hkey := (cuts_quoted key).lexes.punct (c := ':') rfl
    have hmember := hkey.append_lexes (lexes_chars hvalue hvalue')
    rw [List.append_assoc, List.append_assoc] at hmember
    exact .cons hmember (lexes_members hmembers hmembers')
end

theorem lexemes_chars {json : Json} (h : json.isSound = true)
    (h' : json.everyScalar isReread = true) : lexemes json.chars = some json.lexemesOf := by
  obtain ⟨l, hl, hfound⟩ := lexes_chars h h' []
  rw [lexemes, hl]
  change l.finish = _
  rw [finish_of_hasFound hfound]
  simp

end EcmaPrinter.Json
