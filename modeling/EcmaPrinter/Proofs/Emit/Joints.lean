/-
# Where optional blanks are left out

Compact text leaves out the optional blanks. Two words merge at such a place if the
text in front of it ends and the text behind it starts with a character of a word:
a letter, a digit, `$`, `_` or anything outside ASCII.

Steps are read from left to right with two bits of memory, whether the text so far
ends in a character of a word (`Doc.word`) and whether an optional blank was left out
behind it (`Doc.gap`), and all that is asked is whether some text starts in the wrong
place (`Doc.merges`). A failure counts as an end of the text.

Key definitions: `Step.merges`, `Doc.word`, `Doc.gap`, `Doc.merges`.
Key theorems: `Doc.merges_append`, `Doc.merges_list`, `Step.not_isWordy_head`.
-/
import EcmaPrinter.Proofs.Emit.Reprint
import EcmaPrinter.Proofs.Lexical.Literals

namespace EcmaPrinter

def startsWordy (s : String) : Bool := s.toList.head?.any isWordy

/-- Whether a text ends in a character of a word once `s` is added to it, where `w`
says so of the text without `s`. -/
def wordyAfter (w : Bool) (s : String) : Bool := (s.toList.getLast?.map isWordy).getD w

/-- A text that ends in a character of a word is not empty, and ends so behind any other. -/
theorem wordyAfter_of_false {s : String} (h : wordyAfter false s = true) :
    s.isEmpty = false ∧ ∀ w, wordyAfter w s = true := by
  unfold wordyAfter at h ⊢
  cases hs : s.toList.getLast? with
  | none =>
    rw [hs] at h
    cases h
  | some c =>
    rw [hs] at h
    refine ⟨?_, fun _ => h⟩
    rw [Bool.eq_false_iff]
    intro hempty
    rw [String.isEmpty_iff.mp hempty] at hs
    cases hs

/-- Behind a text that is not empty no blank has been left out yet. -/
theorem wordyAfter_and_gap {w g : Bool} (h : (w && g) = false) (s : String) :
    (wordyAfter w s && (g && s.isEmpty)) = false := by
  cases hs : s.isEmpty with
  | false => simp
  | true =>
    rw [String.isEmpty_iff.mp hs, Bool.and_true]
    exact h

namespace Step

/-- Whether the text ends in a character of a word behind a step. -/
def wordBehind (w : Bool) : Step → Bool
  | .text s => wordyAfter w s
  | .compactLine | .fail _ => false
  | _ => w

/-- Whether an optional blank was left out since the last character, behind a step. -/
def gapBehind (g : Bool) : Step → Bool
  | .text s => g && s.isEmpty
  | .softSpace => true
  | .compactLine | .fail _ => false
  | _ => g

/-- Whether a step continues a word across an optional blank. -/
def continues (w g : Bool) : Step → Bool
  | .text s => w && g && startsWordy s
  | _ => false

/-- Whether one of some steps continues a word across an optional blank. -/
def merges : Bool → Bool → List Step → Bool
  | _, _, [] => false
  | w, g, s :: ss => continues w g s || merges (wordBehind w s) (gapBehind g s) ss

theorem merges_append (w g : Bool) : ∀ ss ts : List Step,
    merges w g (ss ++ ts) =
      (merges w g ss || merges (ss.foldl wordBehind w) (ss.foldl gapBehind g) ts)
  | [], _ => rfl
  | s :: ss, ts => by
    have ih := merges_append (wordBehind w s) (gapBehind g s) ss ts
    rw [List.cons_append, merges, ih, merges, Bool.or_assoc]
    rfl

/-- **Where no word is continued across a blank, what is written next does not continue
one.** -/
theorem not_isWordy_head : ∀ ss : List Step, failure? ss = none → merges true true ss = false →
    (ss.flatMap compactChars).head?.any isWordy = false
  | [], _, _ => rfl
  | .text s :: ss, hf, h => by
    simp only [merges, continues, wordBehind, gapBehind, Bool.true_and, Bool.or_eq_false_iff] at h
    rw [List.flatMap_cons, compactChars, List.head?_append]
    cases hs : s.toList with
    | nil =>
      have hempty : s = "" := by simpa using hs
      subst hempty
      exact not_isWordy_head ss hf h.2
    | cons c cs => simpa [startsWordy, hs] using h.1
  | .compactLine :: ss, _, _ => rfl
  | .fail e :: ss, hf, _ => nomatch hf
  | .mark _ :: ss, hf, h | .softSpace :: ss, hf, h | .softLine :: ss, hf, h
  | .comments _ :: ss, hf, h | .enter :: ss, hf, h | .leave :: ss, hf, h =>
    not_isWordy_head ss hf h

end Step

/-! ### Documents -/

namespace Doc

/-- Whether the text ends in a character of a word behind a document. -/
def word (w : Bool) (d : Doc) : Bool := d.steps.foldl Step.wordBehind w

/-- Whether an optional blank was left out since the last character, behind a
document. -/
def gap (g : Bool) (d : Doc) : Bool := d.steps.foldl Step.gapBehind g

/-- Whether a text of a document continues a word across an optional blank. -/
def merges (w g : Bool) (d : Doc) : Bool := Step.merges w g d.steps

variable {w g b : Bool}

@[simp] theorem word_append (d e : Doc) : (d ++ e).word w = e.word (d.word w) := List.foldl_append

@[simp] theorem gap_append (d e : Doc) : (d ++ e).gap g = e.gap (d.gap g) := List.foldl_append

@[simp] theorem merges_append (d e : Doc) :
    (d ++ e).merges w g = (d.merges w g || e.merges (d.word w) (d.gap g)) :=
  Step.merges_append w g d.steps e.steps

@[simp] theorem word_text (s : String) : (text s).word w = wordyAfter w s := rfl

@[simp] theorem gap_text (s : String) : (text s).gap g = (g && s.isEmpty) := rfl

@[simp] theorem merges_text (s : String) : (text s).merges w g = (w && g && startsWordy s) :=
  Bool.or_false _

@[simp] theorem word_empty : empty.word w = w := rfl

@[simp] theorem merges_empty : empty.merges w g = false := rfl

@[simp] theorem word_mark (span : Span) : (mark span).word w = w := rfl

@[simp] theorem merges_mark (span : Span) : (mark span).merges w g = false := rfl

@[simp] theorem word_softSpace : softSpace.word w = w := rfl

@[simp] theorem merges_softSpace : softSpace.merges w g = false := rfl

@[simp] theorem word_softLine : softLine.word w = w := rfl

@[simp] theorem merges_softLine : softLine.merges w g = false := rfl

@[simp] theorem word_compactLine : compactLine.word w = false := rfl

@[simp] theorem merges_compactLine : compactLine.merges w g = false := rfl

@[simp] theorem word_comments (span : Span) : (comments span).word w = w := rfl

@[simp] theorem merges_comments (span : Span) : (comments span).merges w g = false := rfl

@[simp] theorem word_fail (e : EmitError) : (fail e).word w = false := rfl

@[simp] theorem merges_fail (e : EmitError) : (fail e).merges w g = false := rfl

@[simp] theorem word_nest (body : Doc) : (nest body).word w = body.word w := by
  change (body.steps ++ [Step.leave]).foldl Step.wordBehind w = _
  rw [List.foldl_append]
  rfl

@[simp] theorem merges_nest (body : Doc) : (nest body).merges w g = body.merges w g := by
  change Step.merges w g (body.steps ++ [Step.leave]) = _
  rw [Step.merges_append]
  exact Bool.or_false _

@[simp] theorem word_space : space.word w = false := rfl

@[simp] theorem merges_space : space.merges w g = false := by
  cases w <;> cases g <;> rfl

@[simp] theorem word_spaceIf : (spaceIf b).word w = (w && !b) := by
  cases w <;> cases b <;> rfl

@[simp] theorem merges_spaceIf : (spaceIf b).merges w g = false := by
  cases w <;> cases g <;> cases b <;> rfl

@[simp] theorem word_when (d : Doc) : (when b d).word w = if b then d.word w else w := by
  cases b <;> rfl

@[simp] theorem merges_when (d : Doc) : (when b d).merges w g = (b && d.merges w g) := by
  cases b <;> rfl

@[simp] theorem word_check (e : EmitError) : (check b e).word w = (w && b) := by
  cases w <;> cases b <;> rfl

@[simp] theorem merges_check (e : EmitError) : (check b e).merges w g = false := by
  cases b <;> rfl

@[simp] theorem word_reject (kind : NodeKind) : (reject b kind).word w = (w && !b) :=
  word_check _

@[simp] theorem merges_reject (kind : NodeKind) : (reject b kind).merges w g = false :=
  merges_check _

@[simp] theorem word_breakOr {isSpaced : Bool} : (breakOr b isSpaced).word w = w := by
  cases b <;> cases isSpaced <;> rfl

@[simp] theorem merges_breakOr {isSpaced : Bool} : (breakOr b isSpaced).merges w g = false := by
  cases b <;> cases isSpaced <;> rfl

end Doc

/-! ### Lists -/

theorem Delimiter.startsWordy_text (d : Delimiter) : startsWordy d.text = false := by
  cases d <;> rfl

theorem Delimiter.wordyAfter_text (w : Bool) (d : Delimiter) :
    wordyAfter w d.text = (w && d == .none) := by
  cases w <;> cases d <;> rfl

theorem Brackets.startsWordy_opening (b : Brackets) : startsWordy (b.opening.getD "") = false := by
  cases b <;> rfl

theorem Brackets.wordyAfter_opening (w : Bool) (b : Brackets) :
    wordyAfter w (b.opening.getD "") = (w && b == .none) := by
  cases w <;> cases b <;> rfl

theorem Brackets.startsWordy_closing (b : Brackets) : startsWordy (b.closing.getD "") = false := by
  cases b <;> rfl

theorem Brackets.wordyAfter_closing (w : Bool) (b : Brackets) :
    wordyAfter w (b.closing.getD "") = (w && b == .none) := by
  cases w <;> cases b <;> rfl

/-- Behind a text that ends in a word or not, a document continues no word, and if it is
one of a list without delimiters it does not end in one either. -/
def Doc.Follows (w : Bool) (d : Delimiter) (doc : Doc) : Prop :=
  (∀ g, doc.merges w g = false) ∧ (d = .none → doc.word w = false)

namespace Doc

variable {f : ListFormat} {w g : Bool}

theorem word_listItem (item : Item) : (listItem f item).word w = item.doc.word w := by
  simp [listItem]

theorem merges_listItem {item : Item} (h : ∀ g, item.doc.merges w g = false) :
    (listItem f item).merges w g = false := by
  simp [listItem, h]

/-- Items behind others. A delimiter that is not empty ends every word; without one the
items have to. -/
theorem follows_listTail : ∀ {w : Bool} (previous : Span) {items : List Item},
    (f.delimiter = .none → w = false) →
    (∀ item ∈ items, item.doc.Follows false f.delimiter) →
    (listTail f previous items).Follows w f.delimiter
  | _, _, [], hw, _ => ⟨fun _ => rfl, hw⟩
  | w, _, item :: items, hw, h => by
    rw [List.forall_mem_cons] at h
    have hd : (w && f.delimiter == .none) = false := by
      cases hd : f.delimiter with
      | none => rw [hw hd]; rfl
      | _ => exact Bool.and_false w
    have ih := follows_listTail item.span h.1.2 h.2
    refine ⟨fun g => ?_, fun hnone => ?_⟩
    · simp [listTail, f.delimiter.startsWordy_text, f.delimiter.wordyAfter_text, hd,
        merges_listItem h.1.1, word_listItem, ih.1]
    · simp [listTail, f.delimiter.wordyAfter_text, hd, word_listItem, ih.2 hnone]

/-- **A list continues no word where its items do not.** The first item is seen by what
stands in front of the list if there is no bracket. -/
theorem merges_list {parent : Span} {items : List Item}
    (hfirst : ∀ first ∈ items.head?, first.doc.Follows (w && f.brackets == .none) f.delimiter)
    (hrest : ∀ item ∈ items, item.doc.Follows false f.delimiter) :
    (list parent f items).merges w g = false := by
  unfold list
  cases items with
  | nil =>
    split
    · rfl
    · simp only [merges_append, merges_text, f.brackets.startsWordy_opening,
        f.brackets.startsWordy_closing, listBody, Bool.and_false, Bool.or_false, Bool.false_or]
      split <;> simp
  | cons first rest =>
    have hone := hfirst first rfl
    have htail := follows_listTail (f := f) first.span hone.2
      (List.forall_mem_cons.mp hrest).2
    cases hindent : f.isIndented <;>
      simp [listBody, hindent, f.brackets.startsWordy_opening, f.brackets.wordyAfter_opening,
        f.brackets.startsWordy_closing, merges_listItem hone.1, word_listItem, htail.1]

/-- A list with brackets does not end in a word. -/
theorem word_bracketed {parent : Span} {items : List Item} (hb : f.brackets ≠ .none)
    (ho : f.isOptionalIfEmpty = false) : (list parent f items).word w = false := by
  have hnone : (f.brackets == .none) = false := by simpa using hb
  simp [list, ho, f.brackets.wordyAfter_closing, hnone]

/-- Items with commas between them and brackets around them. -/
theorem merges_bracketed {parent : Span} {items : List Item} (hb : f.brackets ≠ .none)
    (hd : f.delimiter ≠ .none) (h : ∀ item ∈ items, ∀ g, item.doc.merges false g = false) :
    (list parent f items).merges w g = false := by
  have hnone : (w && f.brackets == .none) = false := by simp [hb]
  refine merges_list (fun first hfirst => ?_) fun item hitem =>
    ⟨h item hitem, fun hnone => (hd hnone).elim⟩
  rw [hnone]
  exact ⟨h first (List.mem_of_mem_head? hfirst), fun hnone => (hd hnone).elim⟩

/-- Items that do not end in words, one behind the other. -/
theorem merges_closed {parent : Span} {items : List Item} (hw : (w && f.brackets == .none) = false)
    (h : ∀ item ∈ items, item.doc.Follows false .none) :
    (list parent f items).merges w g = false := by
  have hfollows : ∀ item ∈ items, item.doc.Follows false f.delimiter := fun item hitem =>
    ⟨(h item hitem).1, fun _ => (h item hitem).2 rfl⟩
  refine merges_list (fun first hfirst => ?_) hfollows
  rw [hw]
  exact hfollows first (List.mem_of_mem_head? hfirst)

/-- Items that do not end in words do not end in one together. -/
theorem word_closed {parent : Span} {items : List Item} (hd : f.delimiter = .none)
    (h : ∀ item ∈ items, item.doc.Follows false .none) :
    (list parent f items).word false = false := by
  unfold list
  cases items with
  | nil =>
    split
    · rfl
    · simp only [word_append, word_text, f.brackets.wordyAfter_opening,
        f.brackets.wordyAfter_closing, listBody]
      split <;> simp
  | cons first rest =>
    rw [List.forall_mem_cons] at h
    have htail := follows_listTail (f := f) first.span (fun _ => h.1.2 rfl)
      fun item hitem => ⟨(h.2 item hitem).1, fun _ => (h.2 item hitem).2 rfl⟩
    cases hindent : f.isIndented <;>
      simp [listBody, hindent, f.brackets.wordyAfter_opening, f.brackets.wordyAfter_closing,
        word_listItem, htail.2 hd]

end Doc

end EcmaPrinter
