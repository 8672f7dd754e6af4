/-
# Texts laid out

Without comments, a run adds the texts of its steps to the output, each with some
blanks and line breaks in front of it, in either mode (`Doc.run_laid`). How many of
them there are depends on the printer; what a text starts with, layout apart, does not.

Statements about the start of a text compose like the steps do: steps lead from `Q`
to `P` if their text, written in front of any text with `Q`, makes one with `P`
(`Step.Leads`). Of a property that does not see layout, steps without a text keep it,
and a text only has to be looked at as it is.

Key definitions: `Step.Laid`, `SkipsLayout`, `Step.Leads`.
Key theorems: `Doc.run_laid`, `Step.Leads.append`, `Step.Leads.text`.
-/
import EcmaPrinter.Proofs.Layout.Written

namespace EcmaPrinter

namespace Step

/-- The texts of some steps, with layout in front of each. -/
def Laid : List Step → List Char → Prop
  | [], t => t = []
  | s :: ss, t => ∃ gap u, gap.all isLayout = true ∧ Laid ss u ∧ t = gap ++ (s.chars ++ u)

theorem laid_append : ∀ {ss ts : List Step} {t : List Char},
    Laid (ss ++ ts) t ↔ ∃ u v, Laid ss u ∧ Laid ts v ∧ t = u ++ v
  | [], ts, t => by simp [Laid]
  | s :: ss, ts, t => by
    rw [List.cons_append]
    constructor
    · rintro ⟨gap, w, hgap, hw, rfl⟩
      obtain ⟨u, v, hu, hv, rfl⟩ := laid_append.mp hw
      exact ⟨gap ++ (s.chars ++ u), v, ⟨gap, u, hgap, hu, rfl⟩, hv, by simp⟩
    · rintro ⟨w, v, ⟨gap, u, hgap, hu, rfl⟩, hv, rfl⟩
      exact ⟨gap, u ++ v, hgap, laid_append.mpr ⟨u, v, hu, hv, rfl⟩, by simp⟩

/-- A step at a time. -/
theorem laid_singleton {s : Step} {t : List Char} :
    Laid [s] t ↔ ∃ gap, gap.all isLayout = true ∧ t = gap ++ s.chars := by
  constructor
  · rintro ⟨gap, u, hgap, rfl, rfl⟩
    exact ⟨gap, hgap, by simp⟩
  · rintro ⟨gap, hgap, rfl⟩
    exact ⟨gap, [], hgap, rfl, by simp⟩

/-- The bare text of some steps is one of those with layout. -/
theorem laid_chars : ∀ ss : List Step, Laid ss (ss.flatMap chars)
  | [] => rfl
  | _ :: ss => ⟨[], ss.flatMap chars, rfl, laid_chars ss, rfl⟩

end Step

/-! ### Runs -/

namespace Writer

theorem all_owed (w : Writer) : w.owed.all isLayout = true := by
  rw [owed, List.all_replicate]
  simp [isLayout]

theorem all_blank (w : Writer) : w.blank.all isLayout = true := by
  unfold blank
  split
  · rw [List.all_append, all_owed]
    rfl
  · rfl

theorem all_lineBreak (w : Writer) : w.lineBreak.all isLayout = true := by
  unfold lineBreak
  split <;> rfl

end Writer

namespace Printer

/-- Without comments, a step adds its text behind some layout. -/
theorem piece_laid {p : Printer} (h : p.comments = none) (s : Step) :
    ∃ gap, gap.all isLayout = true ∧ (p.piece s).text = gap ++ s.chars := by
  cases s with
  | text s =>
    dsimp only [piece, Piece.text, Step.chars, Writer.added]
    split
    · rename_i hs
      exact ⟨[], rfl, by rw [String.isEmpty_iff.mp hs]; rfl⟩
    · exact ⟨p.writer.owed, p.writer.all_owed, rfl⟩
  | softSpace => exact ⟨p.writer.blank, p.writer.all_blank, (List.append_nil _).symm⟩
  | softLine => exact ⟨p.writer.lineBreak, p.writer.all_lineBreak, (List.append_nil _).symm⟩
  | compactLine =>
    refine ⟨if p.writer.isPretty then [] else ['\n'], ?_, (List.append_nil _).symm⟩
    split <;> rfl
  | comments span =>
    have hnone : p.pendingComments span = [] := by
      unfold pendingComments
      rw [h]
    exact ⟨[], rfl, by simp [piece, hnone, Piece.text, Step.chars]⟩
  | mark _ | enter | leave | fail _ => exact ⟨[], rfl, rfl⟩

/-- **Without comments, some steps add their texts and layout.** -/
theorem perform_laid : ∀ (ss : List Step) {p : Printer}, p.comments = none →
    ∃ t, (p.perform ss).output.toList = p.output.toList ++ t ∧ Step.Laid ss t
  | [], p, _ => ⟨[], (List.append_nil _).symm, rfl⟩
  | s :: ss, p, h => by
    obtain ⟨gap, hgap, hpiece⟩ := piece_laid h s
    obtain ⟨u, hu, hlaid⟩ := perform_laid ss ((step_sameSetup p s).comments.trans h)
    refine ⟨gap ++ (s.chars ++ u), ?_, gap, u, hgap, hlaid, rfl⟩
    rw [perform_cons, hu, step_output, hpiece]
    simp

end Printer

/-- **Without comments, a run that does not fail adds the texts of its steps and layout.** -/
theorem Doc.run_laid {d : Doc} (hd : d.failure? = none) {p : Printer} (hp : p.comments = none) :
    ∃ t, (d.run p).1.output.toList = p.output.toList ++ t ∧ Step.Laid d.steps t := by
  rw [run_steps_done hd]
  exact p.perform_laid d.steps hp

/-! ### What a text starts with -/

/-- A property of texts that does not get lost by layout in front. -/
def SkipsLayout (P : List Char → Prop) : Prop := ∀ c t, isLayout c = true → P t → P (c :: t)

theorem SkipsLayout.append {P : List Char → Prop} (hP : SkipsLayout P) {t : List Char} (ht : P t) :
    ∀ {gap : List Char}, gap.all isLayout = true → P (gap ++ t)
  | [], _ => ht
  | c :: gap, h => by
    rw [List.all_cons, Bool.and_eq_true] at h
    exact hP c (gap ++ t) h.1 (hP.append ht h.2)

namespace Step

variable {P Q R : List Char → Prop} {ss ts : List Step}

/-- The text of some steps, in front of any with `Q`, is one with `P`. -/
def Leads (P Q : List Char → Prop) (ss : List Step) : Prop :=
  ∀ t rest, Laid ss t → Q rest → P (t ++ rest)

theorem Leads.append (hs : Leads P R ss) (ht : Leads R Q ts) : Leads P Q (ss ++ ts) := by
  intro t rest hlaid hrest
  obtain ⟨u, v, hu, hv, rfl⟩ := laid_append.mp hlaid
  rw [List.append_assoc]
  exact hs u (v ++ rest) hu (ht v rest hv hrest)

theorem Leads.mono {P' Q' : List Char → Prop} (h : Leads P Q ss) (hP : ∀ t, P t → P' t)
    (hQ : ∀ t, Q' t → Q t) : Leads P' Q' ss :=
  fun t rest hlaid hrest => hP _ (h t rest hlaid (hQ rest hrest))

/-- A text is looked at as it is. -/
theorem Leads.text (hP : SkipsLayout P) {s : String} (h : ∀ rest, Q rest → P (s.toList ++ rest)) :
    Leads P Q [.text s] := by
  intro t rest hlaid hrest
  obtain ⟨gap, hgap, rfl⟩ := laid_singleton.mp hlaid
  rw [List.append_assoc]
  exact hP.append (h rest hrest) hgap

/-- Steps without a text keep what does not see layout. -/
theorem Leads.silent (hP : SkipsLayout P) : ∀ {ss : List Step}, ss.flatMap chars = [] → Leads P P ss
  | [], _ => fun _ _ hlaid hrest => hlaid ▸ hrest
  | s :: ss, h => by
    rw [List.flatMap_cons, List.append_eq_nil_iff] at h
    intro t rest hlaid hrest
    obtain ⟨gap, u, hgap, hu, rfl⟩ := hlaid
    rw [h.1, List.nil_append, List.append_assoc]
    exact hP.append (Leads.silent hP h.2 u rest hu hrest) hgap

end Step

end EcmaPrinter
