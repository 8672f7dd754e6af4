/-
# Documents as steps

A document read from left to right is a list of steps: write a text, break a
line, go one level deeper, record a mark. A run performs the steps in front of the
first failure one after the other (`Doc.run_steps`), so that what holds of a run
is shown step by step, and what several runs on one printer do is one list of
steps as well.

Key definitions: `Step`, `Doc.steps`, `Step.untilFailure`, `Printer.step`,
`Printer.perform`.
Key theorems: `Doc.failure?_eq_steps`, `Doc.run_steps`.
-/
import EcmaPrinter.Proofs.Layout.Run
import Mathlib.Data.List.TakeWhile

namespace EcmaPrinter

/-- What a printer does at once. -/
inductive Step where
  | text (s : String)
  | softSpace
  | softLine
  | compactLine
  | mark (span : Span)
  | comments (span : Span)
  | enter
  | leave
  | fail (error : EmitError)

namespace Step

/-- The error of a step that fails. -/
def error? : Step → Option EmitError
  | .fail e => some e
  | _ => none

/-- The steps in front of the first that fails. -/
def untilFailure (ss : List Step) : List Step := ss.takeWhile fun s => s.error?.isNone

/-- The error of the first step that fails. -/
def failure? (ss : List Step) : Option EmitError := ss.findSome? error?

theorem failure?_append (ss ts : List Step) :
    failure? (ss ++ ts) = (failure? ss).or (failure? ts) :=
  List.findSome?_append

theorem forall_error?_of_failure? {ss : List Step} (h : failure? ss = none) :
    ∀ s ∈ ss, s.error?.isNone = true := by
  intro s hs
  rw [Option.isNone_iff_eq_none]
  exact List.findSome?_eq_none_iff.mp h s hs

/-- Steps none of which fails are all performed. -/
theorem untilFailure_of_failure? {ss : List Step} (h : failure? ss = none) :
    untilFailure ss = ss :=
  List.takeWhile_eq_self_iff.mpr (forall_error?_of_failure? h)

theorem untilFailure_append_done {ss : List Step} (ts : List Step) (h : failure? ss = none) :
    untilFailure (ss ++ ts) = ss ++ untilFailure ts :=
  List.takeWhile_append_of_pos (forall_error?_of_failure? h)

theorem untilFailure_append_failed {ss : List Step} {e : EmitError} (ts : List Step)
    (h : failure? ss = some e) : untilFailure (ss ++ ts) = untilFailure ss := by
  obtain ⟨s, hs, he⟩ := List.exists_of_findSome?_eq_some h
  unfold untilFailure
  rw [List.takeWhile_append, if_neg]
  intro hlen
  have hall : ∀ s ∈ ss, s.error?.isNone = true :=
    List.takeWhile_eq_self_iff.mp ((List.takeWhile_prefix _).eq_of_length hlen)
  have := hall s hs
  rw [he] at this
  cases this

end Step

/-- The steps of a document. -/
def Doc.steps : Doc → List Step
  | .empty => []
  | .text s => [.text s]
  | .softSpace => [.softSpace]
  | .softLine => [.softLine]
  | .compactLine => [.compactLine]
  | .mark span => [.mark span]
  | .comments span => [.comments span]
  | .nest body => .enter :: (body.steps ++ [.leave])
  | .fail e => [.fail e]
  | .append first second => first.steps ++ second.steps

namespace Printer

/-- The printer after a step. -/
def step (p : Printer) : Step → Printer
  | .text s => p.updateWriter fun w => w.write s
  | .softSpace => p.updateWriter Writer.softSpace
  | .softLine => p.updateWriter Writer.softLine
  | .compactLine => if p.writer.isPretty then p else p.updateWriter Writer.hardLine
  | .mark span => p.mark span
  | .comments span => p.writeComments span
  | .enter => if p.writer.isPretty then Doc.deeper p else p
  | .leave => if p.writer.isPretty then Doc.shallower p else p
  | .fail _ => p

/-- The printer after some steps. -/
def perform (p : Printer) (ss : List Step) : Printer := ss.foldl step p

@[simp] theorem perform_nil (p : Printer) : p.perform [] = p := rfl

@[simp] theorem perform_cons (p : Printer) (s : Step) (ss : List Step) :
    p.perform (s :: ss) = (p.step s).perform ss := rfl

theorem perform_append (p : Printer) (ss ts : List Step) :
    p.perform (ss ++ ts) = (p.perform ss).perform ts :=
  List.foldl_append

/-- **A step keeps the set-up of the printer.** -/
theorem step_sameSetup (p : Printer) (s : Step) : SameSetup p (p.step s) := by
  cases s with
  | text _ => exact ⟨by simp [step, updateWriter], rfl, rfl⟩
  | softSpace => exact ⟨by simp [step, updateWriter], rfl, rfl⟩
  | softLine => exact ⟨by simp [step, updateWriter], rfl, rfl⟩
  | mark span => exact mark_sameSetup p span
  | comments span => exact writeComments_sameSetup p span
  | fail _ => exact .refl p
  | compactLine | enter | leave =>
    dsimp only [step]
    split <;> exact ⟨rfl, rfl, rfl⟩

theorem perform_sameSetup : ∀ (ss : List Step) (p : Printer), SameSetup p (p.perform ss)
  | [], p => .refl p
  | s :: ss, p => (step_sameSetup p s).trans (perform_sameSetup ss (p.step s))

end Printer

namespace Doc

@[simp] theorem steps_append (a b : Doc) : (a ++ b).steps = a.steps ++ b.steps := rfl

theorem failure?_eq_steps : ∀ d : Doc, d.failure? = Step.failure? d.steps
  | .empty | .text _ | .softSpace | .softLine | .compactLine | .mark _ | .comments _ | .fail _ => rfl
  | .nest body => by
    change body.failure? = (Step.failure? (body.steps ++ [.leave]))
    rw [Step.failure?_append, ← failure?_eq_steps body]
    exact (Option.or_none).symm
  | .append a b => by
    change a.failure?.or b.failure? = Step.failure? (a.steps ++ b.steps)
    rw [Step.failure?_append, failure?_eq_steps a, failure?_eq_steps b]

/-- **A run performs the steps of the document** in front of its failure. -/
theorem run_steps : ∀ (d : Doc) (p : Printer),
    (d.run p).1 = p.perform (Step.untilFailure d.steps)
  | .empty, _ | .text _, _ | .softSpace, _ | .softLine, _ | .compactLine, _ | .mark _, _
  | .comments _, _ | .fail _, _ => rfl
  | .nest body, p => by
    have hb := body.failure?_eq_steps
    change _ = (p.step .enter).perform (Step.untilFailure (body.steps ++ [.leave]))
    cases hp : p.writer.isPretty with
    | false =>
      have henter : p.step .enter = p := if_neg (by simp [hp])
      rw [run_nest_compact hp, henter, run_steps body p]
      cases hf : body.failure? with
      | some e => rw [Step.untilFailure_append_failed _ (hb.symm.trans hf)]
      | none =>
        have hq := (Printer.perform_sameSetup body.steps p).isPretty.trans hp
        rw [Step.untilFailure_append_done _ (hb.symm.trans hf),
          Step.untilFailure_of_failure? (hb.symm.trans hf), Printer.perform_append]
        exact (if_neg (by simp [hq])).symm
    | true =>
      have henter : p.step .enter = deeper p := if_pos hp
      have hrun := run_steps body (deeper p)
      rw [henter]
      cases hf : body.failure? with
      | some e =>
        rw [run_nest_failed hp ((run_failure body _).trans hf), hrun,
          Step.untilFailure_append_failed _ (hb.symm.trans hf)]
      | none =>
        have hi : (body.run (deeper p)).1.writer.indent = p.writer.indent + 1 :=
          run_indent hf (deeper p)
        have hq := (Printer.perform_sameSetup body.steps (deeper p)).isPretty.trans hp
        rw [run_nest_done hp ((run_failure body _).trans hf) (by omega), hrun,
          Step.untilFailure_append_done _ (hb.symm.trans hf),
          Step.untilFailure_of_failure? (hb.symm.trans hf), Printer.perform_append]
        exact (if_pos hq).symm
  | .append a b, p => by
    have ha := a.failure?_eq_steps
    change ((a ++ b).run p).1 = p.perform (Step.untilFailure (a.steps ++ b.steps))
    cases hf : a.failure? with
    | some e =>
      rw [run_append_failed b hf, run_steps a p,
        Step.untilFailure_append_failed _ (ha.symm.trans hf)]
    | none =>
      rw [run_append_done b hf, run_steps b, run_steps a p,
        Step.untilFailure_append_done _ (ha.symm.trans hf),
        Step.untilFailure_of_failure? (ha.symm.trans hf), Printer.perform_append]

/-- A run that does not fail performs all steps of the document. -/
theorem run_steps_done {d : Doc} (h : d.failure? = none) (p : Printer) :
    (d.run p).1 = p.perform d.steps := by
  rw [run_steps, Step.untilFailure_of_failure? (d.failure?_eq_steps.symm.trans h)]

end Doc

end EcmaPrinter
