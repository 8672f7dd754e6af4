/-
# The depth of indentation as a word

The depth is counted in a 32-bit word. As long as a document has room, that is as
long as the levels it nests still fit above the depth of the printer, a run on the
word is the run on the number (`Doc.runWord_eq_run`). A checked addition never
leaves the range, so a run that it does not stop is that run too
(`Doc.eq_run_of_checked`). A wrapping one goes on from zero, and what is left then is
that a run which succeeds comes back to the depth it started at
(`Doc.runWord_returnsTo`).

The range is exact: at the last depth of the word a nested part wraps to zero, and
the level is not there to be left (`Doc.runWord_nest_at_last_depth`).

Key definitions: `Doc.levels`, `Printer.ReturnsTo`.
Key theorems: `Doc.runWord_eq_run`, `Doc.eq_run_of_checked`, `Doc.runWord_returnsTo`,
`Doc.runWord_nest_at_last_depth`.
-/
import EcmaPrinter.Proofs.Layout.Run
import Mathlib.Order.Nat

namespace EcmaPrinter

open Printer

/-! ### The counter -/

namespace Writer

variable {o : Overflow} {w w' : Writer}

theorem increaseWord_of_lt (o : Overflow) (h : w.indent + 1 < 2 ^ 32) :
    w.increaseWord o = some w.increaseIndent :=
  if_pos h

theorem increaseWord_wrapping_isSome (w : Writer) : (w.increaseWord .wrapping).isSome = true := by
  unfold increaseWord
  split <;> rfl

/-- What the counter does, with the range or against it: the depth is one more, or it
was the last one and is zero. -/
theorem increaseWord_cases (h : w.increaseWord o = some w') :
    w' = w.increaseIndent ∨ o = .wrapping ∧ w' = { w with indent := (w.indent + 1) % 2 ^ 32 } := by
  unfold increaseWord at h
  split at h
  · exact .inl (Option.some.inj h).symm
  · cases o with
    | checked => cases h
    | wrapping => exact .inr ⟨rfl, (Option.some.inj h).symm⟩

theorem increaseWord_isPretty (h : w.increaseWord o = some w') : w'.isPretty = w.isPretty := by
  rcases increaseWord_cases h with rfl | ⟨-, rfl⟩ <;> rfl

/-- A level that was entered and can be left again did not wrap. -/
theorem increaseWord_indent (hw : w.indent < 2 ^ 32) (h : w.increaseWord o = some w') :
    w'.indent < 2 ^ 32 ∧ (w'.indent ≠ 0 → w'.indent - 1 = w.indent) := by
  unfold increaseWord at h
  split at h
  · obtain rfl := Option.some.inj h
    exact ⟨‹_›, fun _ => Nat.add_sub_cancel _ _⟩
  · cases o with
    | checked => cases h
    | wrapping =>
      obtain rfl := Option.some.inj h
      have hzero : (w.indent + 1) % 2 ^ 32 = 0 := by omega
      exact ⟨Nat.mod_lt _ (by decide), fun hne => absurd hzero hne⟩

end Writer

/-- Leaving a level: it succeeds exactly where there is one, and lowers the depth by it. -/
theorem Printer.leaveLevel_keeps (p : Printer) :
    p.leaveLevel.1.writer.isPretty = p.writer.isPretty ∧
      p.leaveLevel.1.writer.indent ≤ p.writer.indent ∧
      (p.leaveLevel.2 = none →
        p.writer.indent ≠ 0 ∧ p.leaveLevel.1.writer.indent = p.writer.indent - 1) := by
  unfold leaveLevel Writer.decreaseIndent
  split
  · rename_i w hw
    split at hw
    · cases hw
    · cases hw
      exact ⟨rfl, Nat.sub_le _ _, fun _ => ⟨‹_›, rfl⟩⟩
  · exact ⟨rfl, le_refl _, fun h => by cases h⟩

namespace Doc

/-- How many levels a document nests. -/
def levels : Doc → Nat
  | .nest body => body.levels + 1
  | .append first second => max first.levels second.levels
  | _ => 0

/-- A nested part runs one level deeper, and what succeeds leaves the level. -/
theorem run_nest_eq {body : Doc} {p : Printer} (h : p.writer.isPretty = true) :
    (nest body).run p =
      match body.run (deeper p) with
      | (q, some e) => (q, some e)
      | (q, none) => q.leaveLevel := by
  rw [run, if_pos h]
  rfl

/-! ### Runs with room -/

/-- **A run that has room is the same on a word.** The levels that the document nests
fit above the depth; compact text has no depth and needs no room. -/
theorem runWord_eq_run (o : Overflow) : ∀ (d : Doc) (p : Printer),
    (p.writer.isPretty = true → p.writer.indent + d.levels < 2 ^ 32) →
    d.runWord o p = some (d.run p)
  | .empty, _, _ | .text _, _, _ | .softSpace, _, _ | .softLine, _, _ | .compactLine, _, _
  | .mark _, _, _ | .comments _, _, _ | .fail _, _, _ => rfl
  | .nest body, p, h => by
    cases hp : p.writer.isPretty with
    | false =>
      have ih := runWord_eq_run o body p fun ht => by rw [hp] at ht; cases ht
      rw [runWord, run_nest_compact hp, if_neg (by simp [hp]), ih]
    | true =>
      have hroom : p.writer.indent + (body.levels + 1) < 2 ^ 32 := h hp
      have hdeeper : (deeper p).writer.indent = p.writer.indent + 1 := rfl
      have ih := runWord_eq_run o body (deeper p) fun _ => by omega
      rw [runWord, if_pos hp, Writer.increaseWord_of_lt o (by omega), run_nest_eq hp]
      change (body.runWord o (deeper p)).bind _ = _
      rw [ih, Option.bind_some]
      obtain ⟨q, _ | e⟩ := body.run (deeper p) <;> rfl
  | .append a b, p, h => by
    have ha := runWord_eq_run o a p fun hp => by
      have := h hp
      rw [levels] at this
      omega
    rw [runWord, ha, Option.bind_eq_bind, Option.bind_some]
    change _ = some ((a ++ b).run p)
    cases hf : a.failure? with
    | some e =>
      have hrun := run_append_failed b hf p
      have hout : a.run p = ((a.run p).1, some e) := Prod.ext rfl ((run_failure a p).trans hf)
      rw [hrun, hout]
      rfl
    | none =>
      have hout : a.run p = ((a.run p).1, none) := Prod.ext rfl ((run_failure a p).trans hf)
      have hsame := (run_sameSetup a p).isPretty
      have hindent := run_indent hf p
      have hb := runWord_eq_run o b (a.run p).1 fun hp => by
        have := h (hsame.symm.trans hp)
        rw [levels] at this
        omega
      rw [run_append_done b hf, hout]
      exact hb

/-- A run leaves the printer at most as many levels deeper as the document nests. -/
theorem run_indent_le_levels (d : Doc) (p : Printer) :
    (d.run p).1.writer.indent ≤ p.writer.indent + d.levels := by
  cases hf : d.failure? with
  | none => exact (run_indent hf p).le.trans (Nat.le_add_right _ _)
  | some e =>
    cases d with
    | fail _ => exact le_refl _
    | nest body =>
      rw [levels]
      cases hp : p.writer.isPretty with
      | false =>
        rw [run_nest_compact hp]
        exact (run_indent_le_levels body p).trans (by omega)
      | true =>
        have hdeeper : (deeper p).writer.indent = p.writer.indent + 1 := rfl
        rw [run_nest_failed hp ((run_failure body _).trans hf)]
        exact (run_indent_le_levels body (deeper p)).trans (by omega)
    | append a b =>
      have ha := run_indent_le_levels a p
      rw [levels]
      change ((a ++ b).run p).1.writer.indent ≤ _
      cases hfirst : a.failure? with
      | some e =>
        rw [run_append_failed b hfirst]
        exact ha.trans (by omega)
      | none =>
        have hb := run_indent_le_levels b (a.run p).1
        rw [run_indent hfirst p] at hb
        rw [run_append_done b hfirst]
        exact hb.trans (by omega)
    | _ => cases hf

/-! ### Runs that overflow -/

/-- **A checked counter never leaves the range**: what a run on it comes to is what
it comes to on the number. -/
theorem eq_run_of_checked : ∀ (d : Doc) {p : Printer} {out : Printer × Option EmitError},
    d.runWord .checked p = some out → out = d.run p
  | .empty, _, _, h | .text _, _, _, h | .softSpace, _, _, h | .softLine, _, _, h
  | .compactLine, _, _, h | .mark _, _, _, h | .comments _, _, _, h | .fail _, _, _, h =>
    (Option.some.inj h).symm
  | .nest body, p, out, h => by
    rw [runWord] at h
    cases hp : p.writer.isPretty with
    | false =>
      rw [if_neg (by simp [hp])] at h
      rw [run_nest_compact hp]
      exact eq_run_of_checked body h
    | true =>
      rw [if_pos hp] at h
      obtain ⟨w, hw, h⟩ := Option.bind_eq_some_iff.mp h
      obtain ⟨out', hbody, h⟩ := Option.bind_eq_some_iff.mp h
      obtain rfl : w = p.writer.increaseIndent := by
        simpa using Writer.increaseWord_cases hw
      have hrun : body.run (deeper p) = out' := (eq_run_of_checked body hbody).symm
      rw [run_nest_eq hp, hrun]
      obtain ⟨q, _ | e⟩ := out' <;> exact (Option.some.inj h).symm
  | .append a b, p, out, h => by
    rw [runWord] at h
    obtain ⟨out', ha, h⟩ := Option.bind_eq_some_iff.mp h
    have hrun : a.run p = out' := (eq_run_of_checked a ha).symm
    change out = (a ++ b).run p
    rw [run_append, hrun]
    obtain ⟨q, _ | e⟩ := out'
    · exact eq_run_of_checked b h
    · exact (Option.some.inj h).symm

/-- A wrapping counter stops no run. -/
theorem runWord_wrapping_isSome : ∀ (d : Doc) (p : Printer),
    (d.runWord .wrapping p).isSome = true
  | .empty, _ | .text _, _ | .softSpace, _ | .softLine, _ | .compactLine, _ | .mark _, _
  | .comments _, _ | .fail _, _ => rfl
  | .nest body, p => by
    rw [runWord]
    split
    · obtain ⟨w, hw⟩ := Option.isSome_iff_exists.mp p.writer.increaseWord_wrapping_isSome
      obtain ⟨⟨q, error⟩, hbody⟩ := Option.isSome_iff_exists.mp
        (runWord_wrapping_isSome body { p with writer := w })
      rw [hw, Option.bind_eq_bind, Option.bind_some, hbody, Option.bind_eq_bind, Option.bind_some]
      cases error <;> rfl
    · exact runWord_wrapping_isSome body p
  | .append a b, p => by
    obtain ⟨⟨q, error⟩, ha⟩ := Option.isSome_iff_exists.mp (runWord_wrapping_isSome a p)
    rw [runWord, ha, Option.bind_eq_bind, Option.bind_some]
    cases error with
    | some e => rfl
    | none => exact runWord_wrapping_isSome b q

end Doc

/-- What a run on a word keeps whether it overflows or not: the mode, a depth in the
range, and the depth itself if it does not fail. -/
structure Printer.ReturnsTo (p : Printer) (out : Printer × Option EmitError) : Prop where
  isPretty : out.1.writer.isPretty = p.writer.isPretty
  inRange : out.1.writer.indent < 2 ^ 32
  indent : out.2 = none → out.1.writer.indent = p.writer.indent

namespace Doc

/-- A part that is not nested. -/
theorem returnsTo_run {d : Doc} {p : Printer} (hp : p.writer.indent < 2 ^ 32)
    (hd : (d.run p).1.writer.indent = p.writer.indent) : p.ReturnsTo (d.run p) :=
  ⟨(run_sameSetup d p).isPretty, hd ▸ hp, fun _ => hd⟩

/-- **A run that succeeds comes back to the depth it started at**, also where the
counter overflows: a level that was entered and could be left did not wrap. -/
theorem runWord_returnsTo {o : Overflow} : ∀ (d : Doc) {p : Printer}
    {out : Printer × Option EmitError}, p.writer.indent < 2 ^ 32 →
    d.runWord o p = some out → p.ReturnsTo out
  | .empty, _, _, hp, h | .fail _, _, _, hp, h =>
    Option.some.inj h ▸ returnsTo_run hp rfl
  | .text s, p, _, hp, h => Option.some.inj h ▸ returnsTo_run hp (run_indent (d := .text s) rfl p)
  | .softSpace, p, _, hp, h =>
    Option.some.inj h ▸ returnsTo_run hp (run_indent (d := .softSpace) rfl p)
  | .softLine, p, _, hp, h =>
    Option.some.inj h ▸ returnsTo_run hp (run_indent (d := .softLine) rfl p)
  | .compactLine, p, _, hp, h =>
    Option.some.inj h ▸ returnsTo_run hp (run_indent (d := .compactLine) rfl p)
  | .mark span, p, _, hp, h =>
    Option.some.inj h ▸ returnsTo_run hp (run_indent (d := .mark span) rfl p)
  | .comments span, p, _, hp, h =>
    Option.some.inj h ▸ returnsTo_run hp (run_indent (d := .comments span) rfl p)
  | .nest body, p, out, hp, h => by
    rw [runWord] at h
    split at h
    · obtain ⟨w, hw, h⟩ := Option.bind_eq_some_iff.mp h
      obtain ⟨⟨q, error⟩, hbody, h⟩ := Option.bind_eq_some_iff.mp h
      obtain ⟨hrange, hleave⟩ := Writer.increaseWord_indent hp hw
      have hq := runWord_returnsTo body (p := { p with writer := w }) hrange hbody
      have hpretty : q.writer.isPretty = p.writer.isPretty :=
        hq.isPretty.trans (Writer.increaseWord_isPretty hw)
      cases error with
      | some e =>
        obtain rfl := Option.some.inj h
        exact ⟨hpretty, hq.inRange, fun h => by cases h⟩
      | none =>
        obtain rfl := Option.some.inj h
        obtain ⟨hmode, hle, hdone⟩ := q.leaveLevel_keeps
        have hdepth : q.writer.indent = w.indent := hq.indent rfl
        refine ⟨hmode.trans hpretty, hle.trans_lt hq.inRange, fun h => ?_⟩
        obtain ⟨hne, hindent⟩ := hdone h
        rw [hindent, hdepth]
        exact hleave (hdepth ▸ hne)
    · exact runWord_returnsTo body hp h
  | .append a b, p, out, hp, h => by
    rw [runWord] at h
    obtain ⟨⟨q, error⟩, ha, h⟩ := Option.bind_eq_some_iff.mp h
    have hq := runWord_returnsTo a hp ha
    cases error with
    | some e =>
      obtain rfl := Option.some.inj h
      exact hq
    | none =>
      have hb := runWord_returnsTo b hq.inRange h
      exact ⟨hb.isPretty.trans hq.isPretty, hb.inRange,
        fun hdone => (hb.indent hdone).trans (hq.indent rfl)⟩

/-- **The range is exact.** At the last depth of the word a checked counter stops in
front of a nested part; a wrapping one goes on at depth zero, and a part that succeeds
there has no level to leave. -/
theorem runWord_nest_at_last_depth {body : Doc} {p : Printer} (hp : p.writer.isPretty = true)
    (hlast : p.writer.indent = 2 ^ 32 - 1) (hroom : body.levels < 2 ^ 32)
    (hbody : body.failure? = none) :
    (nest body).runWord .checked p = none ∧
      ((nest body).runWord .wrapping p).map (·.2) = some (some .indentUnderflow) := by
  have hover : ¬ p.writer.indent + 1 < 2 ^ 32 := by omega
  have hzero : (p.writer.indent + 1) % 2 ^ 32 = 0 := by omega
  constructor
  · rw [runWord, if_pos hp, Writer.increaseWord, if_neg hover]
    rfl
  · have hrun := runWord_eq_run .wrapping body { p with writer.indent := 0 } fun _ => by
      simpa using hroom
    have hfail := run_failure body { p with writer.indent := 0 }
    have hdepth := run_indent hbody { p with writer.indent := 0 }
    rw [runWord, if_pos hp, Writer.increaseWord, if_neg hover, hzero]
    change ((body.runWord .wrapping { p with writer.indent := 0 }).bind _).map _ = _
    rw [hrun, Option.bind_some]
    generalize body.run _ = out at hfail hdepth ⊢
    obtain ⟨q, error⟩ := out
    obtain rfl : error = none := hfail.trans hbody
    have hq : q.writer.indent = 0 := hdepth
    simp [leaveLevel, Writer.decreaseIndent, hq]

end Doc

end EcmaPrinter
