/-
# Documents read character by character

The texts of a document are read as code, literals and comments. Nodes tell the goals: an
operand is expected where a node starts, which its mark shows, and an operator behind
every text.

A document stays in code if it leaves a reader in code that was in code in front of it,
whatever substitutions and braces are open (`Doc.StaysInCode`). Such documents are
phrases: they may stand one behind the other, between brackets of one kind, and in a list
under any format.

Key definitions: `Step.goalBehind`, `Doc.tagged`, `Doc.scan`, `Doc.StaysInCode`.
Key theorems: `Doc.tagged_fst`, `Doc.scan_append`, `Doc.phrasing_staysInCode`.
-/
import EcmaPrinter.Proofs.Layout.Phrasing
import EcmaPrinter.Proofs.Lexical.Modes

namespace EcmaPrinter

open Lexical (Goal Place code under openBrace isCodeText)

/-! ### Steps -/

namespace Step

/-- What a parser expects behind a step: an operand where a node starts, and an operator
elsewhere. -/
def goalBehind : Step → Goal
  | .mark _ => .operand
  | _ => .operator

/-- The characters of some steps with the goals they are read under. -/
def tagged (goal : Goal) : List Step → List (Char × Goal)
  | [] => []
  | s :: ss => under goal s.chars ++ tagged s.goalBehind ss

/-- The goal behind some steps. -/
def lastGoal (goal : Goal) (ss : List Step) : Goal := ss.foldl (fun _ s => s.goalBehind) goal

theorem tagged_append (ts : List Step) : ∀ (ss : List Step) (goal : Goal),
    tagged goal (ss ++ ts) = tagged goal ss ++ tagged (lastGoal goal ss) ts
  | [], _ => rfl
  | s :: ss, goal => by
    rw [List.cons_append, tagged, tagged_append ts ss, tagged, List.append_assoc]
    rfl

theorem tagged_fst : ∀ (ss : List Step) (goal : Goal),
    (tagged goal ss).map Prod.fst = ss.flatMap chars
  | [], _ => rfl
  | s :: ss, goal => by
    rw [tagged, List.map_append, tagged_fst ss, List.flatMap_cons]
    simp [under, Function.comp_def]

end Step

/-! ### Documents -/

namespace Doc

/-- The characters of a document with the goals they are read under. -/
def tagged (d : Doc) (goal : Goal) : List (Char × Goal) := Step.tagged goal d.steps

/-- The goal behind a document. -/
def goalBehind (d : Doc) (goal : Goal) : Goal := Step.lastGoal goal d.steps

/-- The place behind a document. -/
def scan (d : Doc) (goal : Goal) (p : Place) : Place := Lexical.scan p (d.tagged goal)

/-- The document leaves a reader in code that was in code in front of it, with the same
braces open. -/
def StaysInCode (d : Doc) : Prop := ∀ goal braces, d.scan goal (code braces) = code braces

/-- The tagged characters are those of the document. -/
theorem tagged_fst (d : Doc) (goal : Goal) :
    (d.tagged goal).map Prod.fst = d.steps.flatMap Step.chars :=
  Step.tagged_fst d.steps goal

variable {goal : Goal} {p : Place} {braces : List Nat}

theorem tagged_append (a b : Doc) (goal : Goal) :
    (a ++ b).tagged goal = a.tagged goal ++ b.tagged (a.goalBehind goal) :=
  Step.tagged_append b.steps a.steps goal

@[simp] theorem goalBehind_append (a b : Doc) (goal : Goal) :
    (a ++ b).goalBehind goal = b.goalBehind (a.goalBehind goal) :=
  List.foldl_append

@[simp] theorem goalBehind_mark (span : Span) : (mark span).goalBehind goal = .operand := rfl

@[simp] theorem goalBehind_text (s : String) : (text s).goalBehind goal = .operator := rfl

@[simp] theorem goalBehind_softSpace : softSpace.goalBehind goal = .operator := rfl

@[simp] theorem goalBehind_spaceIf (b : Bool) : (spaceIf b).goalBehind goal = .operator := by
  cases b <;> rfl

/-- A document is read in parts. -/
theorem scan_append (a b : Doc) (goal : Goal) (p : Place) :
    (a ++ b).scan goal p = b.scan (a.goalBehind goal) (a.scan goal p) := by
  unfold scan
  rw [tagged_append, Lexical.scan_append]

/-- A level changes nothing but the goal in front. -/
theorem scan_nest (d : Doc) : (nest d).scan goal p = d.scan .operator p := by
  unfold scan tagged
  rw [steps, Step.tagged, Step.tagged_append, Lexical.scan_append, Lexical.scan_append]
  rfl

theorem scan_text (s : String) :
    (text s).scan goal p = Lexical.scan p (under goal s.toList) := by
  simp [scan, tagged, steps, Step.tagged, Step.chars]

theorem staysInCode_of_isCodeText {s : String} (h : isCodeText s = true) :
    (text s).StaysInCode := by
  intro goal braces
  rw [scan_text]
  exact Lexical.scan_code (List.all_eq_true.mp h)

theorem StaysInCode.append {a b : Doc} (ha : a.StaysInCode) (hb : b.StaysInCode) :
    (a ++ b).StaysInCode := by
  intro goal braces
  rw [scan_append, ha]
  exact hb _ _

/-- **Documents that stay in code are phrases** of the reader of code, literals and
comments. -/
theorem phrasing_staysInCode : Phrasing StaysInCode where
  congr hsteps hd goal braces := by
    unfold scan tagged
    rw [← hsteps]
    exact hd goal braces
  silent {d} hsilent goal braces := by
    have hnil : d.tagged goal = [] := by
      rw [← List.map_eq_nil_iff, tagged_fst, hsilent]
    rw [scan, hnil]
    rfl
  append := StaysInCode.append
  nest hd goal braces := by
    rw [scan_nest]
    exact hd _ _
  plain h := staysInCode_of_isCodeText (Lexical.isCodeText_of_isPlainText h)
  parens hd :=
    ((staysInCode_of_isCodeText (by decide)).append hd).append (staysInCode_of_isCodeText (by decide))
  square hd :=
    ((staysInCode_of_isCodeText (by decide)).append hd).append (staysInCode_of_isCodeText (by decide))
  emptyParens := staysInCode_of_isCodeText (by decide)
  -- the brace that opens is counted, and the one that closes it is taken off
  braces {d} hd goal braces := by
    have hopening : (text "\x7b").scan goal (code braces) = code (openBrace braces) := rfl
    change (text "\x7b" ++ d ++ text "\x7d").scan goal (code braces) = code braces
    rw [scan_append, scan_append, hopening, hd]
    cases braces <;> rfl

end Doc

end EcmaPrinter
