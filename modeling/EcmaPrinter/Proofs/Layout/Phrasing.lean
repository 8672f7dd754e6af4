/-
# Phrases

Readers of a printed text keep an account of it as they go: of the brackets that are
open, or of what is code and what is a literal. A phrase is a document behind which the
account is what it was in front. What is a phrase depends on the reader, but phrases are
put together alike for all of them: they stand side by side, between brackets of one
kind, and one level deeper, and texts without brackets, quotes and slashes go between
them.

So it is told once what documents are phrases for every reader of this kind
(`Phrasing`): lists under any format are, if their items are.

Key definitions: `isPlainText`, `Doc.Phrasing`.
Key theorems: `Doc.Phrasing.list`, `Doc.Phrasing.listIfAny`.
-/
import EcmaPrinter.Proofs.Layout.Written

namespace EcmaPrinter

/-- A character that no reader keeps an account of. -/
def isPlainChar (c : Char) : Bool := !"()[]\x7b\x7d\x22\x27`/".toList.contains c

def isPlainText (s : String) : Bool := s.toList.all isPlainChar

namespace Doc

/-- What is asked of the phrases of a reader. -/
structure Phrasing (P : Doc → Prop) : Prop where
  /-- Only what is written matters. -/
  congr {a b : Doc} : a.steps = b.steps → P a → P b
  silent {d : Doc} : d.steps.flatMap Step.chars = [] → P d
  append {a b : Doc} : P a → P b → P (a ++ b)
  nest {d : Doc} : P d → P (nest d)
  plain {s : String} : isPlainText s = true → P (text s)
  parens {d : Doc} : P d → P (between "(" ")" d)
  square {d : Doc} : P d → P (between "[" "]" d)
  emptyParens : P (text "()")
  braces {d : Doc} : P d → P (between "\x7b" "\x7d" d)

namespace Phrasing

variable {P : Doc → Prop} (h : Phrasing P)
include h

protected theorem empty : P empty := h.silent rfl

protected theorem softSpace : P softSpace := h.silent rfl

protected theorem mark (span : Span) : P (mark span) := h.silent rfl

protected theorem space : P space := h.plain (by decide)

protected theorem when (b : Bool) {d : Doc} (hd : P d) : P (when b d) :=
  iteInduction (fun _ => hd) fun _ => h.empty

protected theorem spaceIf (b : Bool) : P (spaceIf b) :=
  iteInduction (fun _ => h.space) fun _ => h.softSpace

protected theorem check (b : Bool) (error : EmitError) : P (check b error) :=
  iteInduction (fun _ => h.empty) fun _ => h.silent rfl

protected theorem reject (b : Bool) (kind : NodeKind) : P (reject b kind) := h.check _ _

protected theorem breakOr (isBroken isSpaced : Bool) : P (breakOr isBroken isSpaced) :=
  iteInduction (fun _ => h.silent rfl) fun _ => h.when isSpaced h.softSpace

/-! ### Lists -/

section Lists

variable {parent : Span} {f : ListFormat} {items : List Item}

protected theorem listItem {item : Item} (hitem : P item.doc) : P (listItem f item) :=
  h.append (h.when _ (h.silent rfl)) hitem

protected theorem delimiter (delimiter : Delimiter) : P (text delimiter.text) :=
  h.plain (by cases delimiter <;> decide)

protected theorem listTail : ∀ {items : List Item} {previous : Span},
    (∀ item ∈ items, P item.doc) → P (listTail f previous items)
  | [], _, _ => h.empty
  | item :: rest, previous, hitems => by
    obtain ⟨hitem, hrest⟩ := List.forall_mem_cons.mp hitems
    exact h.append
      (h.append (h.append (h.delimiter f.delimiter) (h.breakOr _ _)) (h.listItem hitem))
      (Phrasing.listTail hrest)

protected theorem listBody (hitems : ∀ item ∈ items, P item.doc) : P (listBody parent f items) := by
  cases items with
  | nil => exact iteInduction (fun _ => h.silent rfl) fun _ => h.when _ h.softSpace
  | cons first rest =>
    obtain ⟨hfirst, hrest⟩ := List.forall_mem_cons.mp hitems
    have hinner : P (Doc.listItem f first ++ Doc.listTail f first.span rest) :=
      h.append (h.listItem hfirst) (h.listTail hrest)
    refine h.append (h.append (h.breakOr _ _) ?_) (h.breakOr _ _)
    exact iteInduction (fun _ => h.nest hinner) fun _ => hinner

/-- What stands between the brackets that a list can have. -/
protected theorem brackets (brackets : Brackets) {d : Doc} (hd : P d) :
    P (text (brackets.opening.getD "") ++ d ++ text (brackets.closing.getD "")) := by
  cases brackets with
  | none | angle => exact h.append (h.append (h.plain (by decide)) hd) (h.plain (by decide))
  | parens => exact h.parens hd
  | square => exact h.square hd
  | braces => exact h.braces hd

/-- **A list of phrases is a phrase under every format.** -/
protected theorem list (hitems : ∀ item ∈ items, P item.doc) : P (list parent f items) :=
  iteInduction (fun _ => h.empty) fun _ => h.brackets f.brackets (h.listBody hitems)

protected theorem listIfAny {items : Option (List Item)}
    (hitems : ∀ item ∈ items.getD [], P item.doc) : P (listIfAny parent f items) :=
  iteInduction (fun _ => h.empty) fun _ => h.list hitems

end Lists

end Phrasing

end Doc

end EcmaPrinter
