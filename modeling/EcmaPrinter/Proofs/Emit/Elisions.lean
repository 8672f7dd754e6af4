/-
# Holes of arrays

Between the brackets of an array, commas and elements tell its length: a comma with no
element in front of it is a hole, and a comma behind an element ends that element. Read by
this rule (`readElements`), what an array literal or an array pattern writes gives its
elements back, holes included (`array_elements_read_back`).

A list writes a comma between any two of its items, of which a hole has no text. That is
one comma too few only where the last item is a hole, which then writes its own
(`Emit.closeHole`). The elements themselves are opaque: whatever each of them writes at
its place is one token.

Key definitions: `ElementToken`, `readElements`, `Writes`, `slots`.
Key theorems: `readElements_joinSlots`, `writesElements_list`, `array_elements_read_back`.
-/
import EcmaPrinter.Proofs.Emit.Atoms
import EcmaPrinter.Proofs.Layout.Steps
import Mathlib.Data.List.Forall2

namespace EcmaPrinter

open Doc Emit

/-! ### Reading elements -/

/-- What stands between the brackets of an array: commas, and elements as wholes. -/
inductive ElementToken (c : Category) where
  | comma
  | element (n : Node c)

variable {c : Category}

/-- The elements that some tokens stand for. Two elements need a comma between them. -/
def readElements : List (ElementToken c) → Option (List (Node (.opt c)))
  | [] => some []
  | .comma :: ts => (readElements ts).map (.absent :: ·)
  | [.element n] => some [.present n]
  | .element n :: .comma :: ts => (readElements ts).map (.present n :: ·)
  | .element _ :: .element _ :: _ => none

/-- The tokens at the place of an element, of which a hole has none. -/
def slot : Node (.opt c) → List (ElementToken c)
  | .absent => []
  | .present n => [.element n]

/-- The tokens at the last place, where a hole is a comma. -/
def lastSlot : Node (.opt c) → List (ElementToken c)
  | .absent => [.comma]
  | .present n => [.element n]

/-- The tokens at the places of some elements. -/
def slots : List (Node (.opt c)) → List (List (ElementToken c))
  | [] => []
  | [n] => [lastSlot n]
  | n :: m :: ns => slot n :: slots (m :: ns)

/-- The tokens at some places, with commas between the places. -/
def joinSlots : List (List (ElementToken c)) → List (ElementToken c)
  | [] => []
  | first :: rest => first ++ rest.flatMap (.comma :: ·)

theorem slots_ne_nil : ∀ (n : Node (.opt c)) (ns : List (Node (.opt c))), slots (n :: ns) ≠ []
  | _, [] | _, _ :: _ => nofun

theorem joinSlots_cons (first : List (ElementToken c)) :
    ∀ {rest : List (List (ElementToken c))}, rest ≠ [] →
      joinSlots (first :: rest) = first ++ .comma :: joinSlots rest
  | [], h => absurd rfl h
  | _ :: _, _ => rfl

/-- What is read behind a place and its comma. -/
theorem readElements_slot (n : Node (.opt c)) (ts : List (ElementToken c)) :
    readElements (slot n ++ .comma :: ts) = (readElements ts).map (n :: ·) := by
  cases n <;> rfl

theorem readElements_lastSlot (n : Node (.opt c)) : readElements (lastSlot n) = some [n] := by
  cases n <;> rfl

/-- **Elements are read back from the tokens at their places.** -/
theorem readElements_joinSlots : ∀ ns : List (Node (.opt c)),
    readElements (joinSlots (slots ns)) = some ns
  | [] => rfl
  | [n] => by
    rw [slots, joinSlots, List.flatMap_nil, List.append_nil]
    exact readElements_lastSlot n
  | n :: m :: ns => by
    rw [slots, joinSlots_cons _ (slots_ne_nil m ns), readElements_slot,
      readElements_joinSlots (m :: ns)]
    rfl

/-! ### Writing tokens -/

/-- A step that writes blanks, line breaks or comments, or nothing. -/
def Step.isSilent : Step → Bool
  | .softSpace | .softLine | .mark _ | .comments _ | .enter | .leave => true
  | .text _ | .compactLine | .fail _ => false

/-- A printer comes to another one by writing some tokens, with any layout around them.
An element is what its node writes, as a whole and without an error. -/
inductive Writes {c : Category} : Printer → List (ElementToken c) → Printer → Prop
  | done (p : Printer) : Writes p [] p
  | silent {p q : Printer} {ts : List (ElementToken c)} {s : Step} (hs : s.isSilent = true)
      (h : Writes (p.step s) ts q) : Writes p ts q
  | comma {p q : Printer} {ts : List (ElementToken c)} (h : Writes (p.step (.text ",")) ts q) :
      Writes p (.comma :: ts) q
  | element {p q : Printer} {ts : List (ElementToken c)} (n : Node c)
      (hn : (n.emit.run p).2 = none) (h : Writes (n.emit.run p).1 ts q) :
      Writes p (.element n :: ts) q

theorem Writes.append {p q r : Printer} {ts us : List (ElementToken c)} (h : Writes p ts q)
    (h' : Writes q us r) : Writes p (ts ++ us) r := by
  induction h with
  | done => exact h'
  | silent hs _ ih => exact .silent hs (ih h')
  | comma _ ih => exact .comma (ih h')
  | element n hn _ ih => exact .element n hn (ih h')

namespace Doc

/-- A document writes some tokens, at any printer, where it does not fail. -/
def Spells (d : Doc) (ts : List (ElementToken c)) : Prop :=
  d.failure? = none → ∀ p : Printer, Writes p ts (p.perform d.steps)

variable {a b : Doc} {ts us : List (ElementToken c)}

theorem Spells.append (ha : a.Spells ts) (hb : b.Spells us) : (a ++ b).Spells (ts ++ us) := by
  intro hd p
  obtain ⟨hda, hdb⟩ := Option.or_eq_none_iff.mp hd
  rw [steps_append, Printer.perform_append]
  exact (ha hda p).append (hb hdb _)

theorem spells_empty : (empty).Spells ([] : List (ElementToken c)) := fun _ p => .done p

theorem Spells.behind (ha : a.Spells ([] : List (ElementToken c))) (hb : b.Spells us) :
    (a ++ b).Spells us :=
  ha.append hb

theorem Spells.before (ha : a.Spells ts) (hb : b.Spells ([] : List (ElementToken c))) :
    (a ++ b).Spells ts := by
  simpa using ha.append hb

theorem spells_softSpace : softSpace.Spells ([] : List (ElementToken c)) :=
  fun _ _ => .silent (s := .softSpace) rfl (.done _)

theorem spells_softLine : softLine.Spells ([] : List (ElementToken c)) :=
  fun _ _ => .silent (s := .softLine) rfl (.done _)

theorem spells_comments (span : Span) : (comments span).Spells ([] : List (ElementToken c)) :=
  fun _ _ => .silent (s := .comments span) rfl (.done _)

theorem spells_comma : (text ",").Spells [(.comma : ElementToken c)] :=
  fun _ _ => .comma (.done _)

theorem spells_when (b : Bool) {d : Doc} (h : d.Spells ([] : List (ElementToken c))) :
    (when b d).Spells ([] : List (ElementToken c)) := by
  cases b
  · exact spells_empty
  · exact h

theorem spells_breakOr (isBroken isSpaced : Bool) :
    (breakOr isBroken isSpaced).Spells ([] : List (ElementToken c)) := by
  cases isBroken
  · exact spells_when isSpaced spells_softSpace
  · exact spells_softLine

theorem Spells.nest (h : a.Spells ts) : (nest a).Spells ts := by
  intro hd p
  have hbody := h hd (p.step .enter)
  have hleave : Writes ((p.step .enter).perform a.steps) ([] : List (ElementToken c))
      (((p.step .enter).perform a.steps).step .leave) := .silent (s := .leave) rfl (.done _)
  change Writes p ts ((p.step .enter).perform (a.steps ++ [.leave]))
  rw [Printer.perform_append]
  exact .silent (s := .enter) rfl (by simpa using hbody.append hleave)

theorem spells_emit (n : Node c) : n.emit.Spells [.element n] := by
  intro hd p
  rw [← run_steps_done hd]
  exact .element n ((run_failure n.emit p).trans hd) (.done _)

/-! ### Lists -/

variable {f : ListFormat}

theorem spells_listItem {item : Item} (h : item.doc.Spells ts) : (listItem f item).Spells ts :=
  (spells_when _ (spells_comments item.span)).behind h

theorem spells_listTail (hf : f.delimiter = .comma) : ∀ {items : List Item}
    {tss : List (List (ElementToken c))} (previous : Span),
    List.Forall₂ (fun item ts => item.doc.Spells ts) items tss →
    (listTail f previous items).Spells (tss.flatMap (.comma :: ·))
  | _, _, _, .nil => spells_empty
  | item :: items, ts :: tss, previous, .cons hitem hitems => by
    have hcomma : (text f.delimiter.text).Spells [(.comma : ElementToken c)] := by
      rw [hf]
      exact spells_comma
    exact ((hcomma.before (spells_breakOr _ _)).append (spells_listItem hitem)).append
      (spells_listTail hf item.span hitems)

/-- **A list writes the tokens of its items with commas between them.** -/
theorem spells_listBody (hf : f.delimiter = .comma) (parent : Span) {items : List Item}
    {tss : List (List (ElementToken c))}
    (h : List.Forall₂ (fun item ts => item.doc.Spells ts) items tss) :
    (listBody parent f items).Spells (joinSlots tss) := by
  cases h with
  | nil =>
    cases hlines : f.isMultiLine with
    | true => simpa [listBody, hlines, joinSlots] using spells_softLine
    | false => simpa [listBody, hlines, joinSlots] using spells_when _ spells_softSpace
  | @cons item ts items tss hitem hitems =>
    have hinner := (spells_listItem (f := f) hitem).append (spells_listTail hf item.span hitems)
    refine ((spells_breakOr _ _).behind ?_).before (spells_breakOr _ _)
    cases f.isIndented
    · exact hinner
    · exact hinner.nest

end Doc

/-! ### Elements -/

theorem Nodes.items_eq_map : ∀ {c : Category} (ns : Nodes c),
    ns.items = ns.toList.map fun n => ⟨n.span, n.emit⟩
  | _, .nil => rfl
  | _, .cons n ns => congrArg (Item.mk n.span n.emit :: ·) ns.items_eq_map

/-- An element writes the tokens at its place. -/
theorem spells_slot (n : Node (.opt c)) : n.emit.Spells (slot n) := by
  cases n with
  | absent => exact spells_empty
  | present n => exact spells_emit n

/-- The items of an array write the tokens at the places of its elements. -/
theorem spells_slots : ∀ ns : List (Node (.opt c)),
    List.Forall₂ (fun item ts => item.doc.Spells ts)
      (closeHole (match ns.getLast? with | some .absent => true | _ => false)
        (ns.map fun n => ⟨n.span, n.emit⟩)) (slots ns)
  | [] => .nil
  | [.absent] => .cons spells_comma .nil
  | [.present n] => .cons (spells_emit n) .nil
  | n :: m :: ns => .cons (spells_slot n) (spells_slots (m :: ns))

/-- Where brackets and elements are written, what stands between the brackets is read
back as the elements. -/
def WritesElements (start : Printer) (elements : Nodes (.opt c)) (stop : Printer) : Prop :=
  ∃ tokens q, Writes (start.step (.text "[")) tokens q ∧ stop = q.step (.text "]") ∧
    readElements tokens = some elements.toList

theorem writesElements_list {f : ListFormat} (hd : f.delimiter = .comma)
    (hb : f.brackets = .square) (ho : f.isOptionalIfEmpty = false) (parent : Span)
    (elements : Nodes (.opt c))
    (hdone : (list parent f (closeHole (endsWithHole elements) elements.items)).failure? = none)
    (p : Printer) :
    WritesElements p elements
      (p.perform (list parent f (closeHole (endsWithHole elements) elements.items)).steps) := by
  have hbody : (listBody parent f (closeHole (endsWithHole elements) elements.items)).Spells
      (joinSlots (slots elements.toList)) := by
    rw [Nodes.items_eq_map]
    exact spells_listBody hd parent (spells_slots elements.toList)
  have hlist : list parent f (closeHole (endsWithHole elements) elements.items) =
      text "[" ++ listBody parent f (closeHole (endsWithHole elements) elements.items)
        ++ text "]" := by
    rw [list, ho, Bool.and_false, if_neg Bool.false_ne_true, hb]
    rfl
  rw [hlist] at hdone ⊢
  obtain ⟨hdone, -⟩ := Option.or_eq_none_iff.mp hdone
  refine ⟨_, _, hbody (Option.or_eq_none_iff.mp hdone).2 (p.step (.text "[")), ?_,
    readElements_joinSlots _⟩
  rw [steps_append, Printer.perform_append, steps_append, Printer.perform_append]
  rfl

/-- **The length, the holes and the elements of an array survive printing**: for array
literals and array patterns, at any printer. -/
theorem array_elements_read_back :
    (∀ (span : Span) (elements : Nodes (.opt .argument)) (p : Printer),
      ((Node.array span elements).emit.run p).2 = none →
      WritesElements (p.step (.mark span)) elements ((Node.array span elements).emit.run p).1) ∧
    ∀ (span : Span) (elements : Nodes (.opt .pattern)) (typing : Option Opaque) (p : Printer),
      ((Node.arrayPattern span elements typing).emit.run p).2 = none →
      WritesElements (p.step (.mark span)) elements
        ((Node.arrayPattern span elements typing).emit.run p).1 := by
  constructor
  · intro span elements p h
    have hdone : (Node.array span elements).emit.failure? = none := (run_failure _ p).symm.trans h
    rw [run_steps_done hdone]
    exact writesElements_list rfl rfl rfl span elements (Option.or_eq_none_iff.mp hdone).2 _
  · intro span elements typing p h
    have hdone : (Node.arrayPattern span elements typing).emit.failure? = none :=
      (run_failure _ p).symm.trans h
    rw [run_steps_done hdone]
    cases typing with
    | some typing => cases hdone
    | none =>
      exact writesElements_list rfl rfl rfl span elements (Option.or_eq_none_iff.mp hdone).2 _

/-- The elements of the array `[,x,,]`. -/
def holesAround : Nodes (.opt .argument) :=
  .cons .absent (.cons (.present (.plainArgument (.ident ⟨.dummy, "x", false, none⟩)))
    (.cons .absent .nil))

/-- The elements of the pattern `[,,x]`. -/
def holesInFront : Nodes (.opt .pattern) :=
  .cons .absent (.cons .absent (.cons (.present (.identPattern ⟨.dummy, "x", false, none⟩)) .nil))

theorem holes_read_back :
    ((Node.array .dummy holesAround).emit.run (.new .compact)).1.output = "[,x,,]" ∧
      WritesElements ((Printer.new .compact).step (.mark .dummy)) holesAround
        ((Node.array .dummy holesAround).emit.run (.new .compact)).1 ∧
      ((Node.arrayPattern .dummy holesInFront none).emit.run (.new {})).1.output = "[, , x]" ∧
      WritesElements ((Printer.new {}).step (.mark .dummy)) holesInFront
        ((Node.arrayPattern .dummy holesInFront none).emit.run (.new {})).1 :=
  ⟨rfl, array_elements_read_back.1 .dummy holesAround (.new .compact) rfl,
    rfl, array_elements_read_back.2 .dummy holesInFront none (.new {}) rfl⟩

end EcmaPrinter
