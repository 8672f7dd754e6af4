/-
# Line breaks of literals

In formatted text an array or object literal breaks lines where its source did, as far as the
lines tell on which its nodes start. Behind the opening bracket there is a break iff the literal
and its first element start on different lines, and between two elements iff these do. In front
of the closing bracket there is a break iff the literal and its last element start on different
lines (`literals_break_where_starts_differ`); on which lines they end does not matter, not even
there (`closing_break_ignores_stops`).

A literal is told part by part (`literalParts`): its brackets, commas, breaks and blanks, the
level that its elements are deeper, and each element as a whole. A break is a real one, also
behind the opening bracket, because the bracket is written by then.

Key definitions: `ListPart`, `Printer.putAll`, `literalParts`.
Key theorems: `Doc.Sets.append`, `Doc.sets_listBody`, `literals_break_where_starts_differ`.
-/
import EcmaPrinter.Proofs.Emit.Elisions
import EcmaPrinter.Proofs.Layout.Written

namespace EcmaPrinter

open Doc Emit

/-- What a literal is made of, in the order in which it is written. -/
inductive ListPart (c : Category) where
  | text (s : String)
  | lineBreak
  | blank
  /-- What follows is one level deeper. -/
  | enter
  | leave
  | element (n : Node c)

variable {c : Category}

namespace Printer

/-- The printer after a part. A line break is always one; an element writes what it does at
this place. -/
def put (p : Printer) : ListPart c → Printer
  | .text s => p.updateWriter fun w => w.write s
  | .lineBreak => p.updateWriter Writer.hardLine
  | .blank => p.updateWriter Writer.space
  | .enter => deeper p
  | .leave => shallower p
  | .element n => (n.emit.run p).1

/-- The printer after some parts. -/
def putAll (p : Printer) (parts : List (ListPart c)) : Printer := parts.foldl put p

theorem putAll_append (p : Printer) (parts others : List (ListPart c)) :
    p.putAll (parts ++ others) = (p.putAll parts).putAll others :=
  List.foldl_append

end Printer

/-! ### The parts of a literal -/

/-- Two nodes start on different lines. -/
def Span.startsApart (s t : Span) : Bool := s.startLine != t.startLine

/-- Two nodes end on different lines. -/
def Span.stopsApart (s t : Span) : Bool := s.stopLine != t.stopLine

/-- What stands at a place where a line may be broken. -/
def gapParts (isBroken isSpaced : Bool) : List (ListPart c) :=
  if isBroken then [.lineBreak] else if isSpaced then [.blank] else []

/-- The elements behind the one that has the span `previous`. -/
def restParts (previous : Span) : List (Node c) → List (ListPart c)
  | [] => []
  | n :: ns =>
    .text "," :: gapParts (previous.startsApart n.span) true
      ++ .element n :: restParts n.span ns

/-- The elements of a literal with what stands around and between them, broken where start
lines differ. Whether a line is broken behind the last element is told by `breaksLast` from the
literal and that element. -/
def innerParts (isSpaced : Bool) (breaksLast : Span → Span → Bool) (parent : Span)
    (first : Node c) (rest : List (Node c)) : List (ListPart c) :=
  gapParts (parent.startsApart first.span) isSpaced
    ++ (.enter :: .element first :: restParts first.span rest ++ [.leave])
    ++ gapParts (breaksLast parent (rest.getLastD first).span) isSpaced

/-- A literal: its elements in brackets. -/
def literalParts (opening closing : String) (isSpaced : Bool) (breaksLast : Span → Span → Bool)
    (parent : Span) (first : Node c) (rest : List (Node c)) : List (ListPart c) :=
  .text opening :: innerParts isSpaced breaksLast parent first rest ++ [.text closing]

/-- An array literal, with no blanks inside its brackets. -/
def arrayParts (breaksLast : Span → Span → Bool) :=
  literalParts (c := .argument) "[" "]" false breaksLast

/-- An object literal, with blanks inside its braces where no line is broken. -/
def objectParts (breaksLast : Span → Span → Bool) :=
  literalParts (c := .objectMember) "\x7b" "\x7d" true breaksLast

/-! ### Open texts -/

/-- A formatted text has been begun, and there are no comments to write. -/
structure Printer.IsOpen (p : Printer) : Prop where
  isPretty : p.writer.isPretty = true
  comments : p.comments = none
  output : p.output.toList ≠ []

namespace Printer.IsOpen

variable {p : Printer}

theorem step (h : p.IsOpen) (s : Step) : (p.step s).IsOpen := by
  have hsetup := step_sameSetup p s
  refine ⟨hsetup.isPretty.trans h.isPretty, hsetup.comments.trans h.comments, ?_⟩
  rw [step_output]
  exact List.append_ne_nil_of_left_ne_nil h.output _

theorem perform : ∀ (ss : List Step) {p : Printer}, p.IsOpen → (p.perform ss).IsOpen
  | [], _, h => h
  | s :: ss, _, h => perform ss (h.step s)

/-- **A text that is open stays open.** -/
theorem run (h : p.IsOpen) (d : Doc) : (d.run p).1.IsOpen := by
  rw [run_steps]
  exact h.perform _

/-- A line break of a text that has been begun is a real one. -/
theorem softLine (h : p.IsOpen) : p.writer.softLine = p.writer.hardLine := by
  have hbegun : p.writer.isEmpty = false := by
    have := h.output
    simpa [Writer.isEmpty, Printer.output] using this
  simp [Writer.softLine, h.isPretty, hbegun]

theorem softSpace (h : p.IsOpen) : p.writer.softSpace = p.writer.space := if_pos h.isPretty

theorem writeComments (h : p.IsOpen) (span : Span) : p.writeComments span = p :=
  writeComments_eq (.inl h.comments) span

end Printer.IsOpen

/-- What is written behind a first text. -/
theorem Printer.isOpen_write {p : Printer} (hpretty : p.writer.isPretty = true)
    (hcomments : p.comments = none) {s : String} (hs : s ≠ "") : (p.step (.text s)).IsOpen := by
  have hsetup := step_sameSetup p (.text s)
  refine ⟨hsetup.isPretty.trans hpretty, hsetup.comments.trans hcomments, ?_⟩
  rw [step_output]
  refine List.append_ne_nil_of_right_ne_nil _ ?_
  simp [piece, Piece.text, Writer.added, hs]

/-! ### Documents of parts -/

namespace Doc

/-- In an open text, a document that does not fail writes some parts. -/
def Sets (d : Doc) (parts : List (ListPart c)) : Prop :=
  d.failure? = none → ∀ p : Printer, p.IsOpen → (d.run p).1 = p.putAll parts

variable {a b : Doc} {parts others : List (ListPart c)}

theorem Sets.append (ha : a.Sets parts) (hb : b.Sets others) : (a ++ b).Sets (parts ++ others) := by
  intro hd p hp
  obtain ⟨hda, hdb⟩ := Option.or_eq_none_iff.mp hd
  rw [run_append_done b hda, hb hdb _ (hp.run a), ha hda p hp, Printer.putAll_append]

theorem sets_empty : (empty).Sets ([] : List (ListPart c)) := fun _ _ _ => rfl

theorem sets_text (s : String) : (text s).Sets [(.text s : ListPart c)] := fun _ _ _ => rfl

theorem sets_breakOr (isBroken isSpaced : Bool) :
    (breakOr isBroken isSpaced).Sets (gapParts isBroken isSpaced : List (ListPart c)) := by
  intro _ p hp
  cases isBroken with
  | true => exact congrArg (fun w => { p with writer := w }) hp.softLine
  | false =>
    cases isSpaced with
    | true => exact congrArg (fun w => { p with writer := w }) hp.softSpace
    | false => rfl

theorem Sets.nest (h : a.Sets parts) : (nest a).Sets (.enter :: parts ++ [.leave]) := by
  intro hd p hp
  have hrun : (a.run (deeper p)).1 = (deeper p).putAll parts :=
    h hd (deeper p) ⟨hp.isPretty, hp.comments, hp.output⟩
  have hdepth : (a.run (deeper p)).1.writer.indent = p.writer.indent + 1 :=
    run_indent (d := a) hd (deeper p)
  rw [run_nest_done hp.isPretty ((run_failure a _).trans hd) (by omega), hrun,
    Printer.putAll_append]
  rfl

end Doc

/-! ### Lists that keep the lines of their source -/

/-- What the formats of array and object literals have in common. -/
structure ListFormat.IsLiteral (f : ListFormat) : Prop where
  lines : f.lines = .preserve
  delimiter : f.delimiter = .comma
  isIndented : f.isIndented = true
  spaceBetweenSiblings : f.spaceBetweenSiblings = true
  isOptionalIfEmpty : f.isOptionalIfEmpty = false
  prefersNewLine : f.prefersNewLine = false
  noInterveningComments : f.noInterveningComments = false

/-- The item of a list that a node is. -/
def Node.item (n : Node c) : Item := ⟨n.span, n.emit⟩

theorem lastSpan_map (first : Node c) : ∀ rest : List (Node c),
    lastSpan first.span (rest.map Node.item) = (rest.getLastD first).span
  | [] => rfl
  | n :: ns => by
    rw [List.getLastD_cons, ← lastSpan_map n ns]
    rfl

namespace ListFormat.IsLiteral

variable {f : ListFormat}

/-- **Lines are broken between two places of the source that start apart.** -/
theorem sourceBreaks (h : f.IsLiteral) {s t : Span} (hs : s.isSynthesized = false)
    (ht : t.isSynthesized = false) : f.sourceBreaks s t = s.startsApart t := by
  rw [ListFormat.sourceBreaks, h.prefersNewLine, hs, ht]
  rfl

theorem sets_listItem (h : f.IsLiteral) (n : Node c) :
    (listItem f n.item).Sets [.element n] := by
  intro _ p hp
  rw [listItem, h.noInterveningComments]
  change ((comments n.span ++ n.emit).run p).1 = _
  rw [run_append_done _ rfl]
  exact congrArg (fun q => (n.emit.run q).1) (hp.writeComments n.span)

theorem sets_listTail (h : f.IsLiteral) : ∀ {previous : Span} {rest : List (Node c)},
    previous.isSynthesized = false → (∀ n ∈ rest, n.span.isSynthesized = false) →
    (listTail f previous (rest.map Node.item)).Sets (restParts previous rest)
  | _, [], _, _ => sets_empty
  | previous, n :: ns, hprevious, hrest => by
    obtain ⟨hn, hns⟩ := List.forall_mem_cons.mp hrest
    have hbreaks : f.breaksBetween previous n.span = previous.startsApart n.span := by
      rw [breaksBetween, h.lines]
      exact h.sourceBreaks hprevious hn
    have hcomma : (text f.delimiter.text).Sets [(.text "," : ListPart c)] := by
      rw [h.delimiter]
      exact sets_text ","
    have hgap : (breakOr (f.breaksBetween previous n.span) f.spaceBetweenSiblings).Sets
        (gapParts (previous.startsApart n.span) true : List (ListPart c)) := by
      rw [hbreaks, h.spaceBetweenSiblings]
      exact sets_breakOr _ _
    have hall := ((hcomma.append hgap).append (h.sets_listItem n)).append
      (h.sets_listTail hn hns)
    rw [List.append_assoc] at hall
    exact hall

theorem sets_listBody (h : f.IsLiteral) {parent : Span} {first : Node c} {rest : List (Node c)}
    (hparent : parent.isSynthesized = false)
    (hnodes : ∀ n ∈ first :: rest, n.span.isSynthesized = false) :
    (listBody parent f ((first :: rest).map Node.item)).Sets
      (innerParts f.spaceBetweenBraces Span.startsApart parent first rest) := by
  obtain ⟨hfirst, hrest⟩ := List.forall_mem_cons.mp hnodes
  have hlast := hnodes (rest.getLastD first) List.getLastD_mem_cons
  have hopens : f.breaksBeforeFirst parent first.span = parent.startsApart first.span := by
    rw [breaksBeforeFirst, h.lines]
    exact h.sourceBreaks hparent hfirst
  have hcloses : f.breaksAfterLast parent (lastSpan first.span (rest.map Node.item)) =
      parent.startsApart (rest.getLastD first).span := by
    rw [breaksAfterLast, h.lines, lastSpan_map]
    exact h.sourceBreaks hparent hlast
  have hitems := (h.sets_listItem first).append (h.sets_listTail hfirst hrest)
  have hbody := ((sets_breakOr (parent.startsApart first.span) f.spaceBetweenBraces).append
    hitems.nest).append
      (sets_breakOr (parent.startsApart (rest.getLastD first).span) f.spaceBetweenBraces)
  have hdoc : listBody parent f ((first :: rest).map Node.item) =
      breakOr (f.breaksBeforeFirst parent first.span) f.spaceBetweenBraces
        ++ nest (listItem f first.item ++ listTail f first.span (rest.map Node.item))
        ++ breakOr (f.breaksAfterLast parent (lastSpan first.span (rest.map Node.item)))
          f.spaceBetweenBraces := by
    rw [List.map_cons, listBody, h.isIndented, if_pos rfl]
    rfl
  rw [hdoc, hopens, hcloses]
  exact hbody

/-- **A list that keeps the lines of its source** writes its brackets and, between them, its
elements with breaks where start lines differ. -/
theorem run_list (h : f.IsLiteral) {opening closing : String}
    (hopening : f.brackets.opening = some opening) (hclosing : f.brackets.closing = some closing)
    (hne : opening ≠ "") {parent : Span} {first : Node c} {rest : List (Node c)}
    (hparent : parent.isSynthesized = false)
    (hnodes : ∀ n ∈ first :: rest, n.span.isSynthesized = false) {p : Printer}
    (hpretty : p.writer.isPretty = true) (hcomments : p.comments = none)
    (hdone : (list parent f ((first :: rest).map Node.item)).failure? = none) :
    ((list parent f ((first :: rest).map Node.item)).run p).1 =
      p.putAll (literalParts opening closing f.spaceBetweenBraces Span.startsApart parent first
        rest) := by
  have hlist : list parent f ((first :: rest).map Node.item) =
      text opening ++ listBody parent f ((first :: rest).map Node.item) ++ text closing := by
    rw [list, h.isOptionalIfEmpty, Bool.and_false, if_neg Bool.false_ne_true, hopening, hclosing]
    rfl
  rw [hlist] at hdone ⊢
  obtain ⟨hdone, -⟩ := Option.or_eq_none_iff.mp hdone
  obtain ⟨-, hbody⟩ := Option.or_eq_none_iff.mp hdone
  have hopen := Printer.isOpen_write hpretty hcomments hne
  rw [run_append_done _ hdone, run_append_done _ rfl]
  have hrun := h.sets_listBody hparent hnodes hbody _ hopen
  rw [literalParts, Printer.putAll_append]
  exact congrArg (fun q => ((text closing).run q).1) hrun

end ListFormat.IsLiteral

/-! ### Literals -/

theorem isLiteral_array : ListFormat.arrayLiteralExpressionElements.IsLiteral :=
  ⟨rfl, rfl, rfl, rfl, rfl, rfl, rfl⟩

theorem isLiteral_object : ListFormat.objectLiteralExpressionProperties.IsLiteral :=
  ⟨rfl, rfl, rfl, rfl, rfl, rfl, rfl⟩

theorem closeHole_false : ∀ items : List Item, closeHole false items = items
  | [] | [_] => rfl
  | item :: next :: items => congrArg (item :: ·) (closeHole_false (next :: items))

/-- An array whose places all have elements does not end with a hole. -/
theorem endsWithHole_eq_false {elements : Nodes (.opt c)} {nodes : List (Node c)}
    (h : elements.toList = nodes.map .present) : endsWithHole elements = false := by
  rw [endsWithHole, h, List.getLast?_map]
  cases nodes.getLast? <;> rfl

theorem Nodes.items_of_present {elements : Nodes (.opt c)} {nodes : List (Node c)}
    (h : elements.toList = nodes.map .present) : elements.items = nodes.map Node.item := by
  rw [elements.items_eq_map, h, List.map_map]
  rfl

/-- **Literals are broken where the source broke them, as the lines tell on which nodes start.**
In formatted text without comments, an array without holes and an object are written as their
parts, if they and their elements have places in the source: a line break stands behind the
opening bracket iff the literal and its first element start on different lines, between two
elements iff these do, and in front of the closing bracket iff the literal and its last element
do. -/
theorem literals_break_where_starts_differ {p : Printer} (hpretty : p.writer.isPretty = true)
    (hcomments : p.comments = none) {span : Span} (hspan : span.isSynthesized = false) :
    (∀ (elements : Nodes (.opt .argument)) (first : Node .argument)
      (rest : List (Node .argument)),
      elements.toList = (first :: rest).map .present →
      (∀ n ∈ first :: rest, n.span.isSynthesized = false) →
      ((Node.array span elements).emit.run p).2 = none →
      ((Node.array span elements).emit.run p).1 =
        (p.mark span).putAll (arrayParts Span.startsApart span first rest)) ∧
    ∀ (members : Nodes .objectMember) (first : Node .objectMember)
      (rest : List (Node .objectMember)),
      members.toList = first :: rest →
      (∀ n ∈ first :: rest, n.span.isSynthesized = false) →
      ((Node.object span members).emit.run p).2 = none →
      ((Node.object span members).emit.run p).1 =
        (p.mark span).putAll (objectParts Span.startsApart span first rest) := by
  have hsetup := Printer.mark_sameSetup p span
  have hpretty := hsetup.isPretty.trans hpretty
  have hcomments := hsetup.comments.trans hcomments
  constructor
  · intro elements first rest helements hnodes hdone
    rw [run_failure] at hdone
    obtain ⟨-, hlist⟩ := Option.or_eq_none_iff.mp hdone
    have hitems : closeHole (endsWithHole elements) elements.items =
        (first :: rest).map Node.item := by
      rw [endsWithHole_eq_false helements, closeHole_false, Nodes.items_of_present helements]
    rw [hitems] at hlist
    have hemit : (Node.array span elements).emit = mark span
        ++ list span ListFormat.arrayLiteralExpressionElements ((first :: rest).map Node.item) := by
      rw [← hitems]
      rfl
    rw [hemit, run_append_done _ rfl]
    exact isLiteral_array.run_list rfl rfl (by decide) hspan hnodes hpretty hcomments hlist
  · intro members first rest hmembers hnodes hdone
    rw [run_failure] at hdone
    obtain ⟨-, hlist⟩ := Option.or_eq_none_iff.mp hdone
    have hitems : members.items = (first :: rest).map Node.item := by
      rw [members.items_eq_map, hmembers]
      rfl
    rw [hitems] at hlist
    have hemit : (Node.object span members).emit = mark span
        ++ list span ListFormat.objectLiteralExpressionProperties
          ((first :: rest).map Node.item) := by
      rw [← hitems]
      rfl
    rw [hemit, run_append_done _ rfl]
    exact isLiteral_object.run_list rfl rfl (by decide) hspan hnodes hpretty hcomments hlist

/-- A name on a line. -/
def nameOn (line : UInt32) (name : String) : Node .argument :=
  .plainArgument (.ident ⟨.ofLines 0 1 line line, name, false, none⟩)

/-- A member on a line. -/
def memberOn (line : UInt32) (name : String) : Node .objectMember :=
  .propertyMember (.shorthand ⟨.ofLines 0 1 line line, name, false, none⟩)

theorem literals_broken_once :
    ((Printer.new {}).putAll (arrayParts Span.startsApart (.ofLines 0 9 1 2) (nameOn 1 "a")
        [nameOn 1 "b", nameOn 2 "c"])).output = "[a, b,\n    c\n]" ∧
      ((Printer.new {}).putAll (objectParts Span.startsApart (.ofLines 0 9 1 2) (memberOn 1 "a")
        [memberOn 1 "b", memberOn 2 "c"])).output = "\x7b a, b,\n    c\n\x7d" := by
  have hspan : (Span.ofLines 0 9 1 2).isSynthesized = false := rfl
  have hliterals := literals_break_where_starts_differ (p := .new {}) rfl rfl hspan
  have harray := hliterals.1
    (.cons (.present (nameOn 1 "a")) (.cons (.present (nameOn 1 "b"))
      (.cons (.present (nameOn 2 "c")) .nil)))
    (nameOn 1 "a") [nameOn 1 "b", nameOn 2 "c"] rfl (by decide) rfl
  have hobject := hliterals.2
    (.cons (memberOn 1 "a") (.cons (memberOn 1 "b") (.cons (memberOn 2 "c") .nil)))
    (memberOn 1 "a") [memberOn 1 "b", memberOn 2 "c"] rfl (by decide) rfl
  exact ⟨(congrArg Printer.output harray).symm.trans (by decide),
    (congrArg Printer.output hobject).symm.trans (by decide)⟩

/-- **The lines on which nodes end do not decide.** An array that ends on the line of its last
element is broken in front of its closing bracket all the same, because it starts on another
line. -/
theorem closing_break_ignores_stops :
    ¬ ∀ (p : Printer), p.writer.isPretty = true → p.comments = none →
      ∀ (span : Span) (elements : Nodes (.opt .argument)) (first : Node .argument)
        (rest : List (Node .argument)),
        span.isSynthesized = false → elements.toList = (first :: rest).map .present →
        (∀ n ∈ first :: rest, n.span.isSynthesized = false) →
        ((Node.array span elements).emit.run p).2 = none →
        ((Node.array span elements).emit.run p).1.output =
          ((p.mark span).putAll (arrayParts Span.stopsApart span first rest)).output := by
  intro h
  have hclaimed := h (.new {}) rfl rfl (.ofLines 0 6 1 2)
    (.cons (.present (nameOn 1 "a")) (.cons (.present (nameOn 2 "b")) .nil))
    (nameOn 1 "a") [nameOn 2 "b"] rfl rfl (by decide) rfl
  revert hclaimed
  decide

end EcmaPrinter
