/-
# A reader of plain parts

The branches of a statement are read back with any reader that passes over the expressions,
heads and labels in it (`branches_read_back`). One such reader takes lexical elements, as
long as each closes no more than was opened: brackets, and a `?` up to its `:`
(`elementReader`). The elements of a plain expression are nested (`Plain.nested`), so it
passes over whatever is printed for plain expressions and labels (`Node.parts_pass`), and
statements of these come back without a word about readers (`plain_branches_read_back`).

Left out are the heads of `for` with declarations, and with `of`, behind which the elements
are read as behind a name.

Key definitions: `deepen`, `skim`, `elementReader`, `Nested`, `Node.hasPlainParts`.
Key theorems: `Plain.nested`, `passOver_of_reads`, `Node.parts_pass`,
`plain_branches_read_back`.
-/
import EcmaPrinter.Proofs.Emit.Branches
import EcmaPrinter.Proofs.Lexical.Expression

namespace EcmaPrinter

open Doc Emit

namespace Lexical

/-! ### Passing over elements -/

/-- What opens something that an element behind it closes. -/
def opening : List Element := [punct "(", punct "[", punct "\x7b", punct "?"]

def closing : List Element := [punct ")", punct "]", punct "\x7d", punct ":"]

/-- How much is open behind an element, unless it closes what is not open. In a statement,
a semicolon closes the statement. -/
def deepen (inStatement : Bool) (depth : Nat) (e : Element) : Option Nat :=
  if opening.contains e then some (depth + 1)
  else if closing.contains e then if depth = 0 then none else some (depth - 1)
  else if depth = 0 && inStatement && e == punct ";" then none
  else some depth

/-- The text from the first element on that closes what is not open. -/
def skim (inStatement : Bool) (depth : Nat) (goal : Goal) (isLineStart : Bool) (cs : List Char) :
    Option (List Char) :=
  match step goal isLineStart cs with
  | .done | .stuck => none
  | .skip isLineStart rest =>
    if rest.length < cs.length then skim inStatement depth goal isLineStart rest else none
  | .element e rest =>
    match deepen inStatement depth e with
    | none => some cs
    | some depth =>
      if rest.length < cs.length then skim inStatement depth (goal.after e) false rest else none
termination_by cs.length

/-- What stands in front of the first element that closes what is not open, and the text
from there on. -/
def passOver (inStatement : Bool) (cs : List Char) : Option (List Char × List Char) :=
  (skim inStatement 0 .operand false cs).map fun rest =>
    (cs.take (cs.length - rest.length), rest)

/-- A reader that passes over elements. -/
def elementReader : PartReader where
  inside := passOver false
  statement := passOver true

/-! ### Nested elements -/

/-- What some elements open they close, and nothing else. -/
def Nested (inStatement : Bool) (es : List Element) : Prop :=
  ∀ depth, es.foldlM (deepen inStatement) depth = some depth

namespace Nested

variable {inStatement : Bool} {es es' : List Element}

theorem nil : Nested inStatement [] := fun _ => rfl

theorem append (h : Nested inStatement es) (h' : Nested inStatement es') :
    Nested inStatement (es ++ es') := by
  intro depth
  rw [List.foldlM_append, h depth]
  exact h' depth

/-- An element that opens and closes nothing. -/
theorem single {e : Element} (h : e ∉ punct ";" :: (opening ++ closing)) :
    Nested inStatement [e] := by
  intro depth
  rw [List.mem_cons, List.mem_append, not_or, not_or] at h
  obtain ⟨hsemicolon, hopening, hclosing⟩ := h
  have hstep : deepen inStatement depth e = some depth := by
    unfold deepen
    rw [if_neg (by simpa using hopening), if_neg (by simpa using hclosing),
      if_neg (by simp [hsemicolon])]
  rw [List.foldlM_cons, hstep]
  rfl

/-- Brackets around nested elements. -/
theorem between {o c : Element} (ho : o ∈ opening) (hc : c ∈ closing)
    (h : Nested inStatement es) : Nested inStatement (o :: (es ++ [c])) := by
  intro depth
  have hopen : deepen inStatement depth o = some (depth + 1) := by
    unfold deepen
    rw [if_pos (by simpa using ho)]
  have hclose : deepen inStatement (depth + 1) c = some depth := by
    have hdisjoint : ∀ c ∈ closing, c ∉ opening := by decide
    unfold deepen
    rw [if_neg (by simpa using hdisjoint c hc), if_pos (by simpa using hc), if_neg (by omega)]
    rfl
  rw [List.foldlM_cons, hopen, Option.bind_eq_bind, Option.bind_some, List.foldlM_append,
    h (depth + 1), Option.bind_eq_bind, Option.bind_some, List.foldlM_cons, hclose]
  rfl

end Nested

/-- What is read as some elements is passed over as far as they nest. -/
theorem skim_scans {inStatement : Bool} {goal goal' : Goal} {b b' : Bool} {cs rest : List Char}
    {es : List Element} (h : Scans goal b cs es goal' b' rest) : ∀ {depth depth' : Nat},
    es.foldlM (deepen inStatement) depth = some depth' →
    skim inStatement depth goal b cs = skim inStatement depth' goal' b' rest := by
  induction h with
  | here =>
    intro depth depth' hdepth
    cases hdepth
    rfl
  | skip hstep hlen _ ih =>
    intro depth depth' hdepth
    rw [skim, hstep]
    simp only [if_pos hlen]
    exact ih hdepth
  | element hstep hlen _ ih =>
    intro depth depth' hdepth
    rw [List.foldlM_cons] at hdepth
    obtain ⟨depth₁, hfirst, hrest⟩ := Option.bind_eq_some_iff.mp hdepth
    rw [skim, hstep]
    simp only [hfirst, if_pos hlen]
    exact ih hrest

/-- What a part ends in front of. -/
def Ends (inStatement : Bool) (c : Char) : Prop :=
  c = ')' ∨ inStatement = true ∧ (c = ';' ∨ c = ':')

theorem skim_ends {inStatement : Bool} {c : Char} (h : Ends inStatement c) (goal : Goal) (b : Bool)
    (rest : List Char) : skim inStatement 0 goal b (c :: rest) = some (c :: rest) := by
  have hstep : step goal b (c :: rest) = .element (.punct [c]) rest := by
    rcases h with rfl | ⟨-, rfl | rfl⟩ <;> cases b <;> rfl
  have hdepth : deepen inStatement 0 (.punct [c]) = none := by
    rcases h with rfl | ⟨rfl, rfl | rfl⟩ <;> rfl
  rw [skim, hstep]
  simp only [hdepth]

/-- **The reader passes over what is read as nested elements.** -/
theorem passOver_of_reads {inStatement : Bool} {text rest : List Char} {es : List Element}
    {goal' : Goal} {c : Char} (hnested : Nested inStatement es)
    (hread : Reads false .operand text es goal' (c :: rest)) (hc : Ends inStatement c) :
    passOver inStatement (text ++ c :: rest) = some (text, c :: rest) := by
  have hskim : skim inStatement 0 .operand false (text ++ c :: rest) = some (c :: rest) :=
    (skim_scans hread (hnested 0)).trans (skim_ends hc goal' false rest)
  have hlength : (text ++ c :: rest).length - (c :: rest).length = text.length := by
    rw [List.length_append, Nat.add_sub_cancel]
  rw [passOver, hskim, Option.map_some, hlength, List.take_left]

end Lexical

open Lexical

/-! ### Plain expressions -/

section PlainExpressions

variable {inStatement : Bool}

theorem Nodes.nested_commaElements {c : Category} : ∀ {ns : Nodes c},
    (∀ n ∈ ns.toList, Nested inStatement n.elements) → Nested inStatement ns.commaElements
  | .nil, _ => .nil
  | .cons n ns, h => by
    have hcomma : Nested inStatement [punct ","] := .single (by decide)
    have hn := h n List.mem_cons_self
    have hns := Nodes.nested_commaElements fun m hm => h m (List.mem_cons_of_mem _ hm)
    exact hcomma.append (hn.append hns)

theorem Nodes.nested_elements {c : Category} {ns : Nodes c}
    (h : ∀ n ∈ ns.toList, Nested inStatement n.elements) :
    Nested inStatement (ns.commaElements.drop 1) := by
  cases ns with
  | nil => exact .nil
  | cons n ns =>
    have hn := h n List.mem_cons_self
    exact hn.append (Nodes.nested_commaElements fun m hm => h m (List.mem_cons_of_mem _ hm))

theorem nested_word (word : List Char) : Nested inStatement [.word word] :=
  .single (by simp [Lexical.opening, Lexical.closing, Lexical.punct])

theorem nested_operator {isKeyword : Bool} {text : String}
    (h : punct text ∉ punct ";" :: (Lexical.opening ++ Lexical.closing)) :
    Nested inStatement [operatorElement isKeyword text] := by
  cases isKeyword with
  | true => exact nested_word text.toList
  | false => exact .single h

/-- The arguments of a call in their parentheses. -/
theorem nested_arguments {arguments : Nodes .argument}
    (plain : ∀ a ∈ arguments.toList, ∃ e, a = .plainArgument e ∧ 1 ≤ e.level)
    (ih : ∀ e, .plainArgument e ∈ arguments.toList → Nested inStatement e.elements) :
    Nested inStatement (punct "(" :: (arguments.commaElements.drop 1 ++ [punct ")"])) := by
  refine .between (by decide) (by decide) (Nodes.nested_elements fun a ha => ?_)
  obtain ⟨e, rfl, -⟩ := plain a ha
  exact ih e ha

/-- **The elements of a plain expression are nested.** -/
theorem Plain.nested {e : Node .expr} (h : Plain e) : Nested inStatement e.elements := by
  induction h with
  | this | null | bool | ident => exact nested_word _
  | str | num | regex =>
    exact .single (by simp [Lexical.opening, Lexical.closing, Lexical.punct])
  | paren span h ih => exact .between (by decide) (by decide) ih
  | unary span op level h ih => exact (nested_operator (by cases op <;> decide)).append ih
  | @update span op isPrefix operand updatable h ih =>
    have hop : Nested inStatement [punct op.text] := .single (by cases op <;> decide)
    cases isPrefix with
    | true => exact hop.append ih
    | false => exact ih.append hop
  | @binary span op left right _ _ hl hr ihl ihr =>
    have hop : Nested inStatement [operatorElement op.isKeyword op.text] :=
      nested_operator (by cases op <;> decide)
    exact ihl.append (hop.append ihr)
  | assignName span op hname level h ih =>
    have hop : Nested inStatement [punct op.text] := .single (by cases op <;> decide)
    exact (nested_word _).append (hop.append ih)
  | assignExpr span op updatable level ht h iht ih =>
    have hop : Nested inStatement [punct op.text] := .single (by cases op <;> decide)
    exact iht.append (hop.append ih)
  | computed span level h hp ih ihp => exact ih.append (.between (by decide) (by decide) ihp)
  | dotted span level numeral h hname ih =>
    have hdot : Nested inStatement [punct "."] := .single (by decide)
    exact ih.append (hdot.append (nested_word _))
  | @conditional span condition consequent alternate _ _ _ h hc ha ih ihc iha =>
    have hchoice : Nested inStatement (punct "?" :: (consequent.elements ++ [punct ":"])) :=
      .between (by decide) (by decide) ihc
    have hall := ih.append (hchoice.append iha)
    rw [List.cons_append, List.append_assoc, List.singleton_append] at hall
    exact hall
  | call span level h plain ha ih iha => exact ih.append (nested_arguments plain iha)
  | new span level h plain ha ih iha =>
    exact (nested_word _).append (ih.append (nested_arguments plain iha))
  | newBare span level h ih => exact (nested_word _).append ih
  | sequence span levels h ih => exact Nodes.nested_elements ih

end PlainExpressions

/-! ### Parts of statements -/

/-- Whether the rules of plain expressions are kept everywhere inside. -/
def Node.isPlainThroughout {c : Category} (n : Node c) : Bool :=
  n.every isPlain && n.every hasClearDot

def Node.isPlainPlace : Node (.opt .expr) → Bool
  | .absent => true
  | .present e => e.isPlainThroughout

def Node.isPlainInit : Node (.opt .forInit) → Bool
  | .absent => true
  | .present (.exprInit e) => e.isPlainThroughout
  | .present (.varInit _) => false

def Node.isPlainTarget : Node .forTarget → Bool
  | .patternTarget target => target.isPlainThroughout
  | .varTarget _ => false

/-- The rule that a statement keeps whose expressions and labels are plain. What stands
behind the word `in` of a head is no sequence. -/
def Node.hasPlainParts : {c : Category} → Node c → Bool
  | _, .exprStmt e | _, .withStmt _ e _ | _, .whileStmt _ e _ | _, .ifStmt _ e _ _ =>
    e.isPlainThroughout
  | _, .labeledStmt _ label _ => label.isPlain
  | _, .forStmt _ init test next _ => init.isPlainInit && test.isPlainPlace && next.isPlainPlace
  | _, .forInStmt _ target inside _ =>
    target.isPlainTarget && inside.isPlainThroughout && 1 ≤ inside.level
  | _, .forOfStmt _ _ _ _ _ => false
  | _, _ => true

/-! ### What is printed for parts -/

/-- A plain node is printed as its text. -/
theorem Node.code_eq_text {c : Category} {n : Node c} (h : n.every Node.isPlain = true) :
    n.emit.code = n.text false := by
  have hflat := n.isFlat_emit h
  have hcode := n.run_code (p := .new .compact) rfl (Doc.failure?_of_isFlat hflat)
  have htext := Doc.run_flat n.emit (.new .compact) hflat rfl rfl
  exact List.append_cancel_left (hcode.symm.trans htext)

theorem Node.isPlain_of_isPlainThroughout {c : Category} {n : Node c}
    (h : n.isPlainThroughout = true) : n.every Node.isPlain = true ∧ PlainNode n := by
  obtain ⟨hplain, hdots⟩ := Bool.and_eq_true_iff.mp h
  exact ⟨hplain, PlainNode.of_every n (n.every_and hplain hdots)⟩

/-- A place is printed alike with a blank in front of it, which compact text does not have. -/
theorem Doc.code_spaced (place : Node (.opt .expr)) :
    (spaced place place.emit).code = place.emit.code := by
  cases place with
  | absent => rfl
  | present e => simp [spaced]

/-- What can stand behind a part. -/
def EndsPart (c : Char) : Prop := c = ')' ∨ c = ';' ∨ c = ':'

theorem EndsPart.stops {c : Char} (h : EndsPart c) (rest : List Char) : Stops (c :: rest) := by
  rcases h with rfl | rfl | rfl <;> exact stops_cons (by decide) (by decide)

/-- A text that is read as nested elements in front of `c`. -/
def IsPassed (inStatement : Bool) (c : Char) (text : List Char) : Prop :=
  ∃ es, Nested inStatement es ∧ ∀ rest, ∃ goal', Reads false .operand text es goal' (c :: rest)

section Passed

variable {inStatement : Bool} {c : Char} {text text' : List Char}

namespace IsPassed

theorem passOver (h : IsPassed inStatement c text) (hc : Ends inStatement c) (rest : List Char) :
    Lexical.passOver inStatement (text ++ c :: rest) = some (text, c :: rest) := by
  obtain ⟨es, hnested, hread⟩ := h
  obtain ⟨goal', hread⟩ := hread rest
  exact passOver_of_reads hnested hread hc

theorem nil : IsPassed inStatement c [] := ⟨[], .nil, fun _ => ⟨_, .nil _ _⟩⟩

/-- A semicolon between two parts of a head. -/
theorem behind (h : IsPassed false ';' text) (h' : IsPassed false c text') :
    IsPassed false c (text ++ ';' :: text') := by
  obtain ⟨es, hnested, hread⟩ := h
  obtain ⟨es', hnested', hread'⟩ := h'
  have hmark : Nested false [punct ";"] := by
    intro depth
    cases depth <;> rfl
  refine ⟨es ++ ([punct ";"] ++ es'), hnested.append (hmark.append hnested'), fun rest => ?_⟩
  obtain ⟨goal, hfront⟩ := hread (text' ++ c :: rest)
  obtain ⟨goal', hbehind⟩ := hread' rest
  have hsemicolon : Reads false goal [';'] [punct ";"] .operand (text' ++ c :: rest) := by
    refine reads_punct (by decide) (by decide) (by decide) (fun h => absurd h (by decide)) ?_
    have hclash : clashes [';'] = [] := by decide
    rw [hclash]
    cases text' ++ c :: rest <;> rfl
  exact ⟨goal', hfront.append (hsemicolon.append hbehind)⟩

theorem expr {e : Node .expr} (h : e.isPlainThroughout = true) (hc : EndsPart c) :
    IsPassed inStatement c e.emit.code := by
  obtain ⟨hevery, hplain⟩ := Node.isPlain_of_isPlainThroughout h
  rw [Node.code_eq_text hevery]
  rcases Plain.reads hplain false with ⟨htext, -⟩ | hread
  · rw [htext]
    exact .nil
  · exact ⟨e.elements, Plain.nested hplain, fun rest => ⟨_, hread.stop false (hc.stops rest)⟩⟩

theorem place {place : Node (.opt .expr)} (h : place.isPlainPlace = true) (hc : EndsPart c) :
    IsPassed inStatement c place.emit.code := by
  cases place with
  | absent => exact .nil
  | present e => exact .expr h hc

theorem init {init : Node (.opt .forInit)} (h : init.isPlainInit = true) (hc : EndsPart c) :
    IsPassed inStatement c init.emit.code := by
  cases init with
  | absent => exact .nil
  | present init =>
    cases init with
    | varInit => cases h
    | exprInit e => exact .expr h hc

theorem label {label : Ident} (h : label.isPlain = true) (hc : EndsPart c) :
    IsPassed inStatement c (Emit.ident label).code := by
  have hplain : (Node.ident label).isPlainThroughout = true := by
    simp! [Node.isPlainThroughout, h]
  exact .expr hplain hc

/-- A pattern that is a name or an expression, in front of what continues neither. -/
theorem pattern {p : Node .pattern} (h : PlainNode p) : ∃ es, Nested inStatement es ∧
    ∀ rest, Stops rest → ∃ goal', Reads false .operand (p.text false) es goal' rest := by
  rcases h with ⟨name, rfl, hname⟩ | ⟨e, rfl, he⟩
  · rw [Node.text_identPattern hname]
    exact ⟨_, nested_word _, fun rest hrest => ⟨_, reads_ident hname hrest.1.wordPart⟩⟩
  · rw [Node.text_exprPattern]
    rcases he.reads false with ⟨htext, -⟩ | hread
    · rw [htext]
      exact ⟨[], .nil, fun rest _ => ⟨_, .nil _ _⟩⟩
    · exact ⟨_, he.nested, fun rest hrest => ⟨_, hread.stop false hrest⟩⟩

/-- The target and the object of a `for` with `in`. -/
theorem forIn {target : Node .forTarget} {object : Node .expr}
    (htarget : target.isPlainTarget = true) (hobject : object.isPlainThroughout = true)
    (hlevel : 1 ≤ object.level) (hc : EndsPart c) :
    IsPassed inStatement c
      (target.emit ++ space ++ keywordBefore "in" object object.emit).code := by
  cases target with
  | varTarget => cases htarget
  | patternTarget p =>
    obtain ⟨hpattern, hp⟩ := Node.isPlain_of_isPlainThroughout htarget
    obtain ⟨hevery, hplain⟩ := Node.isPlain_of_isPlainThroughout hobject
    replace hplain : Plain object := hplain
    change IsPassed inStatement c (p.emit ++ space ++ keywordBefore "in" object object.emit).code
    have hcode : (p.emit ++ space ++ keywordBefore "in" object object.emit).code =
        p.text false ++
          ' ' :: ("in".toList ++ (Lexical.gap object.startsWord ++ object.text false)) := by
      rw [← Node.code_eq_text hpattern, ← Node.code_eq_text hevery]
      simp [keywordBefore, space, Lexical.gap]
    obtain ⟨es, hnested, hread⟩ := @pattern inStatement p hp
    have hin : Nested inStatement (.word "in".toList :: object.elements) :=
      (nested_word _).append hplain.nested
    rw [hcode]
    refine ⟨es ++ .word "in".toList :: object.elements, hnested.append hin, fun rest => ?_⟩
    have hblank : Stops (' ' :: ("in".toList ++ (Lexical.gap object.startsWord ++
        object.text false)) ++ c :: rest) := stops_cons (by decide) (by decide)
    obtain ⟨goal, hfront⟩ := hread _ hblank
    have hkeyword : Reads false goal "in".toList [.word "in".toList] .operand
        (Lexical.gap object.startsWord ++ object.text false ++ c :: rest) :=
      hplain.reads_keyword hlevel (by decide) rfl id _
    have hvalue := ((hplain.readsBack hlevel (hplain.reads false)).stop false
      (hc.stops rest)).gap (gap_cases object.startsWord)
    exact ⟨_, hfront.append (hkeyword.append hvalue).blank⟩

/-- What a statement made of an expression starts with. -/
theorem stmt {e : Node .expr} (h : e.isPlainThroughout = true) (hc : EndsPart c) :
    IsPassed inStatement c (parensIf (stmtNeedsParens e) e.emit).code := by
  cases stmtNeedsParens e with
  | false => exact .expr h hc
  | true =>
    have hinner : IsPassed inStatement ')' e.emit.code := .expr h (.inl rfl)
    obtain ⟨es, hnested, hread⟩ := hinner
    have hcode : (parensIf true e.emit).code = '(' :: (e.emit.code ++ [')']) := by
      simp [parensIf, between]
    rw [hcode]
    refine ⟨punct "(" :: (es ++ [punct ")"]), .between (by decide) (by decide) hnested,
      fun rest => ?_⟩
    obtain ⟨goal', hread⟩ := hread (c :: rest)
    have hopen : Reads false .operand ['('] [punct "("] .operand
        (e.emit.code ++ [')'] ++ c :: rest) := reads_mark (by decide) _
    have hclose : Reads false goal' [')'] [punct ")"] .operator (c :: rest) :=
      reads_mark (by decide) _
    exact ⟨_, hopen.append (hread.append hclose)⟩

end IsPassed

end Passed

/-! ### Statements -/

/-- What the induction carries: the reader passes over all parts of a statement. -/
def Node.PartsPass {c : Category} (n : Node c) : Prop :=
  ∀ k, n.skeleton? = some k → ∀ part ∈ k.parts, elementReader.Passes part

/-- A head in parentheses in front of a body. -/
theorem Node.PartsPass.loop {body : Stmt} (hbody : body.PartsPass) {word : LoopWord}
    {inside : List Char} (h : IsPassed false ')' inside) {k : Skeleton}
    (hk : body.skeleton?.map (.under (.loop word inside)) = some k) :
    ∀ part ∈ k.parts, elementReader.Passes part := by
  obtain ⟨k', hk', rfl⟩ := Option.map_eq_some_iff.mp hk
  exact List.forall_mem_cons.mpr ⟨h.passOver (.inl rfl), hbody k' hk'⟩

/-- **The reader passes over all parts of a statement with plain parts.** -/
theorem Node.parts_pass {c : Category} (n : Node c) (h : n.every hasPlainParts = true) :
    n.PartsPass := by
  revert h
  apply @Node.rec (fun _ n => n.every hasPlainParts = true → n.PartsPass)
    (fun _ ns => ns.every hasPlainParts = true → ∀ ks, ns.skeletons? = some ks →
      ∀ part ∈ partsOf ks, elementReader.Passes part)
  case nil =>
    intro c _ ks hks
    cases hks
    exact nofun
  case cons =>
    intro c n ns hn hns h ks hks
    obtain ⟨k, hk, hrest⟩ := Option.bind_eq_some_iff.mp hks
    obtain ⟨ks', hks', rfl⟩ := Option.map_eq_some_iff.mp hrest
    obtain ⟨hnode, hnodes⟩ := Bool.and_eq_true_iff.mp h
    exact List.forall_mem_append.mpr ⟨hn hnode k hk, hns hnodes ks' hks'⟩
  case present => exact fun _ hn h k hk => hn h k hk
  case block =>
    intro span body hbody h k hk
    obtain ⟨ks, hks, rfl⟩ := Option.map_eq_some_iff.mp hk
    exact hbody h ks hks
  case blockStmt => exact fun _ hb h k hk => hb h k hk
  case exprStmt =>
    intro e _ h k hk
    cases hk
    have hpart : IsPassed true ';' (parensIf (stmtNeedsParens e) e.emit).code :=
      .stmt (Node.test_of_every (.exprStmt e) h) (.inr (.inl rfl))
    exact List.forall_mem_singleton.mpr (hpart.passOver (.inr ⟨rfl, .inl rfl⟩))
  -- a head in front of a body
  case labeledStmt =>
    intro span label body hbody h k hk
    obtain ⟨k', hk', rfl⟩ := Option.map_eq_some_iff.mp hk
    have hlabel : label.isPlain = true := Node.test_of_every _ h
    have hpart : IsPassed true ':' (Emit.ident label).code := .label hlabel (.inr (.inr rfl))
    exact List.forall_mem_cons.mpr ⟨hpart.passOver (.inr ⟨rfl, .inr rfl⟩),
      hbody (Bool.and_eq_true_iff.mp h).2 k' hk'⟩
  case withStmt =>
    intro span object body _ hbody h k hk
    have hobject : object.isPlainThroughout = true :=
      Node.test_of_every (.withStmt span object body) h
    exact (hbody (Bool.and_eq_true_iff.mp h).2).loop (.expr hobject (.inl rfl)) hk
  case whileStmt =>
    intro span test body _ hbody h k hk
    have htest : test.isPlainThroughout = true := Node.test_of_every (.whileStmt span test body) h
    exact (hbody (Bool.and_eq_true_iff.mp h).2).loop (.expr htest (.inl rfl)) hk
  case forStmt =>
    intro span init test next body _ _ _ hbody h k hk
    obtain ⟨hfront, hnext⟩ := Bool.and_eq_true_iff.mp (Node.test_of_every _ h)
    obtain ⟨hinit, htest⟩ := Bool.and_eq_true_iff.mp hfront
    have hhead : IsPassed false ')' (init.emit.code ++ ';' :: (test.emit.code ++ ';' ::
        next.emit.code)) :=
      (IsPassed.init hinit (.inr (.inl rfl))).behind
        ((IsPassed.place htest (.inr (.inl rfl))).behind (.place hnext (.inl rfl)))
    have hcode : (init.emit ++ ";" ++ spaced test test.emit ++ ";" ++ spaced next next.emit).code =
        init.emit.code ++ ';' :: (test.emit.code ++ ';' :: next.emit.code) := by
      simp [Doc.code_spaced]
    rw [← hcode] at hhead
    exact (hbody (Bool.and_eq_true_iff.mp h).2).loop hhead hk
  case forInStmt =>
    intro span target object body _ _ hbody h k hk
    obtain ⟨hfront, hlevel⟩ := Bool.and_eq_true_iff.mp (Node.test_of_every _ h)
    obtain ⟨htarget, hobject⟩ := Bool.and_eq_true_iff.mp hfront
    exact (hbody (Bool.and_eq_true_iff.mp h).2).loop
      (.forIn htarget hobject (of_decide_eq_true hlevel) (.inl rfl)) hk
  case forOfStmt =>
    intro span awaitToken target iterable body _ _ _ h
    cases Node.test_of_every _ h
  -- branches
  case ifStmt =>
    intro span test consequent alternate _ hconsequent halternate h k hk
    have htest : test.isPlainThroughout = true :=
      Node.test_of_every (.ifStmt span test consequent alternate) h
    have hpart : IsPassed false ')' test.emit.code := .expr htest (.inl rfl)
    obtain ⟨hfront, hbranch⟩ := Bool.and_eq_true_iff.mp h
    obtain ⟨-, hbody⟩ := Bool.and_eq_true_iff.mp hfront
    cases alternate with
    | absent =>
      obtain ⟨k', hk', rfl⟩ := Option.map_eq_some_iff.mp hk
      exact List.forall_mem_cons.mpr ⟨hpart.passOver (.inl rfl), hconsequent hbody k' hk'⟩
    | present alternate =>
      obtain ⟨c, hc, hrest⟩ := Option.bind_eq_some_iff.mp hk
      obtain ⟨a, ha, rfl⟩ := Option.map_eq_some_iff.mp hrest
      exact List.forall_mem_cons.mpr ⟨hpart.passOver (.inl rfl),
        List.forall_mem_append.mpr ⟨hconsequent hbody c hc, halternate hbranch a ha⟩⟩
  all_goals
    intros
    intro k hk
    cases hk

/-- **The branches of a statement with plain parts come back from its compact text exactly
if the statement is grouped**, with the reader of lexical elements. -/
theorem plain_branches_read_back (s : Stmt) (options : PrintOptions) {k : Skeleton} {code : String}
    (hk : s.skeleton? = some k) (htold : s.every Node.isToldApart = true)
    (hplain : s.every Node.hasPlainParts = true) (hoptions : options.isFormatted = false)
    (hcode : printStmt s options = .ok code) :
    elementReader.readBack code.toList = some k ↔ k.isGrouped = true := by
  obtain ⟨hdone, htext⟩ := printStmt_compact hoptions hcode
  have hpass := s.parts_pass hplain k hk
  rw [htext]
  exact (s.spelled k hk htold hdone).readBack hpass

/-- The braces keep the `else` where it is. -/
example : elementReader.readBack "if(a)\x7bif(b)x;\x7delse y;".toList =
    some (.condElse ['a'] (.block [.cond ['b'] (.plain ['x'])]) (.plain ['y'])) :=
  (plain_branches_read_back bracedBranch .compact rfl (by decide) (by decide) rfl rfl).mpr rfl

end EcmaPrinter
