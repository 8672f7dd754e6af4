/-
# Branches of `if` in compact text

Statements of expressions, blocks, loops, labels, `with` and `if` are printed as the
spelling of their skeleton (`Node.spelled`). So reading the text again gives the branches
of each `if` back exactly where the statement is grouped (`branches_read_back`): the
printer adds no braces around a branch, and an `else` that the tree puts behind an `if`
without one moves into it.

The names that a statement starts with are no words of other statements
(`Node.isToldApart`). Expressions and heads are passed over by any reader that can, such as
one of lexical elements where they are plain (`plain_branches_read_back`).

Key definitions: `Node.skeleton?`, `Node.isToldApart`.
Key theorems: `Node.spelled`, `branches_read_back`, `bareBranch_moves`.
-/
import EcmaPrinter.Proofs.Emit.Keywords
import EcmaPrinter.Proofs.Emit.PlainStarts
import EcmaPrinter.Proofs.Emit.Terminators

namespace EcmaPrinter

open Doc Emit Lexical

/-! ### Skeletons of statements -/

mutual

/-- The skeleton of a statement that is made of expressions, blocks, loops, labels, `with`
and `if`. What is no statement is the text that is printed for it. -/
def Node.skeleton? : {c : Category} → Node c → Option Skeleton
  | _, .present n => n.skeleton?
  | _, .exprStmt e => some (.plain (parensIf (stmtNeedsParens e) e.emit).code)
  | _, .blockStmt b => b.skeleton?
  | _, .block _ body => body.skeletons?.map .block
  | _, .withStmt _ object body =>
    body.skeleton?.map (.under (.loop .withScope object.emit.code))
  | _, .labeledStmt _ label body =>
    body.skeleton?.map (.under (.label (Emit.ident label).code))
  | _, .whileStmt _ test body =>
    body.skeleton?.map (.under (.loop .whileLoop test.emit.code))
  | _, .forStmt _ init test update body =>
    body.skeleton?.map (.under (.loop .forLoop
      (init.emit ++ ";" ++ spaced test test.emit ++ ";" ++ spaced update update.emit).code))
  | _, .forInStmt _ target object body =>
    body.skeleton?.map (.under (.loop .forLoop
      (target.emit ++ space ++ keywordBefore "in" object object.emit).code))
  | _, .forOfStmt _ awaitToken target iterable body =>
    body.skeleton?.map (.under (.loop (if awaitToken.isSome then .forAwait else .forLoop)
      (target.emit ++ space ++ keywordBefore "of" iterable iterable.emit).code))
  | _, .ifStmt _ test consequent .absent =>
    consequent.skeleton?.map (.cond test.emit.code)
  | _, .ifStmt _ test consequent (.present alternate) =>
    consequent.skeleton?.bind fun c => alternate.skeleton?.map (.condElse test.emit.code c)
  | _, _ => none

def Nodes.skeletons? : {c : Category} → Nodes c → Option (List Skeleton)
  | _, .nil => some []
  | _, .cons n ns => n.skeleton?.bind fun k => ns.skeletons?.map (k :: ·)

end

/-- Whether a label, or the name that a statement made of an expression starts with, is
no word that starts another statement. -/
def Node.isToldApart : {c : Category} → Node c → Bool
  | _, .exprStmt e => e.leftmost.opensPlain
  | _, .labeledStmt _ label _ => isPlainWord label.name.toList
  | _, _ => true

/-! ### Spellings -/

@[simp] theorem Doc.code_headed (keyword : String) (head : Doc) :
    (headed keyword head).code = keyword.toList ++ '(' :: (head.code ++ [')']) := by
  simp [headed, between]

theorem Doc.code_checkBindings (head : ForHead) (target : Node .forTarget) :
    (checkBindings head target).code = [] := by
  unfold checkBindings
  split
  · exact code_check _ _
  · rfl

theorem Doc.code_block (span : Span) (body : Nodes .stmt) :
    (Node.block span body).emit.code =
      '\x7b' :: (body.items.flatMap (fun item => item.doc.code) ++ ['\x7d']) := by
  have hformat : ListFormat.multiLineBlockStatements.isOptionalIfEmpty = false := rfl
  dsimp! only
  rw [code_list rfl, hformat, Bool.and_false, if_neg (by decide)]
  rfl

section Spelled

variable {c : Category}

/-- The property that the induction carries. -/
def Node.IsSpelled (n : Node c) : Prop :=
  ∀ k, n.skeleton? = some k → n.every Node.isToldApart = true → n.emit.failure? = none →
    Spelled k n.emit.code

def Nodes.AreSpelled (ns : Nodes c) : Prop :=
  ∀ ks, ns.skeletons? = some ks → ns.every Node.isToldApart = true →
    (∀ item ∈ ns.items, item.doc.failure? = none) →
    SpelledAll ks (ns.items.flatMap fun item => item.doc.code)

end Spelled

/-- The blank behind `else` is left out only in front of what continues no word. -/
theorem elseBlank_spelled (s : Stmt) (hdone : s.emit.failure? = none) :
    (spaceIf s.startsWord).code = [' '] ∨ (spaceIf s.startsWord).code = [] ∧
      ∃ c, s.emit.code.head? = some c ∧ isWordy c = false := by
  rw [code_spaceIf]
  cases hword : s.startsWord with
  | true => exact .inl rfl
  | false =>
    refine .inr ⟨rfl, ?_⟩
    have hmerges : s.emit.merges true true = false := s.emit_tidy.merges_judged rfl (by rw [hword]; rfl)
    have hhead := Step.not_isWordy_head s.emit.steps (s.emit.failure?_eq_steps ▸ hdone) hmerges
    rw [compactChars_eq_code _ s.emit_modeFree] at hhead
    obtain ⟨front, hcode⟩ := (s.emit_endsIn rfl).code_eq hdone
    cases hfirst : s.emit.code.head? with
    | none => simp [hcode] at hfirst
    | some c => exact ⟨c, rfl, by simpa [hfirst] using hhead⟩

/-- A statement under a head is printed as the head and its body. -/
theorem Node.IsSpelled.under {body : Stmt} (hbody : body.IsSpelled) {head : Head}
    (hhead : head.isPlain = true) {d : Doc} (hd : d.code = head.text) {k : Skeleton}
    (hk : body.skeleton?.map (.under head) = some k) (htold : body.every isToldApart = true)
    (hdone : (d ++ body.emit).failure? = none) : Spelled k (d ++ body.emit).code := by
  obtain ⟨k', hk', rfl⟩ := Option.map_eq_some_iff.mp hk
  rw [code_append, hd]
  exact .under hhead (hbody k' hk' htold (Option.or_eq_none_iff.mp hdone).2)

/-- **A statement is printed as the spelling of its skeleton.** -/
theorem Node.spelled {c : Category} (n : Node c) : n.IsSpelled := by
  apply @Node.rec (fun _ n => n.IsSpelled) (fun _ ns => ns.AreSpelled)
  case nil =>
    intro c ks hks _ _
    cases hks
    exact .nil
  case cons =>
    intro c n ns hn hns ks hks htold hdone
    obtain ⟨k, hk, hrest⟩ := Option.bind_eq_some_iff.mp hks
    obtain ⟨ks', hks', rfl⟩ := Option.map_eq_some_iff.mp hrest
    obtain ⟨htold, htolds⟩ := Bool.and_eq_true_iff.mp htold
    obtain ⟨hdone, hdones⟩ := List.forall_mem_cons.mp hdone
    exact .cons (hn k hk htold hdone) (hns ks' hks' htolds hdones)
  case present => exact fun _ h => h
  case block =>
    intro span body hbody k hk htold hdone
    obtain ⟨ks, hks, rfl⟩ := Option.map_eq_some_iff.mp hk
    have hitems : ∀ item ∈ body.items, item.doc.failure? = none := by
      have hall : (list span ListFormat.multiLineBlockStatements body.items).all isNoFailure :=
        (failure?_eq_none _).mp hdone
      rw [all_list, List.all_eq_true] at hall
      exact fun item hitem => (failure?_eq_none item.doc).mpr (hall item hitem)
    rw [code_block]
    exact .block (hbody ks hks htold hitems)
  case blockStmt =>
    intro b hb k hk htold hdone
    exact hb k hk htold (Option.or_eq_none_iff.mp hdone).2
  case exprStmt =>
    intro e _ k hk htold hdone
    cases hk
    have hcode : (Node.exprStmt e).emit.code =
        (parensIf (stmtNeedsParens e) e.emit).code ++ [';'] := by
      simp!
    have hprints : e.emit.failure? = none := by
      obtain ⟨hfront, -⟩ := Option.or_eq_none_iff.mp hdone
      exact (failure?_parensIf _ _).symm.trans (Option.or_eq_none_iff.mp hfront).2
    rw [hcode]
    exact .plain (startsPlain_exprStmt hprints (Bool.and_eq_true_iff.mp htold).1)
  -- a head in front of a body
  case withStmt =>
    intro span object body _ hbody k hk htold hdone
    refine hbody.under rfl ?_ hk (Bool.and_eq_true_iff.mp htold).2 hdone
    simp [Head.text, LoopWord.opening]
  case whileStmt =>
    intro span test body _ hbody k hk htold hdone
    refine hbody.under rfl ?_ hk (Bool.and_eq_true_iff.mp htold).2 hdone
    simp [Head.text, LoopWord.opening]
  case labeledStmt =>
    intro span label body hbody k hk htold hdone
    obtain ⟨hlabel, hbodyTold⟩ := Bool.and_eq_true_iff.mp htold
    have hplain : (Head.label (Emit.ident label).code).isPlain = true := by
      simpa [Head.isPlain] using @startsPlain_ident label hlabel [] rfl
    refine hbody.under hplain ?_ hk hbodyTold hdone
    simp [Head.text]
  case forStmt =>
    intro span init test update body _ _ _ hbody k hk htold hdone
    refine hbody.under rfl ?_ hk (Bool.and_eq_true_iff.mp htold).2 hdone
    simp [Head.text, LoopWord.opening]
  case forInStmt =>
    intro span target object body _ _ hbody k hk htold hdone
    refine hbody.under rfl ?_ hk (Bool.and_eq_true_iff.mp htold).2 hdone
    simp [Head.text, LoopWord.opening, code_checkBindings]
  case forOfStmt =>
    intro span awaitToken target iterable body _ _ hbody k hk htold hdone
    refine hbody.under rfl ?_ hk (Bool.and_eq_true_iff.mp htold).2 hdone
    cases awaitToken <;>
      simp [Head.text, LoopWord.opening, code_checkBindings, between, space]
  -- branches
  case ifStmt =>
    intro span test consequent alternate _ hconsequent halternate k hk htold hdone
    obtain ⟨htold, htoldAlternate⟩ := Bool.and_eq_true_iff.mp htold
    obtain ⟨-, htoldConsequent⟩ := Bool.and_eq_true_iff.mp htold
    obtain ⟨hfront, hbranch⟩ := Option.or_eq_none_iff.mp hdone
    have hconsequentDone := (Option.or_eq_none_iff.mp hfront).2
    cases alternate with
    | absent =>
      obtain ⟨c, hc, rfl⟩ := Option.map_eq_some_iff.mp hk
      have hcode : (Node.ifStmt span test consequent .absent).emit.code =
          "if(".toList ++ (test.emit.code ++ ')' :: consequent.emit.code) := by
        simp! [elseBranch]
      rw [hcode]
      exact .cond _ (hconsequent c hc htoldConsequent hconsequentDone)
    | present alternate =>
      obtain ⟨c, hc, hrest⟩ := Option.bind_eq_some_iff.mp hk
      obtain ⟨a, ha, rfl⟩ := Option.map_eq_some_iff.mp hrest
      have hcode : (Node.ifStmt span test consequent (.present alternate)).emit.code =
          "if(".toList ++ (test.emit.code ++ ')' :: (consequent.emit.code ++ ("else".toList ++
            ((spaceIf alternate.startsWord).code ++ alternate.emit.code)))) := by
        cases hblock : isBlock consequent <;> simp! [elseBranch, keywordBefore, hblock]
      have halternateDone := (Option.or_eq_none_iff.mp (Option.or_eq_none_iff.mp hbranch).2).2
      have htoldAlternate : alternate.every isToldApart = true :=
        (Bool.and_eq_true_iff.mp htoldAlternate).2
      rw [hcode]
      exact .condElse _ (hconsequent c hc htoldConsequent hconsequentDone)
        (halternate a ha htoldAlternate halternateDone)
        (elseBlank_spelled alternate halternateDone)
  all_goals
    intros
    intro k hk
    cases hk

/-! ### Reading back -/

/-- What is printed for a statement in compact text. -/
theorem printStmt_compact {s : Stmt} {options : PrintOptions} {code : String}
    (hoptions : options.isFormatted = false) (h : printStmt s options = .ok code) :
    s.emit.failure? = none ∧ code.toList = s.emit.code := by
  rw [printStmt, Printer.complete_eq] at h
  cases hdone : s.emit.failure? with
  | some e =>
    rw [hdone] at h
    cases h
  | none =>
    rw [hdone] at h
    cases h
    exact ⟨rfl, Node.run_code s hoptions hdone⟩

/-- **The branches of a statement come back from its compact text exactly if the statement
is grouped**: if no `else` stands behind a branch that ends in an `if` without one. -/
theorem branches_read_back (r : PartReader) (s : Stmt) (options : PrintOptions) {k : Skeleton}
    {code : String} (hk : s.skeleton? = some k) (htold : s.every Node.isToldApart = true)
    (hpass : ∀ part ∈ k.parts, r.Passes part) (hoptions : options.isFormatted = false)
    (hcode : printStmt s options = .ok code) :
    r.readBack code.toList = some k ↔ k.isGrouped = true := by
  obtain ⟨hdone, htext⟩ := printStmt_compact hoptions hcode
  rw [htext]
  exact (s.spelled k hk htold hdone).readBack hpass

/-- A reader of names and of what else needs no brackets. -/
def nameReader : PartReader where
  inside cs := some (cs.span (· != ')'))
  statement cs := some (cs.span fun c => c != ';' && c != ':')

theorem nameReader_passes : ∀ part ∈ [Part.inside ['a'], .inside ['b'], .plain ['x'], .plain ['y']],
    nameReader.Passes part := by
  simp only [List.forall_mem_cons]
  exact ⟨fun _ => rfl, fun _ => rfl, fun _ => rfl, fun _ => rfl, nofun⟩

/-- A name as an expression. -/
def named (name : String) : Expr := .ident ⟨.dummy, name, false, none⟩

/-- The statement `if(a){if(b)x;}else y;`. -/
def bracedBranch : Stmt :=
  .ifStmt .dummy (named "a")
    (.blockStmt (.block .dummy
      (.cons (.ifStmt .dummy (named "b") (.exprStmt (named "x")) .absent) .nil)))
    (.present (.exprStmt (named "y")))

theorem bracedBranch_reads_back :
    printStmt bracedBranch .compact = .ok "if(a)\x7bif(b)x;\x7delse y;" ∧
      nameReader.readBack "if(a)\x7bif(b)x;\x7delse y;".toList =
        some (.condElse ['a'] (.block [.cond ['b'] (.plain ['x'])]) (.plain ['y'])) :=
  ⟨rfl, (branches_read_back nameReader bracedBranch .compact rfl (by decide) nameReader_passes rfl
    rfl).mpr rfl⟩

/-- The same without the braces. -/
def bareBranch : Stmt :=
  .ifStmt .dummy (named "a")
    (.ifStmt .dummy (named "b") (.exprStmt (named "x")) .absent)
    (.present (.exprStmt (named "y")))

/-- Without braces the `else` moves to the `if` inside the branch. -/
theorem bareBranch_moves :
    bareBranch.skeleton? =
        some (.condElse ['a'] (.cond ['b'] (.plain ['x'])) (.plain ['y'])) ∧
      bareBranch.every Node.isToldApart = true ∧
      (∀ part ∈ (Skeleton.condElse ['a'] (.cond ['b'] (.plain ['x'])) (.plain ['y'])).parts,
        nameReader.Passes part) ∧
      printStmt bareBranch .compact = .ok "if(a)if(b)x;else y;" ∧
      nameReader.readBack "if(a)if(b)x;else y;".toList =
        some (.cond ['a'] (.condElse ['b'] (.plain ['x']) (.plain ['y']))) ∧
      nameReader.readBack "if(a)if(b)x;else y;".toList ≠ bareBranch.skeleton? := by
  have hmoved : Spelled (.cond ['a'] (.condElse ['b'] (.plain ['x']) (.plain ['y'])))
      "if(a)if(b)x;else y;".toList :=
    .cond ['a'] (.condElse ['b'] (.plain rfl) (.plain rfl) (.inl rfl))
  have hread := (hmoved.readBack nameReader_passes).mpr rfl
  have hskeleton : bareBranch.skeleton? =
      some (.condElse ['a'] (.cond ['b'] (.plain ['x'])) (.plain ['y'])) := rfl
  refine ⟨hskeleton, by decide, nameReader_passes, rfl, hread, ?_⟩
  rw [hread, hskeleton]
  nofun

end EcmaPrinter
