/-
# What compact text shows

A compact printer skips the optional blanks and line breaks, the levels of
indentation and the comments, and where a mark stands does not depend on the span
that is marked. What is left of the steps of a document is its outline, and the
outline of a tree is that of the tree without positions (`Node.outline_erase`).

So compact text shows the shape and the texts of a tree, and nothing else: two
programs that are equal once their spans are erased have the same text or the same
error, under all options and comments, and their marks stand at the same places
(`compact_depends_on_erase_only`).

Key definitions: `Step.shown?`, `Doc.outline`, `Doc.listOutline`.
Key theorems: `Doc.outline_list`, `Node.outline_erase`, `Program.outline_erase`,
`Printer.perform_shows`, `compact_depends_on_erase_only`.
-/
import EcmaPrinter.Proofs.Emit.Session
import EcmaPrinter.Proofs.Emit.Support
import EcmaPrinter.Proofs.Layout.Modes
import EcmaPrinter.Proofs.Tree.Erase

namespace EcmaPrinter

/-- What compact text shows of a step. -/
def Step.shown? : Step → Option Step
  | .text s => some (.text s)
  | .compactLine => some .compactLine
  | .mark _ => some (.mark .dummy)
  | .fail e => some (.fail e)
  | .softSpace | .softLine | .comments _ | .enter | .leave => none

namespace Doc

/-- The steps of a document that compact text shows. -/
def outline (d : Doc) : List Step := d.steps.filterMap Step.shown?

@[simp] theorem outline_append (a b : Doc) : (a ++ b).outline = a.outline ++ b.outline := by
  simp [outline]

@[simp] theorem outline_nest (body : Doc) : (nest body).outline = body.outline := by
  change (body.steps ++ [Step.leave]).filterMap Step.shown? = _
  rw [List.filterMap_append]
  exact List.append_nil _

@[simp] theorem outline_empty : empty.outline = [] := rfl

@[simp] theorem outline_text (s : String) : (text s).outline = [.text s] := rfl

@[simp] theorem outline_softSpace : softSpace.outline = [] := rfl

@[simp] theorem outline_softLine : softLine.outline = [] := rfl

@[simp] theorem outline_compactLine : compactLine.outline = [.compactLine] := rfl

@[simp] theorem outline_mark (span : Span) : (mark span).outline = [.mark .dummy] := rfl

@[simp] theorem outline_comments (span : Span) : (comments span).outline = [] := rfl

@[simp] theorem outline_fail (e : EmitError) : (fail e).outline = [.fail e] := rfl

@[simp] theorem outline_space : space.outline = [.text " "] := rfl

@[simp] theorem outline_spaceIf (b : Bool) :
    (spaceIf b).outline = if b then [.text " "] else [] := by
  cases b <;> rfl

@[simp] theorem outline_when (b : Bool) (d : Doc) :
    (when b d).outline = if b then d.outline else [] := by
  cases b <;> rfl

@[simp] theorem outline_between (opening closing : String) (d : Doc) :
    (between opening closing d).outline = .text opening :: (d.outline ++ [.text closing]) := by
  simp [between]

@[simp] theorem outline_breakOr (isBroken isSpaced : Bool) :
    (breakOr isBroken isSpaced).outline = [] := by
  cases isBroken <;> cases isSpaced <;> rfl

/-! ### Lists -/

/-- The outlines of some items. -/
def outlines (items : List Item) : List (List Step) := items.map fun item => item.doc.outline

@[simp] theorem outlines_nil : outlines [] = [] := rfl

@[simp] theorem outlines_cons (item : Item) (items : List Item) :
    outlines (item :: items) = item.doc.outline :: outlines items := rfl

/-- The outline of a list whose items have the given outlines. -/
def listOutline (f : ListFormat) (inner : List (List Step)) : List Step :=
  if inner.isEmpty && f.isOptionalIfEmpty then []
  else
    .text (f.brackets.opening.getD "") ::
      (List.intercalate [.text f.delimiter.text] inner ++ [.text (f.brackets.closing.getD "")])

theorem outline_listItem (f : ListFormat) (item : Item) :
    (listItem f item).outline = item.doc.outline := by
  cases h : f.noInterveningComments <;> simp [listItem, h]

theorem outline_listTail (f : ListFormat) : ∀ (previous : Span) (items : List Item),
    (listTail f previous items).outline =
      (outlines items).flatMap fun inner => .text f.delimiter.text :: inner
  | _, [] => rfl
  | previous, item :: items => by
    simp [listTail, outline_listItem, outline_listTail f item.span items]

theorem intercalate_cons_eq {α : Type} (separator : α) (first : List α) : ∀ rest : List (List α),
    List.intercalate [separator] (first :: rest) =
      first ++ rest.flatMap fun inner => separator :: inner
  | [] => by simp
  | second :: rest => by
    rw [List.intercalate_cons_cons, intercalate_cons_eq separator second rest]
    simp

/-- **The outline of a list is made of the outlines of its items**, wherever lines are
broken. -/
@[simp] theorem outline_list (parent : Span) (f : ListFormat) (items : List Item) :
    (list parent f items).outline = listOutline f (outlines items) := by
  unfold list listOutline
  cases items with
  | nil =>
    simp only [List.isEmpty_nil, outlines_nil, Bool.true_and]
    split
    · rfl
    · simp only [listBody, outline_append, outline_text, List.intercalate_nil]
      split <;> simp
  | cons first rest =>
    simp only [List.isEmpty_cons, outlines_cons, Bool.false_and, Bool.false_eq_true, ↓reduceIte,
      listBody, outline_append, outline_text, intercalate_cons_eq]
    split <;> simp [outline_listItem, outline_listTail]

@[simp] theorem outline_listIfAny (parent : Span) (f : ListFormat) (items : Option (List Item)) :
    (listIfAny parent f items).outline =
      if items.isNone && f.isOptionalIfAbsent then [] else listOutline f (outlines (items.getD [])) := by
  unfold listIfAny
  split <;> simp

end Doc

/-! ### Phrases -/

/-- A place whose node needs a blank behind a keyword. -/
def Node.startsPlace {c : Category} : Node (.opt c) → Bool
  | .absent => false
  | .present n => n.startsWord

@[simp] theorem Node.isPresent_erase {c : Category} (place : Node (.opt c)) :
    place.erase.isPresent = place.isPresent := by
  cases place <;> rfl

@[simp] theorem Node.startsPlace_erase {c : Category} (place : Node (.opt c)) :
    place.erase.startsPlace = place.startsPlace := by
  cases place with
  | absent => rfl
  | present n => exact n.startsWord_erase

namespace Emit

open Doc

@[simp] theorem outline_ident_erase (name : Ident) :
    (ident name.erase).outline = (ident name).outline := by
  simp [ident, Ident.erase, reject, check]

@[simp] theorem outline_privateName_erase (name : PrivateName) :
    (privateName name.erase).outline = (privateName name).outline := by
  simp [privateName, PrivateName.erase]

@[simp] theorem str_erase (literal : StringLit) : str literal.erase = str literal := rfl

@[simp] theorem num_erase (literal : NumberLit) : num literal.erase = num literal := rfl

@[simp] theorem regex_erase (literal : RegexLit) : regex literal.erase = regex literal := by
  obtain ⟨span, pattern, flags⟩ := literal
  cases flags <;> rfl

theorem outline_interleave_erase : ∀ (quasis : List Quasi) {items items' : List Item},
    outlines items' = outlines items →
      (interleave (quasis.map Quasi.erase) items').outline = (interleave quasis items).outline
  | [], _, _, _ => rfl
  | quasi :: quasis, [], [], h => by
    have ih := outline_interleave_erase quasis h
    simp only [List.map_cons, interleave, outline_append, ih]
    rfl
  | quasi :: quasis, e :: es, e' :: es', h => by
    obtain ⟨he, hes⟩ := List.cons.inj h
    have ih := outline_interleave_erase quasis hes
    simp only [List.map_cons, interleave, outline_append, ih, he]
    rfl

theorem outline_template_erase (quasis : List Quasi) {items items' : List Item}
    (h : outlines items' = outlines items) :
    (template (quasis.map Quasi.erase) items').outline = (template quasis items).outline := by
  have hlength : items'.length = items.length := by
    simpa [outlines] using congrArg List.length h
  simp only [template, outline_append, outline_interleave_erase quasis h, List.length_map, hlength]

@[simp] theorem outline_assignedValue (sign : String) (d : Doc) :
    (assignedValue sign d).outline = .text sign :: d.outline := rfl

@[simp] theorem outline_initializer (value : Node (.opt .expr)) (d : Doc) :
    (initializer value d).outline = if value.isPresent then .text "=" :: d.outline else [] := by
  cases value <;> rfl

@[simp] theorem outline_dotted_erase (property : Expr) :
    (dotted property.erase).outline = (dotted property).outline := by
  cases property with
  | ident name => exact outline_ident_erase name
  | privateName name => exact outline_privateName_erase name
  | _ => rfl

@[simp] theorem isWholeNumeral_erase (e : Expr) : isWholeNumeral e.erase = isWholeNumeral e := by
  cases e <;> rfl

@[simp] theorem outline_member (object property : Expr) (isComputed : Bool) (d d' : Doc) :
    (member object property isComputed d d').outline =
      d.outline ++ if isComputed then .text "[" :: (d'.outline ++ [.text "]"])
        else (if isWholeNumeral object then [.text "."] else []) ++ .text "." :: (dotted property).outline := by
  cases isComputed <;> simp [member]

@[simp] theorem endsWithHole_erase {c : Category} (elements : Nodes (.opt c)) :
    endsWithHole elements.erase = endsWithHole elements := by
  unfold endsWithHole
  rw [Nodes.toList_erase, List.getLast?_map]
  cases elements.toList.getLast? with
  | none => rfl
  | some last => cases last <;> rfl

/-- The outlines of items of which the last is a hole. -/
def closeLast (isHole : Bool) : List (List Step) → List (List Step)
  | [] => []
  | [last] => [if isHole then [.text ","] else last]
  | inner :: next :: rest => inner :: closeLast isHole (next :: rest)

@[simp] theorem outlines_closeHole (isHole : Bool) : ∀ items : List Item,
    outlines (closeHole isHole items) = closeLast isHole (outlines items)
  | [] => rfl
  | [item] => by cases isHole <;> rfl
  | item :: next :: items =>
    congrArg (item.doc.outline :: ·) (outlines_closeHole isHole (next :: items))

@[simp] theorem outline_parensIf (condition : Bool) (d : Doc) :
    (parensIf condition d).outline =
      if condition then .text "(" :: (d.outline ++ [.text ")"]) else d.outline := by
  cases condition <;> simp [parensIf]

@[simp] theorem outline_keywordBefore {c : Category} (keyword : String) (next : Node c) (d : Doc) :
    (keywordBefore keyword next d).outline =
      .text keyword :: ((if next.startsWord then [.text " "] else []) ++ d.outline) := by
  simp [keywordBefore]

@[simp] theorem outline_yieldArgument (isDelegate : Bool) (argument : Node (.opt .expr)) (d : Doc) :
    (yieldArgument isDelegate argument d).outline =
      if argument.isPresent then
        (if !isDelegate && argument.startsPlace then [.text " "] else []) ++ d.outline
      else [] := by
  cases argument <;> simp [yieldArgument, Node.isPresent, Node.startsPlace]

@[simp] theorem needsBody_erase (owner : BodyOwner) (body : Node (.opt .block)) :
    needsBody owner body.erase = needsBody owner body := by
  cases body <;> rfl

@[simp] theorem isAsync_erase (f : Node .function) : isAsync f.erase = isAsync f := by
  cases f
  rfl

@[simp] theorem isGenerator_erase (f : Node .function) : isGenerator f.erase = isGenerator f := by
  cases f
  rfl

@[simp] theorem functionKeyword_erase (f : Node .function) :
    functionKeyword f.erase = functionKeyword f := by
  simp [functionKeyword]

@[simp] theorem functionNameGap_erase (f : Node .function) :
    functionNameGap f.erase = functionNameGap f := by
  simp [functionNameGap]

@[simp] theorem outline_functionName (f : Node .function) (name : Ident) :
    (functionName f (some name)).outline = (functionNameGap f).outline ++ (ident name).outline :=
  outline_append _ _

@[simp] theorem outline_functionName_erase (f : Node .function) (name : Option Ident) :
    (functionName f.erase (name.map Ident.erase)).outline = (functionName f name).outline := by
  cases name with
  | none => rfl
  | some name => simp

@[simp] theorem methodWords_erase (f : Node .function) : methodWords f.erase = methodWords f := by
  simp [methodWords]

@[simp] theorem methodLead_erase (traits : MethodTraits) (f : Node .function) :
    methodLead traits f.erase = methodLead traits f := by
  simp [methodLead]

/-- The body of an arrow function that needs parentheses. -/
def needsParens : Node .arrowBody → Bool
  | .blockBody _ => false
  | .exprBody e => bodyNeedsParens e

@[simp] theorem needsParens_erase (body : Node .arrowBody) :
    needsParens body.erase = needsParens body := by
  cases body with
  | blockBody b => rfl
  | exprBody e => exact bodyNeedsParens_erase e

@[simp] theorem outline_arrowBody (body : Node .arrowBody) (d : Doc) :
    (arrowBody body d).outline =
      if needsParens body then .text "(" :: (d.outline ++ [.text ")"]) else d.outline := by
  cases body with
  | blockBody b => rfl
  | exprBody e => exact outline_parensIf _ d

@[simp] theorem rejectTraits_erase (decorators : Nodes .decorator) (traits : PropertyTraits) :
    rejectTraits decorators.erase traits.erase = rejectTraits decorators traits := by
  simp [rejectTraits, PropertyTraits.erase]

@[simp] theorem rejectClass_erase (k : Node .klass) : rejectClass k.erase = rejectClass k := by
  cases k with
  | klass span decorators body superClass isAbstract typeParams superTypeParams implements =>
    simp! [rejectClass]

@[simp] theorem outline_defaultClause (name : Ident) :
    (defaultClause (some name)).outline = .text " " :: (ident name).outline := rfl

@[simp] theorem outline_defaultClause_erase (name : Option Ident) :
    (defaultClause (name.map Ident.erase)).outline = (defaultClause name).outline := by
  cases name with
  | none => rfl
  | some name => simp

@[simp] theorem outline_namedClass (name : Option Ident) (k : Node .klass) (d : Doc) :
    (namedClass name k d).outline =
      (rejectClass k).outline ++ .text "class" :: ((defaultClause name).outline ++ d.outline) := by
  cases name <;> simp [namedClass, defaultClause]

@[simp] theorem outline_heritage (superClass : Node (.opt .expr)) (d : Doc) :
    (heritage superClass d).outline =
      if superClass.isPresent then
        .text " " :: .text "extends" ::
          ((if superClass.startsPlace then [.text " "] else []) ++ d.outline)
      else [] := by
  cases superClass <;> simp [heritage, Node.isPresent, Node.startsPlace]

@[simp] theorem outline_headed (keyword : String) (d : Doc) :
    (headed keyword d).outline = .text keyword :: .text "(" :: (d.outline ++ [.text ")"]) := by
  simp [headed]

@[simp] theorem outline_operandAfter (argument : Node (.opt .expr)) (d : Doc) :
    (operandAfter argument d).outline =
      if argument.isPresent then
        (if argument.startsPlace then [.text " "] else []) ++ d.outline
      else [] := by
  cases argument <;> simp [operandAfter, Node.isPresent, Node.startsPlace]

@[simp] theorem outline_jump (keyword : String) (label : Option Ident) :
    (jump keyword label).outline =
      .text keyword :: ((defaultClause label).outline ++ [.text ";"]) := by
  cases label <;> simp [jump, defaultClause]

@[simp] theorem outline_elseBranch (consequent : Stmt) (alternate : Node (.opt .stmt)) (d : Doc) :
    (elseBranch consequent alternate d).outline =
      if alternate.isPresent then
        .text "else" :: ((if alternate.startsPlace then [.text " "] else []) ++ d.outline)
      else [] := by
  cases alternate <;> simp [elseBranch, Node.isPresent, Node.startsPlace]

@[simp] theorem outline_spaced {c : Category} (place : Node (.opt c)) (d : Doc) :
    (spaced place d).outline = if place.isPresent then d.outline else [] := by
  cases place <;> rfl

@[simp] theorem outline_finallyBlock (finalizer : Node (.opt .block)) (d : Doc) :
    (finallyBlock finalizer d).outline =
      if finalizer.isPresent then .text "finally" :: d.outline else [] := by
  cases finalizer <;> rfl

@[simp] theorem outline_catchParam (param : Node (.opt .pattern)) (d : Doc) :
    (catchParam param d).outline =
      if param.isPresent then .text "(" :: (d.outline ++ [.text ")"]) else [] := by
  cases param <;> simp [catchParam, Node.isPresent]

@[simp] theorem checkBindings_erase (head : ForHead) (target : Node .forTarget) :
    checkBindings head target.erase = checkBindings head target := by
  cases target with
  | varTarget v =>
    cases v with
    | varDecl span kind isDeclare declarators => simp! [checkBindings]
  | patternTarget p => rfl

@[simp] theorem outline_caseHead (value : Node (.opt .expr)) (d : Doc) :
    (caseHead value d).outline =
      if value.isPresent then
        .text "case" :: ((if value.startsPlace then [.text " "] else []) ++ d.outline ++ [.text ":"])
      else [.text "default", .text ":"] := by
  cases value <;> simp [caseHead, Node.isPresent, Node.startsPlace]

/-- A case has the same outline on one line. -/
@[simp] theorem outline_caseBody (span : Span) (items : List Item) :
    (caseBody span items).outline =
      listOutline ListFormat.caseOrDefaultClauseStatements (outlines items) := by
  simp only [caseBody, apply_ite outline, outline_append, outline_softSpace, List.nil_append,
    outline_list]
  exact ite_self _

@[simp] theorem bindingKeyword_erase (kind : BindingKind) (ds : Nodes .declarator) :
    bindingKeyword kind ds.erase = bindingKeyword kind ds := by
  cases ds with
  | nil => rfl
  | cons d ds =>
    cases d with
    | declarator span target init isDefinite => simp! [bindingKeyword]

end Emit

/-! ### Nodes -/

open Doc in
/-- **The outline of a node is that of the node without positions.** -/
theorem Node.outline_erase {c : Category} (n : Node c) : n.erase.emit.outline = n.emit.outline := by
  apply @Node.rec (fun _ n => n.erase.emit.outline = n.emit.outline)
    (fun _ ns => outlines ns.erase.items = outlines ns.items)
  case cons => exact fun n ns hn hns => congrArg₂ List.cons hn hns
  all_goals intros
  all_goals dsimp! only
  case template quasis ih =>
    simp only [outline_append, Emit.outline_template_erase quasis ih, outline_mark]
  case taggedTemplate quasis _ ihtag ih =>
    simp only [outline_append, Emit.outline_template_erase quasis ih, outline_mark, ihtag]
    simp
  case update isPrefix _ ih => cases isPrefix <;> simp [ih]
  case classProperty traits ihkey ihvalue _ =>
    cases h : traits.isComputed <;> simp [h, ihkey, ihvalue]
  all_goals simp [*]

/-! ### Programs -/

open Doc Emit

namespace SpecifierGroups

/-- What compact text shows of specifiers in groups. -/
@[ext] structure Outline where
  default : Option (List Step)
  star : Option (List Step)
  named : List (List Step)

def Outline.hasName (o : Outline) : Bool := o.default.isSome || o.star.isSome

/-- The groups one after the other. -/
def Outline.clauses (o : Outline) (hasBraces : Bool) : List Step :=
  o.default.elim [] (.text " " :: ·)
    ++ o.star.elim [] (fun name => (if o.default.isSome then [.text ","] else [])
      ++ .text "*" :: .text "as" :: .text " " :: name)
    ++ if hasBraces then
        (if o.hasName then [.text ","] else [])
          ++ listOutline ListFormat.namedImportsOrExportsElements o.named
      else []

def outline (g : SpecifierGroups) : Outline :=
  ⟨g.default.map fun name => (ident name).outline, g.star.map fun name => (ident name).outline,
    outlines g.named⟩

theorem outlines_append {items items' : List Item} {item item' : Item}
    (h : outlines items' = outlines items) (hitem : item'.doc.outline = item.doc.outline) :
    outlines (items' ++ [item']) = outlines (items ++ [item]) := by
  unfold outlines at h ⊢
  rw [List.map_append, List.map_append, h, List.map_singleton, List.map_singleton, hitem]

theorem outline_importItem_erase (span span' : Span) (binding : Ident) (imported : Option Ident) :
    (importItem span' binding.erase (imported.map Ident.erase)).doc.outline =
      (importItem span binding imported).doc.outline := by
  cases imported <;> simp [importItem]

theorem outline_exportItem_erase (span span' : Span) (name : Ident) (exported : Option Ident) :
    (exportItem span' name.erase (exported.map Ident.erase)).doc.outline =
      (exportItem span name exported).doc.outline := by
  cases exported <;> simp [exportItem]

/-- Import specifiers without positions fall into the same groups. -/
theorem outline_addImports_erase : ∀ (specifiers : List ImportSpecifier) {g g' : SpecifierGroups},
    g'.outline = g.outline →
      (addImports g' (specifiers.map ImportSpecifier.erase)).map outline =
        (addImports g specifiers).map outline
  | [], _, _, h => congrArg some h
  | .default _ _ :: _, _, _, _ => rfl
  | .star _ binding :: rest, g, g', h => by
    obtain ⟨hdefault, -, hnamed⟩ := Outline.mk.inj h
    exact outline_addImports_erase rest
      (Outline.ext hdefault (congrArg some (outline_ident_erase binding)) hnamed)
  | .named span binding imported :: rest, g, g', h => by
    obtain ⟨hdefault, hstar, hnamed⟩ := Outline.mk.inj h
    exact outline_addImports_erase rest
      (Outline.ext hdefault hstar
        (outlines_append hnamed (outline_importItem_erase span .dummy binding imported)))

theorem outline_ofImports?_erase (specifiers : List ImportSpecifier) :
    (ofImports? (specifiers.map ImportSpecifier.erase)).map outline =
      (ofImports? specifiers).map outline := by
  cases specifiers with
  | nil => rfl
  | cons first rest =>
    cases first with
    | default span binding =>
      exact outline_addImports_erase rest
        (Outline.ext (congrArg some (outline_ident_erase binding)) rfl rfl)
    | named span binding imported =>
      exact outline_addImports_erase (.named span binding imported :: rest) rfl
    | star span binding => exact outline_addImports_erase (.star span binding :: rest) rfl

/-- Export specifiers without positions fall into the same groups. -/
theorem outline_addExports_erase : ∀ (specifiers : List ExportSpecifier) {g g' : SpecifierGroups},
    g'.outline = g.outline →
      (addExports g' (specifiers.map ExportSpecifier.erase)).outline =
        (addExports g specifiers).outline
  | [], _, _, h => h
  | .default _ exported :: rest, g, g', h => by
    obtain ⟨-, hstar, hnamed⟩ := Outline.mk.inj h
    exact outline_addExports_erase rest
      (Outline.ext (congrArg some (outline_ident_erase exported)) hstar hnamed)
  | .star _ name :: rest, g, g', h => by
    obtain ⟨hdefault, -, hnamed⟩ := Outline.mk.inj h
    exact outline_addExports_erase rest
      (Outline.ext hdefault (congrArg some (outline_ident_erase name)) hnamed)
  | .named span name exported :: rest, g, g', h => by
    obtain ⟨hdefault, hstar, hnamed⟩ := Outline.mk.inj h
    exact outline_addExports_erase rest
      (Outline.ext hdefault hstar
        (outlines_append hnamed (outline_exportItem_erase span .dummy name exported)))

end SpecifierGroups

namespace Emit

theorem outline_clauses (span : Span) (g : SpecifierGroups) (hasBraces : Bool) :
    (defaultClause g.default ++ starClause g.default.isSome g.star
      ++ when hasBraces (namedClause span g.hasName g.named)).outline =
        g.outline.clauses hasBraces := by
  obtain ⟨default, star, named⟩ := g
  cases default <;> cases star <;>
    simp [defaultClause, starClause, namedClause, groupGap, SpecifierGroups.hasName,
      SpecifierGroups.outline, SpecifierGroups.Outline.clauses, SpecifierGroups.Outline.hasName]

theorem hasName_outline (g : SpecifierGroups) : g.outline.hasName = g.hasName := by
  simp [SpecifierGroups.outline, SpecifierGroups.Outline.hasName, SpecifierGroups.hasName]

theorem isEmpty_named_outline (g : SpecifierGroups) :
    g.outline.named.isEmpty = g.named.isEmpty := by
  simp [SpecifierGroups.outline, outlines]

theorem outline_importDecl (span : Span) (specifiers : List ImportSpecifier) (source : StringLit) :
    (importDecl span specifiers source).outline =
      .text "import" ::
        if specifiers.isEmpty then (str source).outline ++ [.text ";"]
        else
          ((SpecifierGroups.ofImports? specifiers).map SpecifierGroups.outline).elim
            [.fail (.contract .lateDefaultImport)] fun o =>
              o.clauses (!o.named.isEmpty)
                ++ (fromClause (o.hasName && o.named.isEmpty) source).outline ++ [.text ";"] := by
  unfold importDecl
  split
  · simp
  · cases SpecifierGroups.ofImports? specifiers with
    | none => rfl
    | some g =>
      rw [outline_append, outline_append, outline_append, outline_clauses]
      simp [hasName_outline, isEmpty_named_outline]

theorem outline_importDecl_erase (span span' : Span) (specifiers : List ImportSpecifier)
    (source : StringLit) :
    (importDecl span' (specifiers.map ImportSpecifier.erase) source.erase).outline =
      (importDecl span specifiers source).outline := by
  rw [outline_importDecl, outline_importDecl, SpecifierGroups.outline_ofImports?_erase,
    List.isEmpty_map]
  rfl

theorem outline_exportNamed (span : Span) (specifiers : List ExportSpecifier)
    (source : Option StringLit) :
    (exportNamed span specifiers source).outline =
      let o := (SpecifierGroups.ofExports specifiers).outline
      let hasBraces := !o.named.isEmpty || !o.hasName
      .text "export" :: (o.clauses hasBraces
        ++ (source.elim [] fun source => (fromClause (!hasBraces) source).outline)
        ++ [.text ";"]) := by
  simp only [hasName_outline, isEmpty_named_outline]
  rw [← outline_clauses span]
  cases source <;> simp [exportNamed]

theorem outline_exportNamed_erase (span span' : Span) (specifiers : List ExportSpecifier)
    (source : Option StringLit) :
    (exportNamed span' (specifiers.map ExportSpecifier.erase) (source.map StringLit.erase)).outline =
      (exportNamed span specifiers source).outline := by
  have hgroups : (SpecifierGroups.ofExports (specifiers.map ExportSpecifier.erase)).outline =
      (SpecifierGroups.ofExports specifiers).outline :=
    SpecifierGroups.outline_addExports_erase specifiers rfl
  rw [outline_exportNamed, outline_exportNamed, hgroups]
  cases source <;> rfl

theorem outline_defaultExpr_erase (e : Expr) :
    (defaultExpr e.erase).outline = (defaultExpr e).outline := by
  unfold defaultExpr
  rw [stmtNeedsParens_erase]
  split <;> simp [e.outline_erase]

end Emit

theorem ModuleDecl.outline_erase (d : ModuleDecl) : d.erase.emit.outline = d.emit.outline := by
  cases d with
  | importDecl span specifiers source =>
    exact congrArg (Step.mark .dummy :: ·) (outline_importDecl_erase span .dummy specifiers source)
  | exportDecl span declaration => simp [erase, emit, declaration.outline_erase]
  | exportNamed span specifiers source =>
    exact congrArg (Step.mark .dummy :: ·) (outline_exportNamed_erase span .dummy specifiers source)
  | exportDefaultDecl span declaration =>
    cases declaration with
    | klass c => simp [erase, emit, DefaultDecl.erase, defaultDecl, c.outline_erase]
    | function f => simp [erase, emit, DefaultDecl.erase, defaultDecl, f.outline_erase]
    | interface payload => rfl
  | exportDefaultExpr span expression =>
    simp [erase, emit, outline_defaultExpr_erase]
  | exportAll span source => rfl
  | typeModule form payload => rfl

theorem ModuleItem.outline_erase (item : ModuleItem) :
    item.erase.emit.outline = item.emit.outline := by
  cases item with
  | decl d => exact d.outline_erase
  | stmt s => exact s.outline_erase

/-- **The outline of a program is that of the program without positions.** -/
theorem Program.outline_erase (program : Program) :
    program.erase.emit.outline = program.emit.outline := by
  cases program with
  | module span body interpreter =>
    have hbody : outlines ((body.map ModuleItem.erase).map fun item => ⟨item.span, item.emit⟩) =
        outlines (body.map fun item => ⟨item.span, item.emit⟩) := by
      simp [outlines, ModuleItem.outline_erase]
    simp only [erase, emit, outline_append, outline_list, hbody]
  | script span body interpreter =>
    have hbody : outlines ((body.map Node.erase).map fun s => ⟨s.span, s.emit⟩) =
        outlines (body.map fun s => ⟨s.span, s.emit⟩) := by
      simp [outlines, Node.outline_erase]
    simp only [erase, emit, outline_append, outline_list, hbody]

/-! ### Runs -/

namespace Step

/-- The failure of some steps is shown. -/
theorem failure?_outline : ∀ ss : List Step, failure? (ss.filterMap shown?) = failure? ss
  | [] => rfl
  | .fail _ :: _ => rfl
  | .text _ :: ss | .compactLine :: ss | .mark _ :: ss | .softSpace :: ss | .softLine :: ss
  | .comments _ :: ss | .enter :: ss | .leave :: ss => failure?_outline ss

end Step

namespace Writer

/-- The same text at another depth, or with another width of indentation. -/
def reindent (w : Writer) (indent : Nat) (indentWidth : UInt32) : Writer :=
  { w with indent := indent, indentWidth := indentWidth }

theorem pendingIndent_compact {w : Writer} (h : w.isPretty = false) : w.pendingIndent = 0 :=
  pendingIndent_eq_zero (.inl h)

theorem flushIndent_reindent {w : Writer} (h : w.isPretty = false) (indent : Nat)
    (indentWidth : UInt32) :
    (w.reindent indent indentWidth).flushIndent = w.flushIndent.reindent indent indentWidth := by
  have h0 := pendingIndent_compact h
  have h0' : (w.reindent indent indentWidth).pendingIndent = 0 := pendingIndent_compact h
  unfold flushIndent
  rw [h0, h0']
  cases hstart : w.atLineStart with
  | true => simp [reindent, hstart]
  | false => simp [reindent, hstart]

/-- Compact text does not depend on indentation. -/
theorem write_reindent {w : Writer} (h : w.isPretty = false) (indent : Nat) (indentWidth : UInt32)
    (s : String) :
    (w.reindent indent indentWidth).write s = (w.write s).reindent indent indentWidth := by
  unfold write
  rw [flushIndent_reindent h]
  split <;> rfl

theorem position_reindent {w : Writer} (h : w.isPretty = false) (indent : Nat)
    (indentWidth : UInt32) : (w.reindent indent indentWidth).position = w.position := by
  have h0 := pendingIndent_compact h
  have h0' : (w.reindent indent indentWidth).pendingIndent = 0 := pendingIndent_compact h
  unfold position
  rw [h0, h0']
  rfl

end Writer

namespace Printer

/-- A compact printer has written what another has, which records positions, and has
recorded the same positions if it records any. -/
structure Shows (p view : Printer) : Prop where
  compact : view.writer.isPretty = false
  records : view.options.recordsPositions = true
  writer : ∃ indent indentWidth, p.writer = view.writer.reindent indent indentWidth
  marks : p.options.recordsPositions = true →
    p.marks.map Mark.generated = view.marks.map Mark.generated

namespace Shows

variable {p view : Printer}

theorem isCompact (h : Shows p view) : p.writer.isPretty = false := by
  obtain ⟨indent, indentWidth, hw⟩ := h.writer
  rw [hw]
  exact h.compact

theorem text (h : Shows p view) (s : String) : Shows (p.step (.text s)) (view.step (.text s)) := by
  obtain ⟨indent, indentWidth, hw⟩ := h.writer
  refine ⟨(Writer.write_isPretty _ _).trans h.compact, h.records, ⟨indent, indentWidth, ?_⟩, h.marks⟩
  change p.writer.write s = (view.writer.write s).reindent indent indentWidth
  rw [hw, Writer.write_reindent h.compact]

theorem compactLine (h : Shows p view) : Shows (p.step .compactLine) (view.step .compactLine) := by
  obtain ⟨indent, indentWidth, hw⟩ := h.writer
  have hp : p.step .compactLine = p.updateWriter Writer.hardLine := if_neg (by simp [h.isCompact])
  have hv : view.step .compactLine = view.updateWriter Writer.hardLine :=
    if_neg (by simp [h.compact])
  rw [hp, hv]
  refine ⟨h.compact, h.records, ⟨indent, indentWidth, ?_⟩, h.marks⟩
  change p.writer.hardLine = view.writer.hardLine.reindent indent indentWidth
  rw [hw]
  rfl

theorem mark (h : Shows p view) (span span' : Span) :
    Shows (p.step (.mark span)) (view.step (.mark span')) := by
  obtain ⟨indent, indentWidth, hw⟩ := h.writer
  have hv : view.step (.mark span') =
      { view with marks := view.marks.push ⟨span', view.writer.position⟩ } := if_pos h.records
  rw [hv]
  refine ⟨h.compact, h.records, ⟨indent, indentWidth, ?_⟩, fun hr => ?_⟩
  · exact (mark_writer p span).trans hw
  · have hoptions : p.options.recordsPositions = true := (mark_sameSetup p span).options ▸ hr
    have hp : p.step (.mark span) = { p with marks := p.marks.push ⟨span, p.writer.position⟩ } :=
      if_pos hoptions
    rw [hp]
    simp only [Array.map_push, h.marks hoptions, hw, Writer.position_reindent h.compact]

/-- A step that is not shown changes nothing. -/
theorem hidden {s : Step} (h : Shows p view) (hs : s.shown? = none) : p.step s = p := by
  have hp := h.isCompact
  cases s with
  | softSpace => simp [step, updateWriter, Writer.softSpace, hp]
  | softLine => simp [step, updateWriter, Writer.softLine, hp]
  | comments span => exact writeComments_eq (.inr hp) span
  | enter | leave => exact if_neg (by simp [hp])
  | text _ | compactLine | mark _ | fail _ => cases hs

end Shows

/-- **A step of a compact printer shows what is left of it.** -/
theorem step_shows {p view : Printer} (h : Shows p view) (s : Step) :
    Shows (p.step s) (view.perform s.shown?.toList) := by
  cases s with
  | text s => exact h.text s
  | compactLine => exact h.compactLine
  | mark span => exact h.mark span .dummy
  | fail _ => exact h
  | softSpace | softLine | comments _ | enter | leave =>
    rw [h.hidden rfl]
    exact h

/-- **A compact printer shows the outline of the steps it performs.** -/
theorem perform_shows : ∀ (ss : List Step) {p view : Printer}, Shows p view →
    Shows (p.perform ss) (view.perform (ss.filterMap Step.shown?))
  | [], _, _, h => h
  | s :: ss, p, view, h => by
    have ih := perform_shows ss (step_shows h s)
    rw [← perform_append] at ih
    cases hs : s.shown? with
    | none =>
      rw [List.filterMap_cons_none hs]
      simpa [hs] using ih
    | some t =>
      rw [List.filterMap_cons_some hs]
      simpa [hs] using ih

theorem start_shows (indentWidth : UInt32) (records : Bool) (comments : Option CommentTable) :
    Shows (start ⟨false, indentWidth, records⟩ comments) (new ⟨false, 0, true⟩) :=
  ⟨rfl, rfl, ⟨0, indentWidth, rfl⟩, fun _ => rfl⟩

end Printer

/-- Outputs with the same text, and with marks at the same positions if both record
positions. -/
structure SameText (records records' : Bool) (a b : PrintOutput) : Prop where
  code : a.code = b.code
  positions : records = true → records' = true →
    a.marks.map Mark.generated = b.marks.map Mark.generated

/-- **Compact text depends on the shape and the texts of a program only.** Two programs
that are equal once every span is erased have the same compact text and the same error,
for all widths of indentation, with positions recorded or not, and with any comments or
none; and where both record positions, they are the same. -/
theorem compact_depends_on_erase_only {program program' : Program}
    (h : program.erase = program'.erase) (indentWidth indentWidth' : UInt32)
    (records records' : Bool) (comments comments' : Option CommentTable) :
    SameOutcome (SameText records records')
      (printWith program comments ⟨false, indentWidth, records⟩)
      (printWith program' comments' ⟨false, indentWidth', records'⟩) := by
  have houtline : program.emit.outline = program'.emit.outline := by
    rw [← program.outline_erase, ← program'.outline_erase, h]
  have hfailure : program.emit.failure? = program'.emit.failure? := by
    rw [Doc.failure?_eq_steps, Doc.failure?_eq_steps, ← Step.failure?_outline program.emit.steps,
      ← Step.failure?_outline program'.emit.steps]
    exact congrArg Step.failure? houtline
  rw [printWith_eq, printWith_eq, Printer.complete_eq, Printer.complete_eq, hfailure]
  cases hf : program'.emit.failure? with
  | some e => exact .error e
  | none =>
    have hp := Printer.perform_shows program.emit.steps
      (Printer.start_shows indentWidth records comments)
    have hq := Printer.perform_shows program'.emit.steps
      (Printer.start_shows indentWidth' records' comments')
    have hsetup := Printer.perform_sameSetup program.emit.steps
      (.start ⟨false, indentWidth, records⟩ comments)
    have hsetup' := Printer.perform_sameSetup program'.emit.steps
      (.start ⟨false, indentWidth', records'⟩ comments')
    rw [show program'.emit.steps.filterMap Step.shown? = program.emit.steps.filterMap Step.shown?
      from houtline.symm] at hq
    rw [Doc.run_steps_done (hfailure.trans hf), Doc.run_steps_done hf]
    obtain ⟨i, k, hw⟩ := hp.writer
    obtain ⟨i', k', hw'⟩ := hq.writer
    refine .ok ⟨?_, fun hr hr' => ?_⟩
    · exact (congrArg Writer.output hw).trans (congrArg Writer.output hw').symm
    · exact (hp.marks (by rw [hsetup.options]; exact hr)).trans
        (hq.marks (by rw [hsetup'.options]; exact hr')).symm

/-- `switch (x) { case [,]: break; }` with all of it at one span. -/
def switchAt (span : Span) : Program :=
  .script span
    [.switchStmt span (.ident ⟨span, "x", false, none⟩)
      (.cons (.switchCase span (.present (.array span (.cons .absent .nil)))
        (.cons (.breakStmt span none) .nil)) .nil)] none

theorem switchAt_depends_on_erase_only :
    (switchAt (.ofLines 5 40 1 3)).erase = (switchAt .synthesized).erase ∧
      SameOutcome (SameText true true)
        (printWith (switchAt (.ofLines 5 40 1 3)) (some (.ofSource "/*a*/switch"))
          ⟨false, 2, true⟩)
        (printWith (switchAt .synthesized) none ⟨false, 4, true⟩) := by
  have h : (switchAt (.ofLines 5 40 1 3)).erase = (switchAt .synthesized).erase := rfl
  exact ⟨h, compact_depends_on_erase_only h 2 4 true true _ none⟩

end EcmaPrinter
