/-
# Where marks and comments stand

In the steps of a tree a mark is the first step of a node that records where it
starts, an expression, a pattern, a statement or a module declaration, and has
the span of that node. Comments stand right in front of the steps of a list item
and have the span of that item. No failure is an indentation below zero.

This is shown by one induction over the tree, for every phrase that documents are
written with keeps marks and comments in their places (`Node.emit_placed`).

Key definitions: `Marked`, `Item.IsListed`, `Step.Placed`.
Key theorems: `Step.Placed.standsAt`, `Step.Placed.failure?_ne`, `Node.emit_placed`,
`Program.emit_placed`.
-/
import EcmaPrinter.Emit.Program
import EcmaPrinter.Proofs.Emit.Atoms
import EcmaPrinter.Proofs.Layout.Steps
import EcmaPrinter.Proofs.Tree.Every

namespace EcmaPrinter

/-- The nodes that record where they start. -/
inductive Marked where
  | expr (e : Expr)
  | pattern (p : Pattern)
  | stmt (s : Stmt)
  | decl (d : ModuleDecl)

namespace Marked

def span : Marked → Span
  | .expr e => e.span
  | .pattern p => p.span
  | .stmt s => s.span
  | .decl d => d.span

def doc : Marked → Doc
  | .expr e => e.emit
  | .pattern p => p.emit
  | .stmt s => s.emit
  | .decl d => d.emit

/-- A test passes on the node and on everything inside it. -/
def every (test : {c : Category} → Node c → Bool) : Marked → Bool
  | .expr e => e.every test
  | .pattern p => p.every test
  | .stmt s => s.every test
  | .decl d => d.every test

/-- A node that records where it starts does so first. -/
theorem steps_eq_cons (n : Marked) : ∃ rest, n.doc.steps = .mark n.span :: rest := by
  cases n with
  | expr e => cases e <;> exact ⟨_, rfl⟩
  | pattern p => cases p <;> exact ⟨_, rfl⟩
  | stmt s => cases s <;> exact ⟨_, rfl⟩
  | decl d => cases d <;> exact ⟨_, rfl⟩

end Marked

/-- The items of the lists in a tree: nodes, module items, and names that are
imported or exported. A hole at the end of an array prints a comma of its own. -/
inductive Item.IsListed : Item → Prop where
  | node {c : Category} (n : Node c) : IsListed ⟨n.span, n.emit⟩
  | hole : IsListed ⟨Span.synthesized, .text ","⟩
  | moduleItem (item : ModuleItem) : IsListed ⟨item.span, item.emit⟩
  | importName (span : Span) (binding : Ident) (imported : Option Ident) :
      IsListed (SpecifierGroups.importItem span binding imported)
  | exportName (span : Span) (name : Ident) (exported : Option Ident) :
      IsListed (SpecifierGroups.exportItem span name exported)

namespace Step

variable {Q : Marked → Prop}

/-- A step is in its place in front of the others: comments in front of their list
item, and a mark at the start of its node, which satisfies `Q`. -/
def StandsAt (Q : Marked → Prop) : Step → List Step → Prop
  | .comments span, rest =>
    ∃ item : Item, item.IsListed ∧ item.span = span ∧ item.doc.steps <+: rest
  | .mark span, rest => ∃ n : Marked, Q n ∧ n.span = span ∧ n.doc.steps <+: .mark span :: rest
  | .fail e, _ => e ≠ .indentUnderflow
  | _, _ => True

/-- All of some steps are in their places, in front of those that follow them. -/
def Placed (Q : Marked → Prop) : List Step → List Step → Prop
  | [], _ => True
  | s :: ss, rest => s.StandsAt Q (ss ++ rest) ∧ Placed Q ss rest

variable {ss ts rest : List Step}

@[simp] theorem placed_nil : Placed Q [] rest := trivial

@[simp] theorem placed_text {s : String} : Placed Q (.text s :: ss) rest ↔ Placed Q ss rest := by
  simp [Placed, StandsAt]

@[simp] theorem placed_softSpace : Placed Q (.softSpace :: ss) rest ↔ Placed Q ss rest := by
  simp [Placed, StandsAt]

@[simp] theorem placed_softLine : Placed Q (.softLine :: ss) rest ↔ Placed Q ss rest := by
  simp [Placed, StandsAt]

@[simp] theorem placed_compactLine : Placed Q (.compactLine :: ss) rest ↔ Placed Q ss rest := by
  simp [Placed, StandsAt]

@[simp] theorem placed_enter : Placed Q (.enter :: ss) rest ↔ Placed Q ss rest := by
  simp [Placed, StandsAt]

@[simp] theorem placed_leave : Placed Q (.leave :: ss) rest ↔ Placed Q ss rest := by
  simp [Placed, StandsAt]

@[simp] theorem placed_fail {e : EmitError} :
    Placed Q (.fail e :: ss) rest ↔ e ≠ .indentUnderflow ∧ Placed Q ss rest := Iff.rfl

@[simp] theorem placed_append :
    Placed Q (ss ++ ts) rest ↔ Placed Q ss (ts ++ rest) ∧ Placed Q ts rest := by
  induction ss with
  | nil => simp
  | cons s ss ih => simp [Placed, ih, and_assoc]

namespace Placed

/-- Every step is in its place in front of those behind it. -/
theorem standsAt {before : List Step} {s : Step} (h : Placed Q (before ++ s :: ss) []) :
    s.StandsAt Q ss := by
  obtain ⟨-, h, -⟩ := placed_append.mp h
  rwa [List.append_nil] at h

/-- The steps of a list item, with its comments in front. -/
theorem item {i : Item} (hi : i.IsListed) (h : Placed Q i.doc.steps rest) :
    Placed Q (.comments i.span :: i.doc.steps) rest :=
  ⟨⟨i, hi, rfl, List.prefix_append _ _⟩, h⟩

/-- The steps of a node that records where it starts, if those behind the mark are
in their places. -/
theorem marked {n : Marked} (hn : Q n) (h : Placed Q n.doc.steps.tail rest) :
    Placed Q n.doc.steps rest := by
  obtain ⟨tail, htail⟩ := n.steps_eq_cons
  rw [htail] at h ⊢
  refine ⟨⟨n, hn, rfl, ?_⟩, h⟩
  rw [htail, ← List.cons_append]
  exact List.prefix_append _ _

/-- **Steps in their places never fail with an indentation below zero.** -/
theorem failure?_ne (h : Placed Q ss rest) : failure? ss ≠ some .indentUnderflow := by
  induction ss with
  | nil => exact nofun
  | cons s ss ih =>
    obtain ⟨hs, hss⟩ := h
    cases s with
    | fail e => exact fun he => hs (Option.some.inj he)
    | text _ | softSpace | softLine | compactLine | mark _ | comments _ | enter | leave =>
      exact ih hss

end Placed

end Step

/-! ### Phrases of every list and node -/

namespace Doc

open Step

variable {Q : Marked → Prop} {d : Doc} {rest : List Step}

/-- Marks and comments are in their places in a document, whatever follows it. -/
@[simp] abbrev Keeps (Q : Marked → Prop) (d : Doc) : Prop := ∀ rest, Placed Q d.steps rest

@[simp] theorem steps_empty : empty.steps = [] := rfl

@[simp] theorem steps_text (s : String) : (text s).steps = [.text s] := rfl

@[simp] theorem steps_softSpace : softSpace.steps = [.softSpace] := rfl

@[simp] theorem steps_softLine : softLine.steps = [.softLine] := rfl

@[simp] theorem steps_compactLine : compactLine.steps = [.compactLine] := rfl

@[simp] theorem steps_mark (span : Span) : (mark span).steps = [.mark span] := rfl

@[simp] theorem steps_fail (e : EmitError) : (fail e).steps = [.fail e] := rfl

@[simp] theorem steps_nest (body : Doc) :
    (nest body).steps = .enter :: (body.steps ++ [.leave]) := rfl

@[simp] theorem steps_space : space.steps = [.text " "] := rfl

@[simp] theorem placed_spaceIf (b : Bool) : Placed Q (spaceIf b).steps rest := by
  cases b <;> simp [spaceIf]

@[simp] theorem placed_when {b : Bool} :
    Placed Q (when b d).steps rest ↔ (b = true → Placed Q d.steps rest) := by
  cases b <;> simp [when]

@[simp] theorem placed_check {b : Bool} {e : EmitError} (h : e ≠ .indentUnderflow) :
    Placed Q (check b e).steps rest := by
  cases b <;> simp [check, h]

@[simp] theorem placed_reject (b : Bool) (kind : NodeKind) : Placed Q (reject b kind).steps rest :=
  placed_check nofun

@[simp] theorem placed_between {opening closing : String} :
    Placed Q (between opening closing d).steps rest ↔ Placed Q d.steps (.text closing :: rest) := by
  simp [between]

@[simp] theorem placed_breakOr (isBroken isSpaced : Bool) :
    Placed Q (breakOr isBroken isSpaced).steps rest := by
  unfold breakOr
  split
  · simp
  · split <;> simp

/-- Items that may be laid out as a list. -/
def Listed (Q : Marked → Prop) (items : List Item) : Prop :=
  ∀ item ∈ items, item.IsListed ∧ item.doc.Keeps Q

@[simp] theorem listed_nil : Listed Q [] := List.forall_mem_nil _

theorem keeps_listItem (f : ListFormat) {item : Item} (hi : item.IsListed)
    (h : item.doc.Keeps Q) : (listItem f item).Keeps Q := by
  intro rest
  unfold listItem
  cases f.noInterveningComments with
  | true => simpa [when] using h rest
  | false => exact Placed.item hi (h rest)

theorem keeps_listTail (f : ListFormat) : ∀ (previous : Span) {items : List Item},
    Listed Q items → (listTail f previous items).Keeps Q
  | _, [], _, _ => placed_nil
  | _, item :: items, h, rest => by
    obtain ⟨hitem, hitems⟩ := List.forall_mem_cons.mp h
    have htail := keeps_listTail f item.span hitems
    have hhead := keeps_listItem f hitem.1 hitem.2
    simp [listTail, htail, hhead]

/-- **A list keeps marks and comments in their places.** -/
@[simp] theorem placed_list {parent : Span} {f : ListFormat} {items : List Item}
    (h : Listed Q items) : Placed Q (list parent f items).steps rest := by
  unfold list
  split
  · exact placed_nil
  · cases items with
    | nil =>
      simp only [listBody]
      split <;> simp
    | cons first rest =>
      obtain ⟨hfirst, hrest⟩ := List.forall_mem_cons.mp h
      have hhead := keeps_listItem f hfirst.1 hfirst.2
      have htail := keeps_listTail f first.span hrest
      simp only [listBody]
      split <;> simp [hhead, htail]

@[simp] theorem placed_listIfAny {parent : Span} {f : ListFormat} {items : Option (List Item)}
    (h : Listed Q (items.getD [])) : Placed Q (listIfAny parent f items).steps rest := by
  unfold listIfAny
  split
  · exact placed_nil
  · exact placed_list h

end Doc

/-! ### Phrases of one kind of node -/

namespace Emit

open Doc Step

variable {Q : Marked → Prop} {d : Doc} {rest : List Step}

@[simp] theorem placed_ident (name : Ident) : Placed Q (ident name).steps rest := by
  simp [ident]

@[simp] theorem placed_privateName (name : PrivateName) : Placed Q (privateName name).steps rest := by
  simp [privateName]

@[simp] theorem placed_str (literal : StringLit) : Placed Q (str literal).steps rest := by
  simp [str]

@[simp] theorem placed_num (literal : NumberLit) : Placed Q (num literal).steps rest := by
  simp [num]

@[simp] theorem placed_regex (literal : RegexLit) : Placed Q (regex literal).steps rest := by
  simp [regex]

@[simp] theorem placed_template {quasis : List Quasi} {items : List Item} (h : Listed Q items) :
    Placed Q (template quasis items).steps rest := by
  have hinner : (interleave quasis items).Keeps Q := by
    intro rest
    fun_induction interleave quasis items generalizing rest with
    | case1 => exact placed_nil
    | case2 quasi quasis ih => simpa using ih h rest
    | case3 quasi quasis e es ih =>
      obtain ⟨he, hes⟩ := List.forall_mem_cons.mp h
      simp [he.2, ih hes]
  simp [template, hinner]

@[simp] theorem placed_assignedValue {sign : String} :
    Placed Q (assignedValue sign d).steps rest ↔ Placed Q d.steps rest := by
  simp [assignedValue]

@[simp] theorem placed_initializer {value : Node (.opt .expr)} (h : d.Keeps Q) :
    Placed Q (initializer value d).steps rest := by
  cases value <;> simp [initializer, h]

@[simp] theorem placed_dotted (property : Node .expr) : Placed Q (dotted property).steps rest := by
  cases property with
  | ident name => exact placed_ident name
  | privateName name => exact placed_privateName name
  | _ => exact placed_fail.mpr ⟨by simp, trivial⟩

@[simp] theorem placed_member {object property : Node .expr} {isComputed : Bool} {d' : Doc}
    (h : d.Keeps Q) (h' : d'.Keeps Q) :
    Placed Q (member object property isComputed d d').steps rest := by
  cases isComputed <;> simp [member, h, h']

@[simp] theorem placed_parensIf {condition : Bool} (h : d.Keeps Q) :
    Placed Q (parensIf condition d).steps rest := by
  cases condition <;> simp [parensIf, h]

@[simp] theorem placed_keywordBefore {c : Category} {keyword : String} {next : Node c} :
    Placed Q (keywordBefore keyword next d).steps rest ↔ Placed Q d.steps rest := by
  simp [keywordBefore]

@[simp] theorem placed_yieldArgument {isDelegate : Bool} {argument : Node (.opt .expr)}
    (h : d.Keeps Q) : Placed Q (yieldArgument isDelegate argument d).steps rest := by
  cases argument <;> simp [yieldArgument, h]

@[simp] theorem placed_needsBody (owner : BodyOwner) (body : Node (.opt .block)) :
    Placed Q (needsBody owner body).steps rest := by
  cases body <;> simp [needsBody]

@[simp] theorem placed_functionKeyword (f : Node .function) :
    Placed Q (functionKeyword f).steps rest := by
  simp [functionKeyword]

@[simp] theorem placed_functionNameGap (f : Node .function) :
    Placed Q (functionNameGap f).steps rest := by
  simp [functionNameGap]

@[simp] theorem placed_functionName (f : Node .function) (name : Option Ident) :
    Placed Q (functionName f name).steps rest := by
  cases name <;> simp [functionName]

@[simp] theorem placed_methodWords (f : Node .function) : Placed Q (methodWords f).steps rest := by
  simp [methodWords]

@[simp] theorem placed_methodLead (traits : MethodTraits) (f : Node .function) :
    Placed Q (methodLead traits f).steps rest := by
  unfold methodLead
  cases traits.kind <;> simp

@[simp] theorem placed_arrowBody {body : Node .arrowBody} (h : d.Keeps Q) :
    Placed Q (arrowBody body d).steps rest := by
  cases body <;> simp [arrowBody, h]

@[simp] theorem placed_rejectModifiers (accessibility : Option Accessibility)
    (isAbstract isOptional : Bool) :
    Placed Q (rejectModifiers accessibility isAbstract isOptional).steps rest := by
  simp [rejectModifiers]

@[simp] theorem placed_rejectTraits (decorators : Nodes .decorator) (traits : PropertyTraits) :
    Placed Q (rejectTraits decorators traits).steps rest := by
  simp [rejectTraits]

@[simp] theorem placed_namedClass {name : Option Ident} {k : Node .klass} (h : d.Keeps Q) :
    Placed Q (namedClass name k d).steps rest := by
  have hreject : (rejectClass k).Keeps Q := by
    cases k
    simp [rejectClass]
  cases name <;> simp [namedClass, hreject, h]

@[simp] theorem placed_heritage {superClass : Node (.opt .expr)} (h : d.Keeps Q) :
    Placed Q (heritage superClass d).steps rest := by
  cases superClass <;> simp [heritage, h]

@[simp] theorem placed_headed {keyword : String} :
    Placed Q (headed keyword d).steps rest ↔ Placed Q d.steps (.text ")" :: rest) := by
  simp [headed]

@[simp] theorem placed_operandAfter {argument : Node (.opt .expr)} (h : d.Keeps Q) :
    Placed Q (operandAfter argument d).steps rest := by
  cases argument <;> simp [operandAfter, h]

@[simp] theorem placed_jump (keyword : String) (label : Option Ident) :
    Placed Q (jump keyword label).steps rest := by
  cases label <;> simp [jump]

@[simp] theorem placed_elseBranch {consequent : Node .stmt} {alternate : Node (.opt .stmt)}
    (h : d.Keeps Q) : Placed Q (elseBranch consequent alternate d).steps rest := by
  cases alternate <;> simp [elseBranch, h]

@[simp] theorem placed_spaced {c : Category} {place : Node (.opt c)} (h : d.Keeps Q) :
    Placed Q (spaced place d).steps rest := by
  cases place <;> simp [spaced, h]

@[simp] theorem placed_finallyBlock {finalizer : Node (.opt .block)} (h : d.Keeps Q) :
    Placed Q (finallyBlock finalizer d).steps rest := by
  cases finalizer <;> simp [finallyBlock, h]

@[simp] theorem placed_catchParam {param : Node (.opt .pattern)} (h : d.Keeps Q) :
    Placed Q (catchParam param d).steps rest := by
  cases param <;> simp [catchParam, h]

@[simp] theorem placed_checkBindings (head : ForHead) (target : Node .forTarget) :
    Placed Q (checkBindings head target).steps rest := by
  unfold checkBindings
  split <;> simp

@[simp] theorem placed_caseHead {value : Node (.opt .expr)} (h : d.Keeps Q) :
    Placed Q (caseHead value d).steps rest := by
  cases value <;> simp [caseHead, h]

@[simp] theorem placed_caseBody {span : Span} {items : List Item} (h : Listed Q items) :
    Placed Q (caseBody span items).steps rest := by
  simp only [caseBody, apply_ite (fun d : Doc => Placed Q d.steps rest), steps_append,
    steps_softSpace, List.singleton_append, placed_softSpace, placed_list h, ite_self]

@[simp] theorem placed_bindingKeyword (kind : BindingKind) (ds : Nodes .declarator) :
    Placed Q (bindingKeyword kind ds).steps rest := by
  cases ds with
  | nil => simp [bindingKeyword]
  | cons d ds =>
    cases d
    simp [bindingKeyword]

/-- The comma of a hole at the end is an item as well. -/
theorem listed_elements {c : Category} {elements : Nodes (.opt c)} (h : Listed Q elements.items) :
    Listed Q (closeHole (endsWithHole elements) elements.items) := by
  have hlast : endsWithHole elements = true → ∀ item, elements.items.getLast? = some item →
      item.span = Span.synthesized := by
    intro hole item hitem
    rw [Nodes.getLast?_items, getLast?_of_endsWithHole hole] at hitem
    cases hitem
    rfl
  revert hlast h
  generalize endsWithHole elements = isHole, elements.items = items
  intro h hlast
  induction items with
  | nil => exact h
  | cons item items ih =>
    obtain ⟨hitem, hitems⟩ := List.forall_mem_cons.mp h
    cases items with
    | nil =>
      cases isHole with
      | false => exact h
      | true =>
        obtain ⟨span, doc⟩ := item
        have hspan : span = Span.synthesized := hlast rfl ⟨span, doc⟩ rfl
        subst hspan
        exact List.forall_mem_cons.mpr ⟨⟨.hole, by simp⟩, List.forall_mem_nil _⟩
    | cons next rest =>
      refine List.forall_mem_cons.mpr ⟨hitem, ih hitems fun hole i hi => hlast hole i ?_⟩
      rwa [List.getLast?_cons_cons]

end Emit

/-! ### Nodes -/

open Doc Step

section Nodes

variable {test : {c : Category} → Node c → Bool} {rest : List Step}

theorem placed_expr {e : Expr} (h : e.every test = true)
    (hs : Placed (fun m => m.every test = true) e.emit.steps.tail rest) :
    Placed (fun m => m.every test = true) e.emit.steps rest :=
  Placed.marked (n := .expr e) h hs

theorem placed_pattern {p : Pattern} (h : p.every test = true)
    (hs : Placed (fun m => m.every test = true) p.emit.steps.tail rest) :
    Placed (fun m => m.every test = true) p.emit.steps rest :=
  Placed.marked (n := .pattern p) h hs

theorem placed_stmt {s : Stmt} (h : s.every test = true)
    (hs : Placed (fun m => m.every test = true) s.emit.steps.tail rest) :
    Placed (fun m => m.every test = true) s.emit.steps rest :=
  Placed.marked (n := .stmt s) h hs

/-- **The steps of a node are in their places.** A test that passes on everything in
the node passes on all that is marked. -/
theorem Node.emit_placed {c : Category} (n : Node c) (h : n.every test = true) :
    n.emit.Keeps fun m => m.every test = true := by
  revert h
  -- every constructor's document is a phrase of the documents of its parts, behind the mark if
  -- there is one
  apply @Node.rec
    (fun _ n => n.every test = true → ∀ rest, Placed (fun m => m.every test = true) n.emit.steps rest)
    (fun _ ns => ns.every test = true → Listed (fun m => m.every test = true) ns.items)
  case nil => exact fun _ => listed_nil
  case cons =>
    intro c n ns hn hns h
    obtain ⟨h, h'⟩ := Bool.and_eq_true_iff.mp h
    exact List.forall_mem_cons.mpr ⟨⟨.node n, hn h⟩, hns h'⟩
  all_goals intros
  all_goals rename_i h rest
  all_goals with_reducible first
    | refine placed_expr h ?_
    | refine placed_pattern h ?_
    | refine placed_stmt h ?_
    | skip
  all_goals try dsimp! only at h ⊢
  all_goals try simp only [Bool.and_eq_true] at h
  case array ih => exact placed_list (Emit.listed_elements (ih h.2))
  case arrayPattern ih => simp [Emit.listed_elements (ih h.2)]
  case unary ih => split <;> simp [ih h.2]
  case update ih => split <;> simp [ih h.2]
  case classProperty ihk ihv _ => split <;> simp [ihk h.1.1.2, ihv h.1.2]
  all_goals simp [*]

/-! ### Programs -/

namespace SpecifierGroups

variable {Q : Marked → Prop}

theorem listed_importItem (span : Span) (binding : Ident) (imported : Option Ident) :
    Listed Q [importItem span binding imported] := by
  refine List.forall_mem_cons.mpr ⟨⟨.importName span binding imported, ?_⟩, listed_nil⟩
  cases imported <;> simp [importItem]

theorem listed_exportItem (span : Span) (name : Ident) (exported : Option Ident) :
    Listed Q [exportItem span name exported] := by
  refine List.forall_mem_cons.mpr ⟨⟨.exportName span name exported, ?_⟩, listed_nil⟩
  cases exported <;> simp [exportItem]

/-- Import specifiers in groups are names that are imported. -/
theorem listed_addImports {specifiers : List ImportSpecifier} {g g' : SpecifierGroups}
    (h : Listed Q g.named) (hg : addImports g specifiers = some g') : Listed Q g'.named := by
  fun_induction addImports g specifiers with
  | case1 g =>
    cases hg
    exact h
  | case2 => cases hg
  | case3 g span binding rest ih => exact ih h hg
  | case4 g span binding imported rest ih =>
    exact ih (List.forall_mem_append.mpr ⟨h, listed_importItem span binding imported⟩) hg

theorem listed_ofImports? {specifiers : List ImportSpecifier} {g : SpecifierGroups}
    (h : ofImports? specifiers = some g) : Listed Q g.named := by
  unfold ofImports? at h
  split at h <;> exact listed_addImports listed_nil h

/-- Export specifiers in groups are names that are exported. -/
theorem listed_addExports {specifiers : List ExportSpecifier} {g : SpecifierGroups}
    (h : Listed Q g.named) : Listed Q (addExports g specifiers).named := by
  fun_induction addExports g specifiers with
  | case1 g => exact h
  | case2 g span exported rest ih => exact ih h
  | case3 g span name rest ih => exact ih h
  | case4 g span name exported rest ih =>
    exact ih (List.forall_mem_append.mpr ⟨h, listed_exportItem span name exported⟩)

theorem listed_ofExports (specifiers : List ExportSpecifier) :
    Listed Q (ofExports specifiers).named :=
  listed_addExports listed_nil

end SpecifierGroups

namespace Emit

variable {Q : Marked → Prop}

@[simp] theorem placed_groupGap (isAfterGroup : Bool) : Placed Q (groupGap isAfterGroup).steps rest := by
  simp [groupGap]

@[simp] theorem placed_defaultClause (name : Option Ident) :
    Placed Q (defaultClause name).steps rest := by
  cases name <;> simp [defaultClause]

@[simp] theorem placed_starClause (isAfterGroup : Bool) (name : Option Ident) :
    Placed Q (starClause isAfterGroup name).steps rest := by
  cases name <;> simp [starClause]

@[simp] theorem placed_namedClause {parent : Span} {isAfterGroup : Bool} {items : List Item}
    (h : Listed Q items) : Placed Q (namedClause parent isAfterGroup items).steps rest := by
  simp [namedClause, h]

@[simp] theorem placed_fromClause (isAfterName : Bool) (source : StringLit) :
    Placed Q (fromClause isAfterName source).steps rest := by
  simp [fromClause]

@[simp] theorem placed_importDecl (span : Span) (specifiers : List ImportSpecifier)
    (source : StringLit) : Placed Q (importDecl span specifiers source).steps rest := by
  unfold importDecl
  split
  · simp
  · split
    · simp
    · rename_i g hg
      simp [SpecifierGroups.listed_ofImports? hg]

@[simp] theorem placed_exportNamed (span : Span) (specifiers : List ExportSpecifier)
    (source : Option StringLit) : Placed Q (exportNamed span specifiers source).steps rest := by
  cases source <;> simp [exportNamed, SpecifierGroups.listed_ofExports]

@[simp] theorem placed_interpreter (name : Option String) :
    Placed Q (interpreter name).steps rest := by
  cases name <;> simp [interpreter]

end Emit

theorem DefaultDecl.emit_placed {d : DefaultDecl} (h : d.every test = true) :
    (Emit.defaultDecl d).Keeps fun m => m.every test = true := by
  cases d with
  | klass c => exact Node.emit_placed c h
  | function f => exact Node.emit_placed f h
  | interface _ => exact fun rest => placed_reject true _

theorem ModuleDecl.emit_placed {d : ModuleDecl} (h : d.every test = true) :
    d.emit.Keeps fun m => m.every test = true := by
  intro rest
  refine Placed.marked (n := .decl d) h ?_
  change Placed _ d.emit.steps.tail rest
  cases d with
  | importDecl span specifiers source => exact Emit.placed_importDecl span specifiers source
  | exportDecl span declaration =>
    simpa [emit] using Node.emit_placed declaration h rest
  | exportNamed span specifiers source => exact Emit.placed_exportNamed span specifiers source
  | exportDefaultDecl span declaration =>
    simpa [emit] using DefaultDecl.emit_placed h rest
  | exportDefaultExpr span expression =>
    have he := Node.emit_placed expression h
    simp only [emit, Emit.defaultExpr]
    split <;> simp [he]
  | exportAll span source => simp [emit]
  | typeModule form payload => exact placed_reject true _

theorem ModuleItem.emit_placed {item : ModuleItem} (h : item.every test = true) :
    item.emit.Keeps fun m => m.every test = true := by
  cases item with
  | decl d => exact ModuleDecl.emit_placed h
  | stmt s => exact Node.emit_placed s h

/-- **The steps of a program are in their places.** -/
theorem Program.emit_placed {program : Program} (h : program.every test = true) :
    program.emit.Keeps fun m => m.every test = true := by
  intro rest
  cases program with
  | module span body interpreter =>
    have hbody : Listed (fun m => m.every test = true)
        (body.map fun item => ⟨item.span, item.emit⟩) :=
      List.forall_mem_map.mpr fun item hitem =>
        ⟨.moduleItem item, ModuleItem.emit_placed (List.all_eq_true.mp h item hitem)⟩
    simp [emit, hbody]
  | script span body interpreter =>
    have hbody : Listed (fun m => m.every test = true) (body.map fun s => ⟨s.span, s.emit⟩) :=
      List.forall_mem_map.mpr fun s hs =>
        ⟨.node s, Node.emit_placed s (List.all_eq_true.mp h s hs)⟩
    simp [emit, hbody]

end Nodes

end EcmaPrinter
