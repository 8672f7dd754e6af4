/-
# Printed text is well bracketed

The brackets of a printed text come from the formats of lists, from pairs around
heads, keys and substitutions, and from parentheses that an expression needs where
it stands. Names and literals are written as they are, so nothing can be said if
they have brackets themselves. If they have none, every node's document is balanced
(`Node.emit_isBalanced`), by induction over the tree: each phrase closes what it
opens.

Key definitions: `Node.texts`, `ModuleDecl.texts`, `Program.isBracketFree`.
Key theorems: `Node.emit_isBalanced`, `Program.emit_isBalanced`,
`printed_code_is_well_bracketed`.
-/
import EcmaPrinter.Proofs.Emit.Phrases
import EcmaPrinter.Proofs.Emit.Session
import EcmaPrinter.Proofs.Layout.Brackets

namespace EcmaPrinter

/-! ### Texts of the tree -/

/-- The texts that a node holds itself and that are written as they are. -/
def Node.texts : {c : Category} → Node c → List String
  | _, .str literal | _, .strKey literal => [literal.value]
  | _, .regex literal => literal.pattern.value :: (literal.flags.map StringLit.value).toList
  | _, .template _ _ quasis | _, .taggedTemplate _ _ _ quasis _ =>
    quasis.map fun quasi => quasi.raw.value
  | _, n => n.names.map Ident.name

/-- No text that a node holds itself has brackets. -/
def Node.isBracketFree {c : Category} (n : Node c) : Bool := n.texts.all EcmaPrinter.isBracketFree

/-- The texts of an import or export besides those of the nodes in it. -/
def ModuleDecl.texts : ModuleDecl → List String
  | .importDecl _ specifiers source =>
    (specifiers.flatMap fun s => s.names.map Ident.name) ++ [source.value]
  | .exportNamed _ specifiers source =>
    (specifiers.flatMap fun s => s.names.map Ident.name) ++ (source.map StringLit.value).toList
  | .exportAll _ source => [source.value]
  | .exportDecl _ _ | .exportDefaultDecl _ _ | .exportDefaultExpr _ _ | .typeModule _ _ => []

def ModuleItem.texts : ModuleItem → List String
  | .decl d => d.texts
  | .stmt _ => []

/-- The texts of a program besides those of its nodes. -/
def Program.texts : Program → List String
  | .module _ body interpreter => interpreter.toList ++ body.flatMap ModuleItem.texts
  | .script _ _ interpreter => interpreter.toList

/-- No text of a program that is written as it is has brackets. -/
def Program.isBracketFree (program : Program) : Bool :=
  program.texts.all EcmaPrinter.isBracketFree && program.every Node.isBracketFree

/-! ### Names, strings and numbers -/

theorem BinaryOp.isBracketFree_text (op : BinaryOp) : isBracketFree op.text = true := by
  cases op <;> decide

theorem AssignOp.isBracketFree_text (op : AssignOp) : isBracketFree op.text = true := by
  cases op <;> decide

namespace Text

theorem isBracket_hexDigit (n : Nat) : isBracket (hexDigit (n % 16)) = false := by
  have hall : ∀ k : Fin 16, isBracket (hexDigit k) = false := by decide
  exact hall ⟨n % 16, Nat.mod_lt _ (by decide)⟩

open Lexical in
/-- The written form of a character has no bracket unless the character is one. -/
theorem isBracket_escapeChar {quote c : Char} (hc : isBracket c = false) (next : Option Char) :
    ∀ d ∈ escapeChar quote next c, isBracket d = false := by
  have hback : isBracket '\\' = false := by decide
  have hletter : ∀ p ∈ letterEscapes, isBracket p.2 = false := by decide
  have hfixed {cs : List Char} (h : (cs.all fun d => !isBracket d) = true) :
      ∀ d ∈ cs, isBracket d = false := by
    simpa using h
  have hform := escapeChar_writtenForm quote next c
  generalize escapeChar quote next c = text at hform
  cases hform with
  | plain => exact List.forall_mem_singleton.mpr hc
  | letter hl => exact List.forall_mem_cons.mpr ⟨hback, List.forall_mem_singleton.mpr (hletter _ hl)⟩
  | quote => exact List.forall_mem_cons.mpr ⟨hback, List.forall_mem_singleton.mpr hc⟩
  | zero | zeroBeforeDigit => exact hfixed rfl
  | hex =>
    simp only [hex4, List.forall_mem_cons]
    exact ⟨hback, by decide, isBracket_hexDigit _, isBracket_hexDigit _, isBracket_hexDigit _,
      isBracket_hexDigit _, List.forall_mem_nil _⟩

theorem isBracket_escape {quote : Char} : ∀ {cs : List Char}, (∀ c ∈ cs, isBracket c = false) →
    ∀ d ∈ escape quote cs, isBracket d = false
  | [], _ => nofun
  | c :: cs, h => by
    obtain ⟨hc, hcs⟩ := List.forall_mem_cons.mp h
    exact List.forall_mem_append.mpr ⟨isBracket_escapeChar hc cs.head?, isBracket_escape hcs⟩

/-- **A quoted string has the brackets of its value only.** -/
theorem isBracketFree_quoted {value : String} (h : isBracketFree value = true) :
    isBracketFree (quoted value) = true := by
  have hvalue : ∀ c ∈ value.toList, isBracket c = false := fun c hc => by
    simpa using List.all_eq_true.mp h c hc
  have hquote : isBracket (chooseQuote value.toList) = false := by
    unfold chooseQuote
    split <;> decide
  have hbody : ∀ d ∈ escape (chooseQuote value.toList) value.toList, isBracket d = false :=
    isBracket_escape hvalue
  rw [isBracketFree, List.all_eq_true, quoted, String.toList_ofList]
  intro c hc
  rw [List.mem_append, List.mem_cons, List.mem_singleton] at hc
  rcases hc with (rfl | hc) | rfl
  · simp [hquote]
  · simp [hbody c hc]
  · simp [hquote]

end Text

/-! ### Nodes -/

open Doc

/-- The substitutions of a template are closed. -/
theorem Emit.interleave_isBalanced : ∀ {quasis : List Quasi} {items : List Item},
    (∀ quasi ∈ quasis, isBracketFree quasi.raw.value = true) →
    (∀ item ∈ items, item.doc.IsBalanced) → (interleave quasis items).IsBalanced
  | [], _, _, _ => phrasing_isBalanced.empty
  | quasi :: quasis, [], hq, hitems => by
    obtain ⟨hquasi, hquasis⟩ := List.forall_mem_cons.mp hq
    exact (isBalanced_of_isBracketFree hquasi).append (interleave_isBalanced hquasis hitems)
  | quasi :: quasis, e :: es, hq, hitems => by
    obtain ⟨hquasi, hquasis⟩ := List.forall_mem_cons.mp hq
    obtain ⟨he, hes⟩ := List.forall_mem_cons.mp hitems
    have hsubstitution : (between "$\x7b" "\x7d" e.doc).IsBalanced :=
      he.between (fun _ => rfl) fun _ => rfl
    have hwhole := ((isBalanced_of_isBracketFree hquasi).append hsubstitution).append
      (interleave_isBalanced hquasis hes)
    refine phrasing_isBalanced.congr ?_ hwhole
    simp only [interleave, between, steps_append, List.append_assoc]

theorem Emit.template_isBalanced {quasis : List Quasi} {items : List Item}
    (hq : ∀ quasi ∈ quasis, isBracketFree quasi.raw.value = true)
    (hitems : ∀ item ∈ items, item.doc.IsBalanced) : (template quasis items).IsBalanced :=
  (((phrasing_isBalanced.check _ _).append (isBalanced_of_isBracketFree (by decide))).append
    (interleave_isBalanced hq hitems)).append (isBalanced_of_isBracketFree (by decide))

theorem Emit.regex_isBalanced {literal : RegexLit}
    (hpattern : isBracketFree literal.pattern.value = true)
    (hflags : ∀ flags ∈ literal.flags.map StringLit.value, isBracketFree flags = true) :
    (regex literal).IsBalanced := by
  have hflags : isBracketFree ((literal.flags.map StringLit.value).getD "") = true := by
    cases hf : literal.flags.map StringLit.value with
    | none => decide
    | some flags => exact hflags flags hf
  have hslash : (Doc.text "/").IsBalanced := isBalanced_of_isBracketFree (by decide)
  exact ((hslash.append (isBalanced_of_isBracketFree hpattern)).append hslash).append
    (isBalanced_of_isBracketFree hflags)

/-- **Texts without brackets are all that balance asks for.** -/
theorem Node.asks_isBalanced {c : Category} (n : Node c) (h : n.isBracketFree = true) :
    n.Asks IsBalanced := by
  have htexts : ∀ s ∈ n.texts, EcmaPrinter.isBracketFree s = true := List.all_eq_true.mp h
  have hnames : n.texts = n.names.map Ident.name → ∀ name ∈ n.names, (Doc.text name.name).IsBalanced :=
    fun heq name hname => isBalanced_of_isBracketFree (htexts _ (heq ▸ List.mem_map_of_mem hname))
  cases n with
  | str literal | strKey literal =>
    exact isBalanced_of_isBracketFree (Text.isBracketFree_quoted (htexts _ (List.mem_singleton_self _)))
  | regex literal =>
    obtain ⟨hpattern, hflags⟩ := List.forall_mem_cons.mp htexts
    exact (phrasing_isBalanced.mark _).append
      (Emit.regex_isBalanced hpattern fun flags hf => hflags flags (by simpa using hf))
  | template span expressions quasis | taggedTemplate span tag expressions quasis typeParameters =>
    exact Emit.template_isBalanced (List.forall_mem_map.mp htexts)
  | binary span op left right =>
    have hop : (Doc.text op.text).IsBalanced :=
      isBalanced_of_isBracketFree op.isBracketFree_text
    exact (((phrasing_isBalanced.spaceIf _).append hop).append (phrasing_isBalanced.spaceIf _)).append
  | assign span op target value =>
    exact phrasing_isBalanced.softSpace.append (isBalanced_of_isBracketFree op.isBracketFree_text)
  | _ => exact hnames rfl

/-- **The document of a node is balanced** if no text in the node has brackets. -/
theorem Node.emit_isBalanced {c : Category} (n : Node c) (h : n.every Node.isBracketFree = true) :
    n.emit.IsBalanced :=
  n.emit_phrase phrasing_isBalanced (fun m hm => m.asks_isBalanced (m.test_of_every hm)) h

/-! ### Programs -/

theorem ModuleDecl.asks_isBalanced {d : ModuleDecl} (h : d.texts.all isBracketFree = true) :
    d.Asks IsBalanced := by
  have htexts : ∀ s ∈ d.texts, isBracketFree s = true := List.all_eq_true.mp h
  have hnames : ∀ name ∈ d.names, name.name ∈ d.texts := by
    intro name hname
    cases d with
    | importDecl | exportNamed =>
      obtain ⟨s, hs, hmem⟩ := List.mem_flatMap.mp hname
      exact List.mem_append_left _ (List.mem_flatMap.mpr ⟨s, hs, List.mem_map_of_mem hmem⟩)
    | _ => cases hname
  have hsources : ∀ source ∈ d.sources, source.value ∈ d.texts := by
    intro source hsource
    cases d with
    | importDecl => exact List.mem_append_right _ (List.mem_map_of_mem hsource)
    | exportNamed =>
      exact List.mem_append_right _ (by simpa using ⟨source, Option.mem_toList.mp hsource, rfl⟩)
    | exportAll => exact List.mem_map_of_mem hsource
    | _ => cases hsource
  exact ⟨fun name hname => isBalanced_of_isBracketFree (htexts _ (hnames name hname)),
    fun source hsource => isBalanced_of_isBracketFree
      (Text.isBracketFree_quoted (htexts _ (hsources source hsource)))⟩

theorem ModuleItem.emit_isBalanced {item : ModuleItem}
    (htexts : item.texts.all isBracketFree = true) (h : item.every Node.isBracketFree = true) :
    item.emit.IsBalanced := by
  cases item with
  | decl d =>
    exact ModuleDecl.emit_phrase phrasing_isBalanced (fun m hm => m.asks_isBalanced (m.test_of_every hm))
      (ModuleDecl.asks_isBalanced htexts) h
  | stmt s => exact s.emit_isBalanced h

theorem interpreter_isBalanced {name : Option String}
    (h : name.toList.all isBracketFree = true) : (Emit.interpreter name).IsBalanced := by
  cases name with
  | none => exact phrasing_isBalanced.empty
  | some name =>
    have hname : isBracketFree name = true := by simpa using h
    exact ((isBalanced_of_isBracketFree (by decide)).append (isBalanced_of_isBracketFree hname)).append
      (phrasing_isBalanced.silent rfl)

/-- **The document of a program is balanced** if no text in the program has brackets. -/
theorem Program.emit_isBalanced {program : Program} (h : program.isBracketFree = true) :
    program.emit.IsBalanced := by
  obtain ⟨htexts, hnodes⟩ := Bool.and_eq_true_iff.mp h
  cases program with
  | module span body interpreter =>
    rw [texts, List.all_append, Bool.and_eq_true, List.all_flatMap] at htexts
    refine (interpreter_isBalanced htexts.1).append (phrasing_isBalanced.list ?_)
    exact List.forall_mem_map.mpr fun item hitem =>
      ModuleItem.emit_isBalanced (List.all_eq_true.mp htexts.2 item hitem)
        (List.all_eq_true.mp hnodes item hitem)
  | script span body interpreter =>
    refine (interpreter_isBalanced htexts).append (phrasing_isBalanced.list ?_)
    exact List.forall_mem_map.mpr fun s hs => s.emit_isBalanced (List.all_eq_true.mp hnodes s hs)

/-- **Printed text is well bracketed.** If no name, string, regular expression, template
text, interpreter or comment has a bracket, then in whatever mode and with whatever
width of indentation a program is printed, every bracket of its text is closed by its
own kind, in order. -/
theorem printed_code_is_well_bracketed (program : Program) (comments : Option CommentTable)
    (options : PrintOptions) (output : PrintOutput) (hprogram : program.isBracketFree = true)
    (hcomments : comments.all CommentTable.isBracketFree = true)
    (hprint : printWith program comments options = .ok output) :
    isWellBracketed output.code = true := by
  rw [printWith_eq, Printer.complete_eq] at hprint
  cases hdone : program.emit.failure? with
  | some e =>
    rw [hdone] at hprint
    cases hprint
  | none =>
    rw [hdone] at hprint
    have hoptions :
        (Printer.start options comments).comments.all CommentTable.isBracketFree = true :=
      hcomments
    have hread : readBrackets [] output.code.toList = some [] := by
      rw [← Except.ok.inj hprint]
      exact (readBrackets_run hdone hoptions []).trans (Program.emit_isBalanced hprogram [])
    rw [isWellBracketed, hread]
    rfl

/-- A script that assigns an arrow function to an element of an array. The element is
looked up by a template, and the function returns an object. -/
def bracketedScript (span : Span) : Program :=
  .script span
    [.exprStmt (.assign span .set
      (.exprPattern (.member Span.dummy (.array Span.dummy .nil)
        (.template Span.dummy (.cons (.ident (.ofName "a")) .nil)
          [Quasi.ofRaw "x", Quasi.ofRaw "y"]) true))
      (.arrow Span.dummy .nil (.exprBody (.object Span.dummy .nil)) false false none none))]
    (some "node")

/-- It is printed well bracketed, with a comment in front of the statement. -/
theorem bracketedScript_is_well_bracketed :
    ∃ output, printWith (bracketedScript (.ofLines 7 9 1 1))
        (some ⟨[(7, [⟨.block, "/* c */"⟩])]⟩) ⟨true, 3, false⟩ = .ok output ∧
      output.code = "#!node\n/* c */ [][`x$\x7ba\x7dy`] = () => (\x7b\x7d);" ∧
      isWellBracketed output.code = true :=
  ⟨_, rfl, by decide,
    printed_code_is_well_bracketed (bracketedScript (.ofLines 7 9 1 1))
      (some ⟨[(7, [⟨.block, "/* c */"⟩])]⟩) ⟨true, 3, false⟩ _ (by decide) (by decide) rfl⟩

end EcmaPrinter
