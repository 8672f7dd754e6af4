/-
# Trees come back from their text

A tree that was read from a text is written as a text that is read again. It is read as
the same tree if and only if no expression in it is wrapped where its category has a node
of its own, and so it is wherever the text spells its kinds. A kind that is given by its
number can be read where the category's own kinds have no such number: a key of the kind
13 is a computed key that holds a name, and is written as a name.

All types of trees are covered: programs and their parts, nodes of every category, and
the nodes of single kinds that need no kind because their place says what they are.

Key definitions: `TreeType`, `TreeType.read`, `TreeType.write`, `TreeType.isSettled`.
Key theorems: `Category.body_eq_table`, `TreeType.gives_read`,
`TreeType.decoded_trees_read_back`, `TreeType.not_every_tree_reads_back`.
-/
import EcmaPrinter.Proofs.Json.Parsing
import EcmaPrinter.Proofs.Tree.Roots

namespace EcmaPrinter

open Json

/-! ### Nodes whose place says what they are -/

section Bodies

variable {spelled : Bool} {fs : Fields} {c : Category} {kind : NodeKind}

/-- A category's own kinds are read by its own table. -/
theorem Category.body_eq_table (hkind : kind ∈ c.kinds) : c.body kind fs = c.table kind fs := by
  cases htable : c.table kind fs with
  | some n =>
    cases c with
    | opt c => exact absurd hkind List.not_mem_nil
    | _ => simp [body, patternBody, htable]
  | none =>
    have hexpr := expr_table_eq_none kind hkind htable
    have hother (c' : Category) (hdisjoint : ∀ kind ∈ c.kinds, kind ∉ c'.kinds) :
        c'.table kind fs = none :=
      table_eq_none (hdisjoint kind hkind)
    cases c with
    | objectMember => simp [body, htable, hother .property (by decide)]
    | param => simp [body, patternBody, htable, hexpr, hother .pattern (by decide)]
    | forTarget => simp [body, patternBody, htable, hexpr, hother .pattern (by decide)]
    | stmt => simp [body, htable, hexpr, hother .decl (by decide)]
    | opt c => exact absurd hkind List.not_mem_nil
    | _ => simp [body, patternBody, htable, hexpr]

/-- A node that is read by a kind is written with that kind. -/
theorem record_of_table :
    Gives (fun n => ∃ ms, n.record? = some ⟨some kind, ms⟩) (c.table kind fs) := by
  cases c
  all_goals
    simp only [Category.table, Read.expr, Read.argument, Read.pattern, Read.patternMember,
      Read.property, Read.propertyName, Read.objectMember, Read.arrowBody, Read.classMember,
      Read.param, Read.stmt, Read.forInit, Read.forTarget, Read.decl, Read.jsxObject, Read.jsxName,
      Read.jsxExpr, Read.jsxAttrValue, Read.jsxAttrOrSpread, Read.jsxChild]
  all_goals try exact gives_none
  all_goals split
  all_goals
    first
    | exact gives_none
    | simp only [Read.spread, Read.rest, Read.function, Read.functionExpr, Read.klass,
        Read.classExpr, Read.block, Read.varDecl, Read.jsxMember, Read.jsxContainer, Read.jsxAttr,
        Read.jsxElement, Read.jsxFragment, Read.typingOf, Read.typed, gives_bind, gives_map,
        gives_pure]
      simp only [Gives]
      intros
      exact ⟨_, rfl⟩
    | intro e he
      obtain ⟨_, _, _, _, _, rfl | ⟨_, _, _, _, rfl⟩⟩ := newExpr_cases he <;> exact ⟨_, rfl⟩

/-- A node of one kind by itself is read back from the members it is written as. -/
theorem gives_body {ms : List (String × Json)} (h : (Json.obj ms).IsGiven spelled)
    (hkind : kind.isOpaque = false) :
    Gives (fun n =>
      MembersReread (Record.membersOf n.record?) (c.table kind) (n.every Node.isSettled) n ∧
      (spelled = true → n.every Node.isSettled = true)) (c.table kind (fields ms)) := by
  intro n hn
  have hread : n.IsRead spelled := by
    refine Category.gives_table (isGood_readMembers h false) ?_ n hn
    rw [hkind]
    exact nofun
  have hmem : kind ∈ c.kinds := by
    by_contra hmem
    rw [Category.table_eq_none hmem] at hn
    cases hn
  have hreturns := n.returns hread.kept
  obtain ⟨ms, hrecord⟩ := record_of_table n hn
  have hsound : membersSound ms = true := by
    have hjson := hreturns.sound
    rw [hrecord] at hjson
    exact hjson
  refine ⟨?_, hread.settled⟩
  -- without its kind, the written form is read by the table and not by the category
  rw [hrecord]
  refine ⟨(hreturns.spelled hrecord).2, hsound, n.reread, fun stored => ?_, hreturns.settled⟩
  rw [← Category.body_eq_table hmem]
  exact hreturns.body hrecord stored

/-- An expression with a payload by itself, which may hold a member for the kind. -/
theorem gives_typed {ms : List (String × Json)} (h : (Json.obj ms).IsGiven spelled)
    (form : TypedForm) :
    Gives (fun n => Rereads
        (fun _ json => asMembers json >>= fun ms => Read.typed form (fields ms))
        (.obj (Record.membersOf n.record?)) (n.every Node.isSettled) n ∧
      (spelled = true → n.every Node.isSettled = true)) (Read.typed form (fields ms)) := by
  have hgood : Fields.IsGood spelled (fields ms) := isGood_readMembers h false
  simp only [Read.typed, gives_bind, gives_pure]
  intro span _ expression hexpression
  have hread := hgood.node hexpression
  obtain ⟨hsound, e', hreads, hsettled⟩ := Node.rereads hread.kept
  have hpayload : Gives (fun rest => isPayload ["span", "expression"] rest = true)
      (Opaque.restOf ["span", "expression"] (fields ms).plain) :=
    isPayload_restOf hgood.plain (List.forall_mem_nil _)
  refine hpayload.mono fun rest hrest => ?_
  have hspan : hasKey rest "span" = false := hasKey_of_isPayload hrest (by simp)
  have hexpr : hasKey rest "expression" = false := hasKey_of_isPayload hrest (by simp)
  have hkept := restOf_payload hrest
    [("span", span.toJson), ("expression", expression.toJson)] (by simp)
  have hmembers : Record.membersOf (Node.typed form span expression rest).record? =
      ("span", span.toJson) :: ("expression", expression.toJson) :: rest := by
    rfl
  rw [hmembers]
  refine ⟨⟨?_, .typed form span e' rest, fun _ => ?_, ?_⟩, ?_⟩
  · simp [hsound, membersSound_of_isPayload hrest]
  · have hfields (ms : List (String × Json)) : fields ms = .of false ms := rfl
    rw [List.cons_append, List.cons_append, List.nil_append] at hkept
    simp [asMembers, asRecord, hfields, hspan, hexpr, hkept, hreads]
  · simpa! using hsettled
  · simpa! using hread.settled

end Bodies

/-! ### Types of trees -/

/-- The types of trees that are exchanged. Some are told apart by a kind; of those whose
place says what they are, each is what one table makes of one kind. -/
inductive TreeType where
  | program
  | root (kind : NodeKind)
  | moduleItem
  | moduleDecl
  | moduleDeclOf (kind : NodeKind) (h : kind.isOpaque = false)
  | defaultDecl
  | importSpecifier
  | importOf (kind : NodeKind)
  | exportSpecifier
  | exportOf (kind : NodeKind)
  | node (c : Category)
  | nodeOf (c : Category) (kind : NodeKind) (h : kind.isOpaque = false)
  | typedOf (form : TypedForm)
  | payload
  | quasi
  | jsxAttrName
  | jsxFragmentTag

namespace TreeType

/-- The trees of a type. -/
def Tree : TreeType → Type
  | .program | .root _ => Program
  | .moduleItem => ModuleItem
  | .moduleDecl | .moduleDeclOf _ _ => ModuleDecl
  | .defaultDecl => DefaultDecl
  | .importSpecifier | .importOf _ => ImportSpecifier
  | .exportSpecifier | .exportOf _ => ExportSpecifier
  | .node c | .nodeOf c _ _ => Node c
  | .typedOf _ => Node .expr
  | .payload => Opaque
  | .quasi => Quasi
  | .jsxAttrName => JsxAttrName
  | .jsxFragmentTag => JsxFragmentTag

/-- Reads a value as a tree of a type. -/
def read : (t : TreeType) → Json → Option t.Tree
  | .program, json => Program.ofJson? json
  | .root kind, json => asRecord kind.slots json >>= Program.ofKind? kind
  | .moduleItem, json => ModuleItem.ofJson? json
  | .moduleDecl, json => ModuleDecl.ofJson? false json
  | .moduleDeclOf kind _, json =>
    asRecord kind.slots json >>= fun ms => ModuleDecl.ofKind? kind (fields ms)
  | .defaultDecl, json => DefaultDecl.ofJson? false json
  | .importSpecifier, json => ImportSpecifier.ofJson? false json
  | .importOf kind, json => asRecord kind.slots json >>= ImportSpecifier.ofKind? kind
  | .exportSpecifier, json => ExportSpecifier.ofJson? false json
  | .exportOf kind, json => asRecord kind.slots json >>= ExportSpecifier.ofKind? kind
  | .node c, json => json.read c
  | .nodeOf c kind _, json => asRecord kind.slots json >>= fun ms => c.table kind (fields ms)
  | .typedOf form, json => asMembers json >>= fun ms => Read.typed form (fields ms)
  | .payload, json => Opaque.ofJson? json
  | .quasi, json => Quasi.ofJson? json
  | .jsxAttrName, json => Read.jsxAttrName false json
  | .jsxFragmentTag, json => JsxFragmentTag.ofJson? json

/-- Writes a tree of a type as a value. -/
def write : (t : TreeType) → t.Tree → Json
  | .program, p => Program.toJson p
  | .root _, p => .obj (Program.record p).members
  | .moduleItem, item => ModuleItem.toJson item
  | .moduleDecl, d => (ModuleDecl.record d).toJson
  | .moduleDeclOf _ _, d => .obj (ModuleDecl.members d)
  | .defaultDecl, d => (DefaultDecl.record d).toJson
  | .importSpecifier, s => (ImportSpecifier.record s).toJson
  | .importOf _, s => .obj (ImportSpecifier.record s).members
  | .exportSpecifier, s => (ExportSpecifier.record s).toJson
  | .exportOf _, s => .obj (ExportSpecifier.record s).members
  | .node _, n => Node.toJson n
  | .nodeOf _ _ _, n | .typedOf _, n => .obj (Record.membersOf (Node.record? n))
  | .payload, o => Opaque.toJson o
  | .quasi, q => Quasi.toJson q
  | .jsxAttrName, name => JsxAttrName.toJson name
  | .jsxFragmentTag, tag => JsxFragmentTag.toJson tag

/-- No expression in a tree is wrapped where its category has a node of its own. -/
def isSettled : (t : TreeType) → t.Tree → Bool
  | .program, p | .root _, p => Program.every Node.isSettled p
  | .moduleItem, item => ModuleItem.every Node.isSettled item
  | .moduleDecl, d | .moduleDeclOf _ _, d => ModuleDecl.every Node.isSettled d
  | .defaultDecl, d => DefaultDecl.every Node.isSettled d
  | .node _, n | .nodeOf _ _ _, n | .typedOf _, n => Node.every Node.isSettled n
  | .importSpecifier, _ | .importOf _, _ | .exportSpecifier, _ | .exportOf _, _ | .payload, _
  | .quasi, _ | .jsxAttrName, _ | .jsxFragmentTag, _ => true

variable {spelled : Bool} {json : Json}

/-- What is read as a tree of a type is read back from the value it is written as. -/
theorem gives_read (t : TreeType) (h : json.IsGiven spelled) :
    Gives (fun x => Rereads (fun _ => t.read) (t.write x) (t.isSettled x) x ∧
      (spelled = true → t.isSettled x = true)) (t.read json) := by
  have hmembers {α : Type} {P : α → Prop} {read : List (String × Json) → Option α}
      {slots : Option (List Slot)} (htype : ∀ fields ∈ slots, "type" ∉ fields.map Slot.key)
      (hread : ∀ ms, (Json.obj ms).IsGiven spelled → Gives P (read ms)) :
      Gives P (Json.asRecord slots json >>= read) :=
    gives_bind.mpr fun ms hms => hread ms (h.asRecord htype hms)
  have hslots (kind : NodeKind) : ∀ fields ∈ kind.slots, "type" ∉ fields.map Slot.key :=
    fun _ => kind.type_notMem_slots
  cases t with
  | program =>
    exact (Program.gives_ofJson? h).mono fun _ hp => ⟨Program.rereads hp.1, hp.2⟩
  | root kind =>
    refine hmembers (hslots kind) fun ms hms => (Program.gives_ofKind? hms kind).mono ?_
    exact fun _ hp => ⟨(Program.membersReread hp.1 hp.2.1).bareMembers, hp.2.2⟩
  | moduleItem =>
    exact (ModuleItem.gives_ofJson? h).mono fun _ hi => ⟨ModuleItem.rereads hi.1, hi.2⟩
  | moduleDecl =>
    exact (ModuleDecl.gives_ofJson? h).mono fun _ hd => ⟨(ModuleDecl.rereads hd.1).at false, hd.2⟩
  | moduleDeclOf kind hkind =>
    refine hmembers (hslots kind) fun ms hms => (ModuleDecl.gives_ofKind? hms kind ?_).mono ?_
    · rw [hkind]
      exact nofun
    · rintro d ⟨rfl, hkept, hspelled⟩
      exact ⟨(ModuleDecl.membersReread hkept).bare, hspelled⟩
  | defaultDecl =>
    exact (DefaultDecl.gives_ofJson? h).mono fun _ hd =>
      ⟨(DefaultDecl.rereads hd.1).at false, hd.2⟩
  | importSpecifier =>
    exact (ImportSpecifier.gives_ofJson? h).mono fun _ hs =>
      ⟨(ImportSpecifier.rereads hs).at false, fun _ => rfl⟩
  | importOf kind =>
    refine hmembers (hslots kind) fun ms hms =>
      (ImportSpecifier.gives_ofKind? hms.fits kind).mono ?_
    exact fun _ hs => ⟨(ImportSpecifier.membersReread hs.1 hs.2).bareMembers, fun _ => rfl⟩
  | exportSpecifier =>
    exact (ExportSpecifier.gives_ofJson? h).mono fun _ hs =>
      ⟨(ExportSpecifier.rereads hs).at false, fun _ => rfl⟩
  | exportOf kind =>
    refine hmembers (hslots kind) fun ms hms =>
      (ExportSpecifier.gives_ofKind? hms.fits kind).mono ?_
    exact fun _ hs => ⟨(ExportSpecifier.membersReread hs.1 hs.2).bareMembers, fun _ => rfl⟩
  | node c =>
    exact (EcmaPrinter.gives_read h c).mono fun _ hn =>
      ⟨(Node.rereads hn.kept).at false, hn.settled⟩
  | nodeOf c kind hkind =>
    refine hmembers (hslots kind) fun ms hms => (gives_body hms hkind).mono ?_
    exact fun _ hn => ⟨hn.1.bare, hn.2⟩
  | typedOf form => exact hmembers (fun _ hnone => nomatch hnone) fun ms hms => gives_typed hms form
  | payload =>
    refine (Opaque.gives_ofJson? h.fits).mono fun o ho => ⟨⟨?_, o, fun _ => ?_, ?_⟩, fun _ => rfl⟩
    · exact Opaque.isSound_toJson ho
    · exact Opaque.ofJson?_toJson ho
    · exact iff_of_true rfl rfl
  | quasi =>
    exact fun q _ => ⟨⟨q.isSound_toJson, q, fun _ => q.ofJson?_toJson, iff_of_true rfl rfl⟩,
      fun _ => rfl⟩
  | jsxAttrName =>
    refine (JsxAttrName.gives_jsxAttrName h.fits).mono fun name hname => ?_
    exact ⟨⟨JsxAttrName.isSound_toJson hname, name,
      fun _ => JsxAttrName.jsxAttrName_toJson hname false, iff_of_true rfl rfl⟩, fun _ => rfl⟩
  | jsxFragmentTag =>
    exact fun tag _ => ⟨⟨tag.isSound_toJson, tag, fun _ => tag.ofJson?_toJson,
      iff_of_true rfl rfl⟩, fun _ => rfl⟩

/-- **A tree that was read from a text is written as a text that is read again, and it is
read as the same tree if and only if it is settled.** It is settled wherever the text
spells its kinds. What is written must not be nested too deep, and its doubles must be read
back. -/
theorem decoded_trees_read_back (t : TreeType) {text : String} {json : Json} {x : t.Tree}
    (hparse : parse? text = some json) (hread : t.read json = some x)
    (hdepth : (t.write x).depth ≤ maxDepth)
    (hdoubles : (t.write x).everyScalar isReread = true) :
    ∃ x', (parse? (t.write x).text >>= t.read) = some x' ∧
      (x' = x ↔ t.isSettled x = true) ∧ (json.spellsKinds = true → x' = x) := by
  have hgiven : json.IsGiven json.spellsKinds := ⟨isFitting_of_parse? hparse, id⟩
  obtain ⟨⟨hsound, x', hreads, hsettled⟩, hspelled⟩ := t.gives_read hgiven x hread
  refine ⟨x', ?_, hsettled, fun hkinds => hsettled.mpr (hspelled hkinds)⟩
  rw [parse?_text hsound hdoubles hdepth, some_bind]
  exact hreads false

/-- An assignment, with only the members that have no default. -/
def assignText : String :=
  "\x7b\x22type\x22:\x22AssignmentExpression\x22,\x22operator\x22:\x22=\x22," ++
  "\x22left\x22:\x7b\x22type\x22:\x22Identifier\x22,\x22value\x22:\x22x\x22\x7d," ++
  "\x22right\x22:\x7b\x22type\x22:\x22NumericLiteral\x22,\x22value\x22:1.5\x7d\x7d"

/-- The double `1.5`. -/
def oneAndHalf : Binary64 := ⟨0x3FF8000000000000⟩

def assignJson : Json :=
  .obj [("type", .str "AssignmentExpression"), ("operator", .str "="),
    ("left", .obj [("type", .str "Identifier"), ("value", .str "x")]),
    ("right", .obj [("type", .str "NumericLiteral"), ("value", .float oneAndHalf)])]

def assignNode : Node .expr :=
  .assign Span.dummy .set (.identPattern (Ident.ofName "x")) (.num (NumberLit.ofValue oneAndHalf))

theorem assignText_reads_back :
    parse? assignText = some assignJson ∧ assignJson.read .expr = some assignNode ∧
      (parse? assignNode.toJson.text >>= fun json => json.read .expr) = some assignNode := by
  have hparse : parse? assignText = some assignJson := by decide +kernel
  have hread : (node .expr).read assignJson = some assignNode := by rfl
  have hdepth : ((node .expr).write assignNode).depth ≤ maxDepth := by decide +kernel
  have hdoubles : ((node .expr).write assignNode).everyScalar isReread = true := by
    decide +kernel
  have hkinds : assignJson.spellsKinds = true := by decide +kernel
  obtain ⟨x', hback, -, hspelled⟩ :=
    decoded_trees_read_back (node .expr) hparse hread hdepth hdoubles
  rw [hspelled hkinds] at hback
  exact ⟨hparse, hread, hback⟩

/-- A key whose kind is the number that names have among expressions. -/
def numberedText : String := "\x7b\x22type\x22:13,\x22value\x22:\x22a\x22\x7d"

def numberedJson : Json := .obj [("type", .int 13), ("value", .str "a")]

def numberedKey : Node .propertyName := .computedKey (.ident (Ident.ofName "a"))

/-- A computed key that holds a name is written as a name, and read as a name. -/
theorem not_every_tree_reads_back :
    ¬ ∀ (t : TreeType) (text : String) (json : Json) (x : t.Tree), parse? text = some json →
      t.read json = some x → (t.write x).depth ≤ maxDepth →
      (t.write x).everyScalar isReread = true → (parse? (t.write x).text >>= t.read) = some x := by
  intro h
  have hparse : parse? numberedText = some numberedJson := by decide +kernel
  have hread : (node .propertyName).read numberedJson = some numberedKey := by rfl
  have hdepth : ((node .propertyName).write numberedKey).depth ≤ maxDepth := by decide +kernel
  have hdoubles : ((node .propertyName).write numberedKey).everyScalar isReread = true := by
    decide +kernel
  have hsound : ((node .propertyName).write numberedKey).isSound = true := by decide +kernel
  have hname : (node .propertyName).read ((node .propertyName).write numberedKey) =
      some (.identKey (Ident.ofName "a")) := by rfl
  have hback := h (node .propertyName) numberedText numberedJson numberedKey hparse hread hdepth
    hdoubles
  rw [parse?_text hsound hdoubles hdepth, some_bind, hname] at hback
  cases hback

end TreeType

end EcmaPrinter
