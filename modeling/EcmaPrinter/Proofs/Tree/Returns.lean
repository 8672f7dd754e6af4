/-
# What reading makes of written nodes

The written form of a node is read at its category as a node of the same form, if
the leaves it holds are such as reading gives. It is the node itself unless an
expression in it is wrapped where the category has its own node for it: a
computed key that is a plain name is written as a name, and a name is read as a
key.

What is shown of each node is that its written form is sound, what it is read as,
and when that is the node. There is one lemma for each way in which a form of node
is written: with a kind, without one, by giving a kind to a node without one, and
as a node of another category.

Key definitions: `Node.isKept`, `Node.isSettled`, `Node.reread`, `Node.Returns`.
Key theorems: `Node.Returns.tagged`, `Node.Returns.plain`, `Node.Returns.ofKind`,
`Node.Returns.wrapped`.
-/
import EcmaPrinter.Proofs.Tree.Every
import EcmaPrinter.Proofs.Tree.Fields

namespace EcmaPrinter

open Json

/-! ### Leaves such as are read -/

def Category.isPlace : Category → Bool
  | .opt _ => true
  | _ => false

namespace Node

def isAbsent : {c : Category} → Node c → Bool
  | _, .absent => true
  | _, _ => false

/-- Only a place can be empty. -/
theorem isAbsent_eq_false {c : Category} (n : Node c) (hc : c.isPlace = false) :
    n.isAbsent = false := by
  cases n with
  | absent => cases hc
  | _ => rfl

/-- The leaves that a node holds are such as are read. -/
def isKept : {c : Category} → Node c → Bool
  | _, .call _ _ _ types | _, .new _ _ _ types | _, .newBare _ _ types => types.all Opaque.isKept
  | _, .ident name | _, .identPattern name | _, .shorthand name | _, .identKey name
  | _, .jsxIdentObject name | _, .jsxIdentName name | _, .assignProperty name _
  | _, .namedPattern _ name _ | _, .labeledStmt _ name _ | _, .classDecl name _ _
  | _, .functionDecl name _ _ | _, .jsxMember _ _ name => name.isKept
  | _, .functionExpr name _ | _, .classExpr name _ | _, .breakStmt _ name
  | _, .continueStmt _ name => name.all Ident.isKept
  | _, .num literal | _, .numKey literal => literal.isKept
  | _, .taggedTemplate _ _ _ _ types => types.all Opaque.isKept
  | _, .arrow _ _ _ _ _ types result => types.all Opaque.isKept && result.all Opaque.isKept
  | _, .metaProperty _ target property => target.isKept && property.isKept
  | _, .privateName name => name.isKept
  | _, .jsxNamespaced name | _, .jsxSpaceName name => name.isKept
  | _, .typed _ _ _ payload => isPayload ["span", "expression", "type"] payload
  | _, .arrayPattern _ _ typing | _, .objectPattern _ _ typing | _, .defaultPattern _ _ _ typing
  | _, .rest _ _ _ typing => typing.all Opaque.isKept
  | _, .function _ _ _ _ _ _ types result => types.all Opaque.isKept && result.all Opaque.isKept
  | _, .klass _ _ _ _ _ types superTypes implements =>
    types.all Opaque.isKept && superTypes.all Opaque.isKept && implements.all Opaque.isKept
  | _, .privateMethod _ key _ _ => key.isKept
  | _, .classProperty _ _ _ _ traits => traits.typing.all Opaque.isKept
  | _, .privateProperty _ key _ _ traits => key.isKept && traits.typing.all Opaque.isKept
  | _, .indexSignature payload | _, .propertyParam payload | _, .typeDecl _ payload =>
    payload.isKept && !hasKey payload.rest "type"
  | _, .jsxAttr _ name _ => name.isKept
  | _, .jsxOpening _ _ _ _ types => types.all Opaque.isKept
  | _, .present n => !n.isAbsent
  | _, _ => true

/-- An expression is not wrapped where the category has a node of its own for its
kind. -/
def isSettled : {c : Category} → Node c → Bool
  | _, .exprPattern e => decide (e.exprKind ∉ Category.pattern.kinds)
  | _, .computedKey e => decide (e.exprKind ∉ Category.propertyName.kinds)
  | _, .jsxSomeExpr e => decide (e.exprKind ∉ Category.jsxExpr.kinds)
  | _, .jsxExprValue e => decide (e.exprKind ∉ Category.jsxAttrValue.kinds)
  | _, _ => true

/-- What the written form of a node is read as, or the node if it is not read. -/
def reread {c : Category} (n : Node c) : Node c := ((Record.json n.record?).readAt true c).getD n

end Node

/-- What the written form of a list is read as, or the list if it is not read. -/
def Nodes.reread {c : Category} (ns : Nodes c) : Nodes c :=
  ((Json.arr ns.toJsons).readList true c).getD ns

/-! ### What is shown of each node -/

/-- The written form of a node is sound and is read; it is read as the node if and
only if the node is settled. It spells its kind if the category tells kinds apart,
and what the category makes of that kind is what is read. -/
structure Node.Returns {c : Category} (n : Node c) : Prop where
  sound : (Record.json n.record?).isSound = true
  read (stored : Bool) : (Record.json n.record?).readAt stored c = some n.reread
  settled : n.reread = n ↔ n.every Node.isSettled = true
  recorded (h : n.isAbsent = false) : ∃ kind ms, n.record? = some ⟨kind, ms⟩
  spelled {kind : Option NodeKind} {ms : List (String × Json)} (h : n.record? = some ⟨kind, ms⟩) :
    kind.isSome = c.tellsKinds ∧ hasKey ms "type" = false
  body {kind : NodeKind} {ms : List (String × Json)} (h : n.record? = some ⟨some kind, ms⟩)
    (stored : Bool) : c.body kind (.of stored ms) = some n.reread

structure Nodes.Returns {c : Category} (ns : Nodes c) : Prop where
  sound : (Json.arr ns.toJsons).isSound = true
  read (stored : Bool) : (Json.arr ns.toJsons).readList stored c = some ns.reread
  settled : ns.reread = ns ↔ ns.every Node.isSettled = true

attribute [simp] Node.Returns.sound Node.Returns.read Node.Returns.settled
  Nodes.Returns.sound Nodes.Returns.read Nodes.Returns.settled

namespace Node.Returns

variable {c c' : Category} {n : Node c} {kind : NodeKind} {ms : List (String × Json)}

/-- A node is read from its written form as `m`. -/
theorem ofRecord {tag : Option NodeKind} {m : Node c} (hrecord : n.record? = some ⟨tag, ms⟩)
    (hc : tag.isSome = c.tellsKinds) (htype : hasKey ms "type" = false)
    (hsound : (Record.json n.record?).isSound = true)
    (hread : ∀ stored, (Record.json n.record?).readAt stored c = some m)
    (hbody : ∀ kind, tag = some kind → ∀ stored, c.body kind (.of stored ms) = some m)
    (hsettled : m = n ↔ n.every Node.isSettled = true) : n.Returns := by
  have hreread : n.reread = m := by rw [Node.reread, hread, Option.getD_some]
  refine ⟨hsound, ?_, ?_, fun _ => ⟨tag, ms, hrecord⟩, ?_, ?_⟩
  · intro stored
    rw [hreread, hread]
  · rw [hreread, hsettled]
  · intro tag' ms' h
    cases hrecord.symm.trans h
    exact ⟨hc, htype⟩
  · intro kind ms' h stored
    cases hrecord.symm.trans h
    rw [hreread, hbody kind rfl]

/-- A node that spells its kind. What has to be shown is by computation, from the
parts of the node that are in the context. -/
theorem tagged (m : Node c) (hrecord : n.record? = some ⟨some kind, ms⟩ := by rfl)
    (hc : c.tellsKinds = true := by rfl) (htype : hasKey ms "type" = false := by simp [*])
    (hsound : membersSound ms = true := by simp [*])
    (hbody : ∀ stored, c.body kind (.of stored ms) = some m := by
      intro stored
      simp [Category.body, Category.table, patternBody, Read.expr, Read.newExpr, Read.pattern,
        Read.patternMember, Read.property, Read.propertyName, Read.classMember, Read.methodTraits,
        Read.propertyTraits, MethodTraits.members, PropertyTraits.members, Read.param, Read.stmt,
        Read.decl, Read.jsxObject, Read.jsxName, Read.jsxExpr, Read.jsxChild, Read.typingOf, asBool,
        Fields.members_of, find_readMembers, find_cons_ne, find_cons_self, Reading.of, *])
    (hsettled : m = n ↔ n.every Node.isSettled = true := by simp! [and_assoc, *]) : n.Returns := by
  have hjson : Record.json n.record? = .obj (("type", .str kind.text) :: ms) := by
    rw [hrecord]
    rfl
  refine ofRecord hrecord hc.symm htype (by rwa [hjson]) (fun stored => ?_) ?_ hsettled
  · rw [hjson, readAt]
    exact (readParts_tagged hc htype hsound).trans (hbody true)
  · intro kind' hkind stored
    cases hkind
    exact hbody stored

/-- A node of a category that tells no kinds apart. -/
theorem plain (m : Node c) (hrecord : n.record? = some ⟨none, ms⟩ := by rfl)
    (hc : c.tellsKinds = false := by rfl) (htype : hasKey ms "type" = false := by simp [*])
    (hsound : membersSound ms = true := by simp [*])
    (hobject : ∀ stored, readParts (.object (.of stored ms)) c = some m := by
      intro stored
      simp [readParts, Read.spread, Read.rest, Read.function, Read.klass, Read.decorator,
        Read.block, Read.switchCase, Read.catchClause, Read.varDecl, Read.declarator,
        Read.jsxMember, Read.jsxContainer, Read.jsxAttr, Read.jsxOpening, Read.jsxClosing,
        Read.jsxElement, Read.jsxFragment, Read.typingOf, asBool, *])
    (hsettled : m = n ↔ n.every Node.isSettled = true := by simp! [and_assoc, *]) : n.Returns := by
  have hjson : Record.json n.record? = .obj ms := by
    rw [hrecord]
    rfl
  refine ofRecord hrecord hc.symm htype (by rwa [hjson]) (fun stored => ?_) nofun hsettled
  rw [hjson, readAt]
  exact hobject stored

/-- The members of a node without a kind, read by themselves. -/
theorem flat {f : Node c} (hf : f.Returns) (hc : c.tellsKinds = false)
    (hpresent : c.isPlace = false) :
    hasKey (Record.membersOf f.record?) "type" = false ∧
      membersSound (Record.membersOf f.record?) = true ∧
      ∀ stored, readParts (.object (.of stored (Record.membersOf f.record?))) c = some f.reread := by
  obtain ⟨kind, ms, hrecord⟩ := hf.recorded (f.isAbsent_eq_false hpresent)
  obtain ⟨hkind, htype⟩ := hf.spelled hrecord
  rw [hc, Option.isSome_eq_false_iff, Option.isNone_iff_eq_none] at hkind
  subst hkind
  have hsound := hf.sound
  have hread := hf.read
  rw [hrecord] at hsound hread ⊢
  exact ⟨htype, hsound, hread⟩

/-- A node without a kind, given one. -/
theorem ofKind {f : Node c} (hf : f.Returns) (w : Node c → Node c') (kind : NodeKind)
    (hc : c.tellsKinds = false := by rfl) (hc' : c'.tellsKinds = true := by rfl)
    (hpresent : c.isPlace = false := by rfl)
    (hrecord : (w f).record? = Record.withKind kind f.record? := by rfl)
    (hbody : ∀ fs m, readParts (.object fs) c = some m → c'.body kind fs = some (w m) := by
      intro fs m h
      simp only [readParts, Parts.fields_object, some_bind] at h
      simp [Category.body, Category.table, patternBody, Read.expr, Read.argument, Read.pattern,
        Read.patternMember, Read.objectMember, Read.arrowBody, Read.stmt, Read.decl, Read.forInit,
        Read.forTarget, Read.jsxObject, Read.jsxName, Read.jsxAttrValue, Read.jsxAttrOrSpread,
        Read.jsxChild, h])
    (hsettled : w f.reread = w f ↔ (w f).every Node.isSettled = true := by simp! [and_assoc, *]) :
    (w f).Returns := by
  obtain ⟨htype, hsound, hread⟩ := hf.flat hc hpresent
  obtain ⟨kind', ms, h⟩ := hf.recorded (f.isAbsent_eq_false hpresent)
  have hrecord' : (w f).record? = some ⟨some kind, Record.membersOf f.record?⟩ := by
    rw [hrecord, h]
    rfl
  exact .tagged (w f.reread) hrecord' hc' htype hsound (fun stored => hbody _ _ (hread stored))
    hsettled

/-- A kind that a category reads is not one of another category, if they have none in
common. -/
theorem notMem_kinds {e : Node c} (he : e.Returns)
    (hdisjoint : ∀ kind ∈ c.allKinds, kind ∉ c'.kinds) (kind : NodeKind)
    (ms : List (String × Json)) (h : e.record? = some ⟨some kind, ms⟩) : kind ∉ c'.kinds :=
  hdisjoint kind (Category.mem_allKinds_of_body (he.body h true))

/-- A node of a category that another one takes in. The kind must not be one of
those that the other one has a node of its own for. -/
theorem wrapped {e : Node c} (he : e.Returns) (w : Node c → Node c')
    (hown : ∀ kind ms, e.record? = some ⟨some kind, ms⟩ → kind ∉ c'.kinds)
    (htop : (w e).isSettled = true := by rfl)
    (hbody : ∀ kind fs m, kind ∉ c'.kinds → c.body kind fs = some m →
      c'.body kind fs = some (w m) := by
      intro kind fs m hkind h
      simp only [Category.body, patternBody] at h ⊢
      simp [Category.table_eq_none hkind, h])
    (hc : c.tellsKinds = true := by rfl) (hc' : c'.tellsKinds = true := by rfl)
    (hpresent : c.isPlace = false := by rfl) (hrecord : (w e).record? = e.record? := by rfl)
    (hevery : (w e).every isSettled = ((w e).isSettled && e.every isSettled) := by rfl)
    (hw : w e.reread = w e ↔ e.reread = e := by simp) : (w e).Returns := by
  obtain ⟨kind, ms, h⟩ := he.recorded (e.isAbsent_eq_false hpresent)
  obtain ⟨hkind, htype⟩ := he.spelled h
  rw [hc, Option.isSome_iff_exists] at hkind
  obtain ⟨kind, rfl⟩ := hkind
  have hsound : membersSound ms = true := by
    have hjson := he.sound
    rw [h] at hjson
    exact hjson
  have hsettled : w e.reread = w e ↔ (w e).every isSettled = true := by
    rw [hw, he.settled, hevery, htop, Bool.true_and]
  exact .tagged (w e.reread) (hrecord.trans h) hc' htype hsound
    (fun stored => hbody _ _ _ (hown kind ms h) (he.body h stored)) hsettled

end Node.Returns

/-! ### Places and lists -/

/-- A place that is not empty is read as what stands in it. -/
theorem Node.Returns.ofPresent {c : Category} {n : Node c} (hn : n.Returns)
    (hpresent : n.isAbsent = false) : (present n).Returns := by
  obtain ⟨kind, ms, hrecord⟩ := hn.recorded hpresent
  have hjson : ∃ members, Record.json n.record? = .obj members := by
    rw [hrecord]
    cases kind with
    | none => exact ⟨_, rfl⟩
    | some kind => exact ⟨_, rfl⟩
  obtain ⟨members, hjson⟩ := hjson
  have hsame : (present n).record? = n.record? := by rfl
  have hread (stored : Bool) :
      (Record.json (present n).record?).readAt stored (.opt c) = some (present n.reread) := by
    have hinner := hn.read stored
    rw [hsame]
    rw [hjson, readAt] at hinner ⊢
    exact congrArg (Option.map present) hinner
  have hreread : (present n).reread = present n.reread := by
    rw [Node.reread, hread, Option.getD_some]
  refine ⟨?_, ?_, ?_, fun _ => ⟨kind, ms, hsame.trans hrecord⟩, ?_, ?_⟩
  · rw [hsame]
    exact hn.sound
  · rw [hreread]
    exact hread
  · rw [hreread]
    simp! [hn]
  · intro kind ms h
    exact hn.spelled (hsame.symm.trans h)
  · intro kind ms h stored
    rw [hreread]
    exact congrArg (Option.map present) (hn.body (hsame.symm.trans h) stored)

theorem Node.Returns.cons {c : Category} {n : Node c} {ns : Nodes c} (hn : n.Returns)
    (hns : ns.Returns) : (Nodes.cons n ns).Returns := by
  have hjsons : (Nodes.cons n ns).toJsons = Record.json n.record? :: ns.toJsons := by rfl
  have hread (stored : Bool) : (Json.arr (Nodes.cons n ns).toJsons).readList stored c =
      some (.cons n.reread ns.reread) := by
    have htail := hns.read stored
    simp only [readList] at htail
    simp only [hjsons, readList, readItems, hn.read, htail, some_bind]
    rfl
  have hreread : (Nodes.cons n ns).reread = .cons n.reread ns.reread := by
    rw [Nodes.reread, hread, Option.getD_some]
  refine ⟨?_, ?_, ?_⟩
  · rw [hjsons]
    exact Bool.and_eq_true_iff.mpr ⟨hn.sound, hns.sound⟩
  · rw [hreread]
    exact hread
  · rw [hreread]
    simp! [hn, hns]

end EcmaPrinter
