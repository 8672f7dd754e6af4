/-
# What tables make of members

The leaves of a tree that is read from a value are such as are read: payloads are
canonical, sound, and without the members that are read apart, and numbers are finite.
The rest of a node is put together by the table of its category from what the readings of
its members give. So if these give nodes such as are read, the table does.

Key definitions: `Node.isRead`, `Fields.IsGood`.
Key theorems: `isPayload_restOf`, `gives_part`, `Category.gives_table`.
-/
import EcmaPrinter.Proofs.Json.Fitting
import EcmaPrinter.Proofs.Tree.Returns

namespace EcmaPrinter

open Json

/-! ### Payloads -/

section Payloads

variable {known extra : List String} {ms : List (String × Json)}

theorem hasKey_canonicalMembers (key : String) (ms : List (String × Json)) :
    hasKey (canonicalMembers ms) key = hasKey ms key := by
  induction ms with
  | nil => rfl
  | cons m ms ih =>
    obtain ⟨k, v⟩ := m
    rw [canonicalMembers, hasKey_cons, hasKey_cons, ih]

theorem hasKey_eq_false_of_subset {α : Type} {ms ms' : List (String × α)} {key : String}
    (hsub : ms ⊆ ms') (h : hasKey ms' key = false) : hasKey ms key = false :=
  List.any_eq_false.mpr fun m hm => List.any_eq_false.mp h m (hsub hm)

/-- The keys of what is kept of members are not those that are read apart. -/
theorem hasKey_filter {α : Type} {ms : List (String × α)} {key : String} (hkey : key ∈ known) :
    hasKey (ms.filter fun m => !known.contains m.1) key = false := by
  refine List.any_eq_false.mpr fun m hm hm' => ?_
  have hother := (List.mem_filter.mp hm).2
  rw [beq_iff_eq.mp hm', List.contains_iff_mem.mpr hkey] at hother
  cases hother

/-- What is kept of members that fit is a payload. It has no key that they do not
have. -/
theorem isPayload_restOf (hfit : everyMember isFitting ms = true)
    (hextra : ∀ key ∈ extra, hasKey ms key = false) :
    Gives (fun rest => isPayload (known ++ extra) rest = true) (Opaque.restOf known ms) := by
  refine gives_ite (fun hread => gives_some.mpr ?_) fun _ => gives_none
  have hsub : ms.filter (fun m => !known.contains m.1) ⊆ ms :=
    fun _ hm => (List.mem_filter.mp hm).1
  have hnone : ∀ key ∈ known ++ extra,
      hasKey (ms.filter fun m => !known.contains m.1) key = false := by
    intro key hkey
    rcases List.mem_append.mp hkey with hkey | hkey
    · exact hasKey_filter hkey
    · exact hasKey_eq_false_of_subset hsub (hextra key hkey)
  have hfit' : everyMember isFitting (ms.filter fun m => !known.contains m.1) = true :=
    everyMember_iff.mpr fun m hm => everyMember_iff.mp hfit m (hsub hm)
  generalize ms.filter (fun m => !known.contains m.1) = rest at hread hnone hfit'
  rw [membersReadable_eq] at hread
  have hsound : membersSound rest = true :=
    everyMember_of_and (fun _ h h' => Bool.and_eq_true_iff.mpr ⟨h, h'⟩) rest hfit' hread
  have hcanonical := canonicalMembers_sortMembers (canonicalMembers_canonicalMembers rest)
  simp only [isPayload, Bool.and_eq_true, List.all_eq_true, Bool.not_eq_true']
  refine ⟨⟨?_, ?_⟩, fun key hkey => ?_⟩
  · rw [hcanonical, sortMembers_of_isSorted (isSorted_sortMembers _)]
    exact sameMembers_iff.mpr rfl
  · exact everyMember_iff.mpr fun m hm =>
      everyMember_iff.mp (everyMember_canonicalMembers rest hsound) m (mem_of_mem_sortMembers hm)
  · refine hasKey_eq_false_of_subset (fun _ => mem_of_mem_sortMembers) ?_
    rw [hasKey_canonicalMembers, hnone key hkey]

end Payloads

/-! ### Leaves -/

section Leaves

variable {ms : List (String × Json)} {json : Json} {key : String}

theorem isFitting_of_mem (h : everyMember isFitting ms = true) (hmem : (key, json) ∈ ms) :
    json.everyScalar isFitting = true :=
  everyMember_iff.mp h _ hmem

namespace Opaque

theorem gives_ofMembers? {extra : List String} (h : everyMember isFitting ms = true)
    (hextra : ∀ key ∈ extra, hasKey ms key = false) :
    Gives (fun o => isPayload ("span" :: extra) o.rest = true) (ofMembers? ms) := by
  simp only [ofMembers?, gives_bind, gives_pure]
  exact fun span _ => isPayload_restOf h hextra

theorem gives_ofJson? (h : json.everyScalar isFitting = true) :
    Gives (fun o => o.isKept = true) (ofJson? json) := by
  refine gives_asRecord h fun ms hms => ?_
  exact gives_ofMembers? hms (List.forall_mem_nil _)

@[grind →] theorem isKept_of_optional (h : everyMember isFitting ms = true) {o : Option Opaque}
    (ho : optional ms key ofJson? = some o) : o.all isKept = true :=
  gives_optional (fun _ hmem => gives_ofJson? (isFitting_of_mem h hmem)) o ho

@[grind →] theorem isKept_of_list (h : everyMember isFitting ms = true) {os : List Opaque}
    (hos : defaulted ms key [] (asList ofJson?) = some os) : os.all isKept = true := by
  have hgives : Gives (fun os => ∀ o ∈ os, o.isKept = true)
      (defaulted ms key [] (asList ofJson?)) := by
    refine gives_defaulted (List.forall_mem_nil _) fun json hmem => ?_
    refine gives_asList fun items hitems item hitem => gives_ofJson? ?_
    have hjson := isFitting_of_mem h hmem
    rw [hitems] at hjson
    exact everyItem_iff.mp hjson item hitem
  exact List.all_eq_true.mpr (hgives os hos)

/-- A payload that is told apart by its kind has no member for the kind. -/
@[grind →] theorem isKept_of_ofMembers? (h : everyMember isFitting ms = true)
    (htype : hasKey ms "type" = false) {o : Opaque} (ho : ofMembers? ms = some o) :
    o.isKept = true ∧ hasKey o.rest "type" = false := by
  have hrest : isPayload ["span", "type"] o.rest = true :=
    gives_ofMembers? h (List.forall_mem_singleton.mpr htype) o ho
  exact ⟨isPayload_of_subset hrest (by simp), hasKey_of_isPayload hrest (by simp)⟩

end Opaque

@[grind →] theorem isPayload_of_restOf (h : everyMember isFitting ms = true)
    (htype : hasKey ms "type" = false) {rest : List (String × Json)}
    (hrest : Opaque.restOf ["span", "expression"] ms = some rest) :
    isPayload ["span", "expression", "type"] rest = true :=
  isPayload_restOf h (List.forall_mem_singleton.mpr htype) rest hrest

namespace Ident

@[grind →] theorem isKept_of_ofMembers? (h : everyMember isFitting ms = true) {i : Ident}
    (hi : ofMembers? ms = some i) : i.isKept = true := by
  have hgives : Gives (fun i => i.isKept = true) (ofMembers? ms) := by
    simp only [ofMembers?, gives_bind, gives_pure]
    exact fun _ _ _ _ _ _ _ htyping => Opaque.isKept_of_optional h htyping
  exact hgives i hi

theorem gives_ofJson? (h : json.everyScalar isFitting = true) :
    Gives (fun i => i.isKept = true) (ofJson? json) := by
  refine gives_asRecord h fun ms hms i => ?_
  exact isKept_of_ofMembers? hms

@[grind →] theorem isKept_of_required (h : everyMember isFitting ms = true) {i : Ident}
    (hi : required ms key ofJson? = some i) : i.isKept = true :=
  gives_required (fun _ hmem => gives_ofJson? (isFitting_of_mem h hmem)) i hi

@[grind →] theorem isKept_of_optional (h : everyMember isFitting ms = true) {i : Option Ident}
    (hi : optional ms key ofJson? = some i) : i.all isKept = true :=
  gives_optional (fun _ hmem => gives_ofJson? (isFitting_of_mem h hmem)) i hi

end Ident

namespace PrivateName

@[grind →] theorem isKept_of_ofMembers? (h : everyMember isFitting ms = true) {p : PrivateName}
    (hp : ofMembers? ms = some p) : p.isKept = true := by
  have hgives : Gives (fun p => p.isKept = true) (ofMembers? ms) := by
    simp only [ofMembers?, gives_bind, gives_pure]
    exact fun _ _ _ hid => Ident.isKept_of_required h hid
  exact hgives p hp

@[grind →] theorem isKept_of_required (h : everyMember isFitting ms = true) {p : PrivateName}
    (hp : required ms key ofJson? = some p) : p.isKept = true := by
  have hgives : Gives (fun p => p.isKept = true) (required ms key ofJson?) := by
    refine gives_required fun json hmem => ?_
    exact gives_asRecord (isFitting_of_mem h hmem) fun ms' hms' p => isKept_of_ofMembers? hms'
  exact hgives p hp

end PrivateName

/-- An integer of 64 bits is a finite double, like one that is written as a double. -/
@[grind →] theorem NumberLit.isKept_of_ofMembers? (h : everyMember isFitting ms = true)
    {n : NumberLit} (hn : ofMembers? ms = some n) : n.isKept = true := by
  have hdouble {json : Json} (hjson : json.everyScalar isFitting = true) :
      Gives (fun x => x.isFinite = true) (asDouble json) := by
    cases json with
    | int n =>
      refine gives_some.mpr (Binary64.isFinite_ofInt ?_)
      simp only [everyScalar, isFitting, Bool.and_eq_true, decide_eq_true_eq] at hjson
      omega
    | float x => exact gives_some.mpr hjson
    | _ => exact gives_none
  have hgives : Gives (fun n => n.isKept = true) (ofMembers? ms) := by
    simp only [ofMembers?, gives_bind, gives_pure]
    exact fun _ _ => gives_required fun _ hmem => hdouble (isFitting_of_mem h hmem)
  exact hgives n hn

@[grind →] theorem JsxNamespacedName.isKept_of_ofMembers? (h : everyMember isFitting ms = true)
    {n : JsxNamespacedName} (hn : ofMembers? ms = some n) : n.isKept = true := by
  have hgives : Gives (fun n => n.isKept = true) (ofMembers? ms) := by
    simp only [ofMembers?, gives_bind, gives_pure]
    exact fun _ _ _ hspace _ hname => Bool.and_eq_true_iff.mpr
      ⟨Ident.isKept_of_required h hspace, Ident.isKept_of_required h hname⟩
  exact hgives n hn

/-- What is read by its kind from a value whose scalars are what a test asks for. -/
theorem gives_readTagged {α : Type} {P : α → Prop} {test : Json → Bool} {stored : Bool}
    {kindAt : Json → Option NodeKind} {read : NodeKind → List (String × Json) → Option α}
    (hjson : json.everyScalar test = true)
    (h : ∀ kind ms, everyMember test ms = true → Gives P (read kind ms)) :
    Gives P (readTagged stored kindAt read json) := by
  intro x hx
  obtain ⟨kind, ms, hread, ⟨all, rfl, rfl⟩ | ⟨tag, items, rfl, hms⟩⟩ := readTagged_cases hx
  · refine h kind _ (everyMember_iff.mpr fun m hm => ?_) x hread
    exact everyMember_iff.mp hjson m (List.mem_filter.mp hm).1
  · refine h kind ms (everyMember_of_asRecord hms ?_) x hread
    exact everyItem_iff.mpr fun item hitem =>
      everyItem_iff.mp hjson item (List.mem_cons_of_mem _ hitem)

theorem JsxAttrName.gives_jsxAttrName {stored : Bool} (h : json.everyScalar isFitting = true) :
    Gives (fun name => name.isKept = true) (Read.jsxAttrName stored json) := by
  refine gives_readTagged h fun kind ms hms => ?_
  unfold Read.jsxAttrNameOf
  split
  · exact gives_map.mpr fun _ => Ident.isKept_of_ofMembers? hms
  · exact gives_map.mpr fun _ => JsxNamespacedName.isKept_of_ofMembers? hms
  · exact gives_none

@[grind →] theorem JsxAttrName.isKept_of_required {stored : Bool}
    (h : everyMember isFitting ms = true) {name : JsxAttrName}
    (hname : required ms key (Read.jsxAttrName stored) = some name) : name.isKept = true :=
  gives_required (fun _ hmem => gives_jsxAttrName (isFitting_of_mem h hmem)) name hname

@[grind →] theorem PropertyTraits.isKept_of_propertyTraits {stored : Bool}
    (h : everyMember isFitting ms = true) {traits : PropertyTraits}
    (htraits : Read.propertyTraits stored ms = some traits) :
    traits.typing.all Opaque.isKept = true := by
  have hgives : Gives (fun t => t.typing.all Opaque.isKept = true)
      (Read.propertyTraits stored ms) := by
    simp only [Read.propertyTraits, gives_bind, gives_pure]
    exact fun typing htyping _ _ _ _ _ _ _ _ _ _ _ _ _ _ => Opaque.isKept_of_optional h htyping
  exact hgives traits htraits

end Leaves

/-! ### Members whose readings give good nodes -/

/-- What is shown of every node that is read: its leaves are such as are read, and it is
settled if kinds are spelled. -/
def Node.isRead (spelled : Bool) {c : Category} (n : Node c) : Bool :=
  n.isKept && (n.isSettled || !spelled)

/-- Everything in a node is such as is read. -/
def Node.IsRead (spelled : Bool) {c : Category} (n : Node c) : Prop :=
  n.every (isRead spelled) = true

/-- Everything in a list of nodes is such as is read. -/
def Nodes.IsRead (spelled : Bool) {c : Category} (ns : Nodes c) : Prop :=
  ns.every (Node.isRead spelled) = true

theorem Node.isRead_absent (spelled : Bool) {c : Category} :
    (absent : Node (.opt c)).IsRead spelled := by
  unfold IsRead
  rfl

theorem Nodes.isRead_nil (spelled : Bool) {c : Category} : (nil : Nodes c).IsRead spelled := by
  unfold IsRead
  rfl

/-- A value that fits the exchange format, and whose readings give nodes such as are
read. -/
structure Reading.IsGood (spelled : Bool) (r : Reading) : Prop where
  fits : r.json.everyScalar isFitting = true
  node (stored : Bool) (c : Category) : Gives (Node.IsRead spelled) (r.node stored c)
  nodes (stored : Bool) (c : Category) : Gives (Nodes.IsRead spelled) (r.nodes stored c)

def Json.isInt : Json → Bool
  | .int _ => true
  | _ => false

/-- All members are good, and the kind is not given by its number if kinds are
spelled. -/
structure Fields.IsGood (spelled : Bool) (fs : Fields) : Prop where
  member {key : String} {r : Reading} (h : (key, r) ∈ fs.members) : r.IsGood spelled
  kind {r : Reading} (hspelled : spelled = true) (h : ("type", r) ∈ fs.members) :
    r.json.isInt = false

namespace Fields.IsGood

variable {spelled : Bool} {fs inner : Fields} {key : String} {c : Category}

@[grind →] theorem plain (h : fs.IsGood spelled) : everyMember isFitting fs.plain = true := by
  refine everyMember_iff.mpr fun m hm => ?_
  obtain ⟨f, hf, rfl⟩ := List.mem_map.mp hm
  exact (h.member hf).fits

@[grind →] theorem node (h : fs.IsGood spelled) {n : Node c} (hn : fs.node key c = some n) :
    n.IsRead spelled :=
  gives_required (fun _ hmem => (h.member hmem).node _ _) n hn

@[grind →] theorem place (h : fs.IsGood spelled) {n : Node (.opt c)}
    (hn : fs.place key c = some n) : n.IsRead spelled :=
  gives_defaulted (Node.isRead_absent spelled) (fun _ hmem => (h.member hmem).node _ _) n hn

@[grind →] theorem nodes (h : fs.IsGood spelled) {ns : Nodes c} (hns : fs.nodes key c = some ns) :
    ns.IsRead spelled :=
  gives_defaulted (Nodes.isRead_nil spelled) (fun _ hmem => (h.member hmem).nodes _ _) ns hns

theorem subset (h : fs.IsGood spelled) (hsub : inner.members ⊆ fs.members) :
    inner.IsGood spelled :=
  ⟨fun hmem => h.member (hsub hmem), fun hspelled hmem => h.kind hspelled (hsub hmem)⟩

theorem store (h : fs.IsGood spelled) : Gives (IsGood spelled) fs.store :=
  gives_ite (fun _ => gives_some.mpr (h.subset (List.Subset.refl _))) fun _ => gives_none

theorem without (h : fs.IsGood spelled) (keys : List String) : (fs.without keys).IsGood spelled :=
  h.subset fun _ hmem => (List.mem_filter.mp hmem).1

@[grind →] theorem store_without (h : fs.IsGood spelled) {keys : List String}
    (hstore : (fs.without keys).store = some inner) : inner.IsGood spelled :=
  (h.without keys).store inner hstore

/-- Good items make good members. -/
theorem of_place {stored : Bool} {slots : List Slot} {items : List Reading}
    {members : List (String × Reading)} (h : ∀ r ∈ items, r.IsGood spelled)
    (htype : "type" ∉ slots.map Slot.key) (hmembers : Json.place slots items = some members) :
    IsGood spelled ⟨stored, members⟩ where
  member hmem := h _ (mem_items_of_place hmembers hmem)
  kind _ hmem := absurd (mem_keys_of_place hmembers hmem) htype

end Fields.IsGood

/-- No field of a node is its kind. -/
theorem NodeKind.type_notMem_slots {kind : NodeKind} {slots : List Slot}
    (h : kind.slots = some slots) : "type" ∉ slots.map Slot.key := by
  have hall : kind.slots.all (fun slots => !(slots.map Slot.key).contains "type") = true := by
    cases kind <;> rfl
  rw [h, Option.all_some, Bool.not_eq_true'] at hall
  exact fun hmem => Bool.false_ne_true (hall.symm.trans (List.contains_iff_mem.mpr hmem))

theorem Category.type_notMem_slots {c : Category} {slots : List Slot}
    (h : c.slots = some slots) : "type" ∉ slots.map Slot.key := by
  have hall : c.slots.all (fun slots => !(slots.map Slot.key).contains "type") = true := by
    cases c <;> rfl
  rw [h, Option.all_some, Bool.not_eq_true'] at hall
  exact fun hmem => Bool.false_ne_true (hall.symm.trans (List.contains_iff_mem.mpr hmem))

/-- All parts are good, and the kind is not given by its number if kinds are spelled. -/
def Parts.IsGood (spelled : Bool) : Parts → Prop
  | .object fs => fs.IsGood spelled
  | .array _ items => (∀ r ∈ items, r.IsGood spelled) ∧
    (spelled = true → ∀ tag ∈ items.head?, tag.json.isInt = false)

namespace Parts.IsGood

variable {spelled : Bool} {ps : Parts} {slots : Option (List Slot)}

theorem store (h : ps.IsGood spelled) : Gives (IsGood spelled) ps.store := by
  cases ps with
  | object fs => exact gives_map.mpr (Fields.IsGood.store h)
  | array stored items => exact gives_ite (fun _ => gives_some.mpr h) fun _ => gives_none

/-- Good parts make good members. -/
theorem fields (h : ps.IsGood spelled) (htype : ∀ fields ∈ slots, "type" ∉ fields.map Slot.key) :
    Gives (Fields.IsGood spelled) (ps.fields slots) := by
  cases ps with
  | object fs => exact gives_some.mpr h
  | array stored items =>
    simp only [Parts.fields, gives_bind, gives_pure]
    intro fields hfields members hmembers
    exact .of_place h.1 (htype fields hfields) hmembers

/-- A tag is no number if kinds are spelled. -/
theorem tag (h : ps.IsGood spelled) (hspelled : spelled = true) {tag : Json}
    (htag : ps.tag? = some tag) : tag.isInt = false := by
  cases ps with
  | object fs =>
    have hgives : Gives (fun json => json.isInt = false) (Parts.object fs).tag? :=
      gives_required fun r hmem => gives_some.mpr (Fields.IsGood.kind h hspelled hmem)
    exact hgives tag htag
  | array stored items =>
    obtain ⟨r, hr, rfl⟩ := Option.map_eq_some_iff.mp htag
    exact h.2 hspelled r hr

/-- What stands beside a tag are good members, none of which is a tag. -/
theorem beside (h : ps.IsGood spelled) (kind : NodeKind) :
    Gives (fun fs => fs.IsGood spelled ∧ hasKey fs.plain "type" = false) (ps.beside kind) := by
  have hplain {fs : Fields} (hkeys : hasKey fs.members "type" = false) :
      hasKey fs.plain "type" = false := by
    refine List.any_eq_false.mpr fun m hm => ?_
    obtain ⟨f, hf, rfl⟩ := List.mem_map.mp hm
    exact List.any_eq_false.mp hkeys f hf
  cases ps with
  | object fs =>
    intro inner hinner
    refine ⟨Fields.IsGood.store_without h hinner, hplain ?_⟩
    rw [Parts.beside, Fields.store, Option.ite_none_right_eq_some] at hinner
    obtain ⟨-, hinner⟩ := hinner
    rw [← Option.some.inj hinner]
    exact hasKey_filter (List.mem_singleton_self _)
  | array stored items =>
    intro inner hinner
    obtain ⟨qs, hstore, hfields⟩ := Option.bind_eq_some_iff.mp hinner
    rw [Parts.store, Option.ite_none_right_eq_some] at hstore
    obtain ⟨-, hstore⟩ := hstore
    rw [← Option.some.inj hstore] at hfields
    obtain ⟨slots, hslots, hplaced⟩ := Option.bind_eq_some_iff.mp hfields
    obtain ⟨members, hmembers, hsame⟩ := Option.bind_eq_some_iff.mp hplaced
    have htype := kind.type_notMem_slots hslots
    rw [← Option.some.inj hsame]
    constructor
    · exact .of_place (fun r hr => h.1 r (List.mem_of_mem_tail hr)) htype hmembers
    · apply hplain
      refine List.any_eq_false.mpr fun m hm hkey => htype ?_
      rw [← beq_iff_eq.mp hkey]
      exact mem_keys_of_place hmembers hm

end Parts.IsGood

/-! ### Tables -/

/-- The kinds whose nodes keep what is not understood of them. -/
def NodeKind.isOpaque : NodeKind → Bool
  | .tsTypeAssertion | .tsNonNullExpression | .tsTypeCastExpression | .tsAsExpression
  | .tsIndexSignature | .tsParameterProperty | .tsInterfaceDeclaration | .tsTypeAliasDeclaration
  | .tsEnumDeclaration | .tsModuleDeclaration | .tsImportEqualsDeclaration | .tsExportAssignment
  | .tsNamespaceExportDeclaration => true
  | _ => false

section Tables

variable {spelled : Bool} {fs : Fields} {c : Category} {kind : NodeKind}

/-- What is read at a category that tells no kinds apart. -/
theorem gives_part (h : fs.IsGood spelled) (hc : c.tellsKinds = false)
    (hplace : c.isPlace = false) : Gives (Node.IsRead spelled) (readParts (.object fs) c) := by
  cases c
  all_goals
    first
    | exact absurd hc Bool.noConfusion
    | exact absurd hplace Bool.noConfusion
    | skip
  -- steps in a row become hypotheses, each of which says something of the part it gave
  all_goals
    simp only [readParts, Parts.fields_object, some_bind, Read.spread, Read.rest, Read.function,
      Read.functionExpr, Read.klass, Read.classExpr, Read.decorator, Read.block, Read.switchCase,
      Read.catchClause, Read.varDecl,
      Read.declarator, Read.jsxMember, Read.jsxContainer, Read.jsxAttr, Read.jsxOpening,
      Read.jsxClosing, Read.jsxElement, Read.jsxFragment, Read.typingOf, gives_bind, gives_pure]
    simp only [Gives]
    intros
    simp! only [Node.IsRead, Node.isRead]
    grind -ring -linarith [Node.IsRead, Nodes.IsRead]

/-- An expression with `new` has arguments if there is a list of them. -/
theorem newExpr_cases {e : Node .expr} (he : Read.newExpr fs = some e) :
    ∃ span callee types, fs.node "callee" .expr = some callee ∧
      optional fs.plain "typeArguments" Opaque.ofJson? = some types ∧
      (e = .newBare span callee types ∨ ∃ r arguments, ("arguments", r) ∈ fs.members ∧
        r.nodes fs.stored .argument = some arguments ∧ e = .new span callee arguments types) := by
  simp only [Read.newExpr, Option.bind_eq_bind, Option.bind_eq_some_iff] at he
  obtain ⟨span, -, callee, hcallee, types, htypes, he⟩ := he
  refine ⟨span, callee, types, hcallee, htypes, ?_⟩
  split at he
  · exact .inl (Option.some.inj he).symm
  · rename_i r hr
    split at he
    · exact .inl (Option.some.inj he).symm
    · obtain ⟨arguments, harguments, he⟩ := Option.bind_eq_some_iff.mp he
      exact .inr ⟨r, arguments, mem_of_find hr, harguments, (Option.some.inj he).symm⟩
  · cases he

theorem gives_newExpr (h : fs.IsGood spelled) : Gives (Node.IsRead spelled) (Read.newExpr fs) := by
  intro e he
  obtain ⟨span, callee, types, hcallee, htypes, rfl | ⟨r, arguments, hr, harguments, rfl⟩⟩ :=
    newExpr_cases he
  · simp! only [Node.IsRead, Node.isRead]
    grind -ring -linarith [Node.IsRead]
  · have hlist := (h.member hr).nodes _ _ arguments harguments
    simp! only [Node.IsRead, Node.isRead]
    grind -ring -linarith [Node.IsRead, Nodes.IsRead]

/-- What a table makes of good members. A payload keeps what is not understood of it, so a
member for the kind must not be there. -/
theorem Category.gives_table (h : fs.IsGood spelled)
    (htype : kind.isOpaque = true → hasKey fs.plain "type" = false) :
    Gives (Node.IsRead spelled) (c.table kind fs) := by
  cases c
  all_goals
    simp only [table, Read.expr, Read.argument, Read.pattern, Read.patternMember, Read.property,
      Read.propertyName, Read.objectMember, Read.arrowBody, Read.classMember, Read.param, Read.stmt,
      Read.forInit, Read.forTarget, Read.decl, Read.jsxObject, Read.jsxName, Read.jsxExpr,
      Read.jsxAttrValue, Read.jsxAttrOrSpread, Read.jsxChild]
  all_goals try exact gives_none
  -- one goal for each kind; the nodes without a kind that a kind is given to are unfolded too
  all_goals split
  all_goals
    first
    | exact gives_none
    | exact gives_newExpr h
    | simp only [Read.spread, Read.rest, Read.function, Read.functionExpr, Read.klass,
        Read.classExpr, Read.block, Read.varDecl, Read.jsxMember, Read.jsxContainer, Read.jsxAttr,
        Read.jsxElement, Read.jsxFragment, Read.typingOf, Read.typed, gives_bind, gives_map,
        gives_pure]
      simp only [Gives]
      intros
      simp! only [Node.IsRead, Node.isRead] <;>
        grind -ring -linarith [Node.IsRead, Nodes.IsRead, NodeKind.isOpaque]

end Tables

end EcmaPrinter
