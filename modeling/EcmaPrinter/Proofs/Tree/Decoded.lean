/-
# Nodes such as are read

A node that is read from a value has leaves such as are read, and it is settled if kinds
are spelled. Where a category takes in expressions, its own table is tried first and has
the same members to read, so that an expression of one of its own kinds is not reached. A
kind that is given by its number means different things to the two tables.

The induction is over the value: the readings of the members of an object give nodes such
as are read, and the object is made of what they give.

Key definitions: `Json.spellsKinds`, `Json.IsGiven`.
Key theorems: `exprKind_of_table`, `exprKind_notMem`, `gives_readParts`, `gives_read`.
-/
import EcmaPrinter.Proofs.Tree.Kept

namespace EcmaPrinter

open Json

/-! ### Kinds -/

section Kinds

variable {spelled : Bool} {fs : Fields} {ps : Parts} {c : Category} {kind : NodeKind}

/-- An expression that is read by a kind is of that kind. -/
theorem exprKind_of_table {e : Node .expr} (he : Category.expr.table kind fs = some e) :
    e.exprKind = kind := by
  have hgives : Gives (fun e => e.exprKind = kind) (Read.expr kind fs) := by
    unfold Read.expr
    dsimp only
    split
    all_goals
      first
      | exact gives_none
      | intro e he
        obtain ⟨_, _, _, _, _, rfl | ⟨_, _, _, _, rfl⟩⟩ := newExpr_cases he <;> rfl
      | simp only [Read.typed, gives_bind, gives_map, gives_pure]
        simp only [Gives]
        intros
        rfl
  exact hgives e he

/-- A table that fails on members of one of its kinds asks no less of them than the table
of expressions does. -/
theorem Category.expr_table_eq_none : ∀ kind ∈ c.kinds, c.table kind fs = none →
    Category.expr.table kind fs = none := by
  cases c
  all_goals simp only [kinds, List.forall_mem_cons]
  all_goals repeat' apply And.intro
  all_goals
    first
    | exact List.forall_mem_nil _
    | exact fun _ => rfl
    | exact fun h => Option.map_eq_none_iff.mpr (Option.map_eq_none_iff.mp h)
    | exact id

theorem gives_byKind {α : Type} {P : α → Prop} {kinds : List NodeKind}
    {table : NodeKind → Fields → Option α} (h : ps.IsGood spelled)
    (htable : ∀ kind inner, inner.IsGood spelled → hasKey inner.plain "type" = false →
      Gives P (table kind inner)) : Gives P (ps.byKind kinds table) := by
  simp only [ps.byKind_eq, gives_bind]
  intro tag _ kind _ inner hinner
  obtain ⟨hgood, htype⟩ := h.beside kind inner hinner
  exact htable kind inner hgood htype

/-- A kind that is not given by its number is the same for all lists of kinds. -/
theorem kindOf_eq {stored : Bool} {json : Json} (h : json.isInt = false)
    (kinds kinds' : List NodeKind) : kindOf stored kinds json = kindOf stored kinds' json := by
  cases json with
  | int n => cases h
  | _ => rfl

/-- **Where kinds are spelled, an expression that a category takes in is of none of the
category's own kinds.** Its own table has read the same members. -/
theorem exprKind_notMem (h : ps.IsGood true) (hown : ps.byKind c.kinds c.table = none)
    {e : Node .expr} (he : Read.anyExpr ps = some e) : e.exprKind ∉ c.kinds := by
  rw [Read.anyExpr, ps.byKind_eq] at he
  obtain ⟨tag, htag, he⟩ := Option.bind_eq_some_iff.mp he
  obtain ⟨kind, hkind, he⟩ := Option.bind_eq_some_iff.mp he
  obtain ⟨inner, hinner, he⟩ := Option.bind_eq_some_iff.mp he
  -- what spells a kind to one table spells it to the other
  have hkind' : kindOf ps.isStored c.kinds tag = some kind :=
    (kindOf_eq (h.tag rfl htag) _ _).trans hkind
  rw [ps.byKind_eq, htag, some_bind, hkind', some_bind, hinner, some_bind] at hown
  rw [exprKind_of_table he]
  intro hmem
  exact Option.some_ne_none _ (he.symm.trans (Category.expr_table_eq_none kind hmem hown))

end Kinds

/-! ### Parts -/

section Parts

variable {spelled : Bool} {ps : Parts} {c : Category}

/-- What a category makes of the kinds it tells apart. -/
theorem gives_own (h : ps.IsGood spelled) (c : Category) :
    Gives (Node.IsRead spelled) (ps.byKind c.kinds c.table) :=
  gives_byKind h fun _ _ hinner htype => Category.gives_table hinner fun _ => htype

/-- A category that takes in expressions. -/
theorem gives_takenIn (h : ps.IsGood spelled) {w : Node .expr → Node c}
    (hw : ∀ e, e.IsRead spelled → (spelled = true → e.exprKind ∉ c.kinds) → (w e).IsRead spelled) :
    Gives (Node.IsRead spelled) (ps.byKind c.kinds c.table <|> (Read.anyExpr ps).map w) := by
  refine (gives_own h c).orElse fun hown => gives_map.mpr fun e he => ?_
  refine hw e (gives_own h .expr e he) fun hspelled => ?_
  subst hspelled
  exact exprKind_notMem h hown he

/-- A node that wraps another one. -/
theorem Node.IsRead.wrap {c' : Category} {n : Node c} (hn : n.IsRead spelled) {m : Node c'}
    (hm : m.isRead spelled = true)
    (hevery : m.every (Node.isRead spelled) =
      (m.isRead spelled && n.every (Node.isRead spelled)) := by rfl) : m.IsRead spelled := by
  rw [IsRead, hevery, hm]
  exact hn

theorem settled_or {p : Prop} [Decidable p] (h : spelled = true → p) :
    (decide p || !spelled) = true := by
  cases spelled with
  | false => exact Bool.or_true _
  | true => exact Bool.or_eq_true_iff.mpr (.inl (decide_eq_true (h rfl)))

theorem gives_anyPattern (h : ps.IsGood spelled) :
    Gives (Node.IsRead spelled) (Read.anyPattern ps) :=
  gives_takenIn (c := .pattern) h fun _ he hkind => he.wrap (settled_or hkind)

/-- What is read from parts is not an empty place. -/
theorem isAbsent_readParts (c : Category) :
    Gives (fun n => n.isAbsent = false) (readParts ps c) := by
  cases c with
  | opt c => exact gives_map.mpr fun _ _ => rfl
  | _ => exact fun n _ => n.isAbsent_eq_false rfl

/-- What is read where the place says what it is. -/
theorem gives_plain (h : ps.IsGood spelled) (hc : c.tellsKinds = false)
    (hplace : c.isPlace = false) : Gives (Node.IsRead spelled) (readParts ps c) := by
  have hfields : readParts ps c = ps.fields c.slots >>= fun fs => readParts (.object fs) c := by
    cases c
    all_goals
      first
      | exact absurd hc Bool.noConfusion
      | exact absurd hplace Bool.noConfusion
      | rfl
  rw [hfields]
  refine gives_bind.mpr ((h.fields fun fields hslots => ?_).mono fun fs hfs => ?_)
  · exact Category.type_notMem_slots hslots
  · exact gives_part hfs hc hplace

/-- **What is read from good parts is such as is read.** -/
theorem gives_readParts (h : ps.IsGood spelled) (c : Category) :
    Gives (Node.IsRead spelled) (readParts ps c) := by
  have hstored {c : Category} {read : Parts → Option (Node c)}
      (hread : ∀ inner, inner.IsGood spelled → Gives (Node.IsRead spelled) (read inner)) :
      Gives (Node.IsRead spelled) (ps.store >>= read) :=
    gives_bind.mpr (h.store.mono hread)
  induction c with
  | argument => exact hstored fun _ h => gives_takenIn h fun _ he _ => he.wrap rfl
  | pattern => exact hstored fun _ => gives_anyPattern
  | propertyName =>
    exact hstored fun _ h => gives_takenIn h fun _ he hkind => he.wrap (settled_or hkind)
  | objectMember =>
    exact hstored fun _ h => (gives_own h .objectMember).orElse
      fun _ => gives_map.mpr ((gives_own h .property).mono fun _ hp => hp.wrap rfl)
  | arrowBody => exact hstored fun _ h => gives_takenIn h fun _ he _ => he.wrap rfl
  | param =>
    exact hstored fun _ h => (gives_own h .param).orElse
      fun _ => gives_map.mpr ((gives_anyPattern h).mono fun _ hp => hp.wrap rfl)
  | stmt =>
    refine hstored fun _ h => (gives_own h .stmt).orElse fun _ => ?_
    refine (gives_map.mpr ((gives_own h .decl).mono fun _ hd => hd.wrap rfl)).orElse fun _ => ?_
    exact gives_map.mpr ((gives_own h .expr).mono fun _ he => he.wrap rfl)
  | forInit => exact hstored fun _ h => gives_takenIn h fun _ he _ => he.wrap rfl
  | forTarget =>
    exact hstored fun _ h => (gives_own h .forTarget).orElse
      fun _ => gives_map.mpr ((gives_anyPattern h).mono fun _ hp => hp.wrap rfl)
  | jsxExpr =>
    exact hstored fun _ h => gives_takenIn h fun _ he hkind => he.wrap (settled_or hkind)
  | jsxAttrValue =>
    exact hstored fun _ h => gives_takenIn h fun _ he hkind => he.wrap (settled_or hkind)
  | opt c ih =>
    refine gives_map.mpr fun n hn => (ih n hn).wrap ?_
    have hpresent : (!n.isAbsent) = true := by
      rw [isAbsent_readParts c n hn]
      rfl
    exact Bool.and_eq_true_iff.mpr ⟨hpresent, rfl⟩
  | _ =>
    first
    | exact gives_own h _
    | exact gives_plain h rfl rfl

end Parts

/-! ### Values -/

mutual
/-- No kind in the value is given by its number: no member `type` of an object and no first
item of an array is an integer. -/
def Json.spellsKinds : Json → Bool
  | .arr items => !items.head?.any isInt && itemsSpellKinds items
  | .obj members => membersSpellKinds members
  | _ => true

def Json.itemsSpellKinds : List Json → Bool
  | [] => true
  | item :: rest => item.spellsKinds && itemsSpellKinds rest

def Json.membersSpellKinds : List (String × Json) → Bool
  | [] => true
  | (key, value) :: rest =>
    (key != "type" || !value.isInt) && value.spellsKinds && membersSpellKinds rest
end

/-- A value that fits the exchange format, without numbers for kinds if kinds are spelled. -/
structure Json.IsGiven (spelled : Bool) (json : Json) : Prop where
  fits : json.everyScalar isFitting = true
  spelled : spelled = true → json.spellsKinds = true

section Values

variable {spelled : Bool}

theorem membersSpellKinds_iff {ms : List (String × Json)} : membersSpellKinds ms = true ↔
    ∀ m ∈ ms, (m.1 = "type" → m.2.isInt = false) ∧ m.2.spellsKinds = true := by
  induction ms with
  | nil => simp [membersSpellKinds]
  | cons m ms ih =>
    obtain ⟨key, value⟩ := m
    simp [membersSpellKinds, ih, Decidable.imp_iff_not_or, and_assoc]

theorem itemsSpellKinds_iff {items : List Json} : itemsSpellKinds items = true ↔
    ∀ item ∈ items, item.spellsKinds = true := by
  induction items with
  | nil => simp [itemsSpellKinds]
  | cons item items ih => simp [itemsSpellKinds, ih]

namespace Json.IsGiven

variable {ms ms' : List (String × Json)} {items items' : List Json} {key : String} {value : Json}

theorem item (h : (arr items).IsGiven spelled) (hmem : value ∈ items) : value.IsGiven spelled where
  fits := everyItem_iff.mp h.fits _ hmem
  spelled hs := by
    have hitems := (Bool.and_eq_true_iff.mp (h.spelled hs)).2
    exact itemsSpellKinds_iff.mp hitems _ hmem

theorem tag (h : (arr items).IsGiven spelled) (hspelled : spelled = true)
    (htag : value ∈ items.head?) : value.isInt = false := by
  have hhead := (Bool.and_eq_true_iff.mp (h.spelled hspelled)).1
  rw [htag, Option.any_some, Bool.not_eq_true'] at hhead
  exact hhead

theorem member (h : (obj ms).IsGiven spelled) (hmem : (key, value) ∈ ms) :
    value.IsGiven spelled :=
  ⟨everyMember_iff.mp h.fits _ hmem,
    fun hs => (membersSpellKinds_iff.mp (h.spelled hs) _ hmem).2⟩

theorem kind (h : (obj ms).IsGiven spelled) (hspelled : spelled = true)
    (hmem : ("type", value) ∈ ms) : value.isInt = false :=
  (membersSpellKinds_iff.mp (h.spelled hspelled) _ hmem).1 rfl

theorem subset (h : (obj ms).IsGiven spelled) (hsub : ms' ⊆ ms) : (obj ms').IsGiven spelled :=
  ⟨everyMember_iff.mpr fun m hm => everyMember_iff.mp h.fits m (hsub hm),
    fun hs => membersSpellKinds_iff.mpr fun m hm =>
      membersSpellKinds_iff.mp (h.spelled hs) m (hsub hm)⟩

/-- Items in their places are members, none of which is a kind. -/
theorem placed {slots : List Slot} (h : ∀ item ∈ items, item.IsGiven spelled)
    (htype : "type" ∉ slots.map Slot.key) (hplaced : place slots items = some ms) :
    (obj ms).IsGiven spelled where
  fits := everyMember_iff.mpr fun _ hm => (h _ (mem_items_of_place hplaced hm)).fits
  spelled hs := by
    refine membersSpellKinds_iff.mpr fun m hm => ⟨fun hkey => ?_, ?_⟩
    · exact absurd (hkey ▸ mem_keys_of_place hplaced hm) htype
    · exact (h _ (mem_items_of_place hplaced hm)).spelled hs

/-- The members of a record. -/
theorem asRecord {slots : Option (List Slot)} (h : value.IsGiven spelled)
    (htype : ∀ fields ∈ slots, "type" ∉ fields.map Slot.key)
    (hms : Json.asRecord slots value = some ms) : (obj ms).IsGiven spelled := by
  rcases asRecord_cases hms with rfl | ⟨items, fields, rfl, hslots, hplaced⟩
  · exact h
  · exact placed (fun _ => h.item) (htype fields hslots) hplaced

end Json.IsGiven

theorem gives_readScalar (json : Json) (c : Category) :
    Gives (Node.IsRead spelled) (readScalar json c) := by
  unfold readScalar
  split
  · split
    · exact gives_some.mpr (Node.isRead_absent spelled)
    · exact gives_none
  · exact gives_none

mutual
theorem gives_readAt : ∀ {json : Json}, json.IsGiven spelled →
    ∀ (stored : Bool) (c : Category), Gives (Node.IsRead spelled) (json.readAt stored c)
  | .obj ms, h, stored, c => by
    have hparts : Parts.IsGood spelled (.object ⟨stored, readMembers ms⟩) :=
      isGood_readMembers h stored
    rw [readAt]
    exact gives_readParts hparts c
  | .arr items, h, stored, c => by
    have hgood := isGood_readings fun _ => h.item
    have htag : spelled = true → ∀ tag ∈ (readings items).head?, tag.json.isInt = false := by
      intro hspelled tag htag
      rw [readings_eq, List.head?_map] at htag
      obtain ⟨item, hitem, rfl⟩ := Option.map_eq_some_iff.mp htag
      exact h.tag hspelled hitem
    have hparts : Parts.IsGood spelled (.array stored (readings items)) := ⟨hgood, htag⟩
    rw [readAt]
    exact gives_readParts hparts c
  | .null, _, _, c | .bool _, _, _, c | .int _, _, _, c | .float _, _, _, c | .str _, _, _, c
  | .unreadable, _, _, c => by
    rw [readAt]
    · exact gives_readScalar _ c
    · exact nofun
    · exact nofun

theorem gives_readItems : ∀ {items : List Json}, (∀ item ∈ items, item.IsGiven spelled) →
    ∀ (stored : Bool) (c : Category), Gives (Nodes.IsRead spelled) (readItems items stored c)
  | [], _, _, _ => gives_some.mpr (Nodes.isRead_nil spelled)
  | item :: items, h, stored, c => by
    obtain ⟨hitem, hitems⟩ := List.forall_mem_cons.mp h
    simp only [readItems, gives_bind, gives_pure]
    refine (gives_readAt hitem stored c).mono fun n hn => ?_
    refine (gives_readItems hitems stored c).mono fun ns hns => ?_
    exact Bool.and_eq_true_iff.mpr ⟨hn, hns⟩

theorem gives_readList : ∀ {json : Json}, json.IsGiven spelled →
    ∀ (stored : Bool) (c : Category), Gives (Nodes.IsRead spelled) (json.readList stored c)
  | .arr items, h, stored, c => by
    rw [readList]
    exact gives_readItems (fun _ => h.item) stored c
  | .null, _, _, _ | .bool _, _, _, _ | .int _, _, _, _ | .float _, _, _, _ | .str _, _, _, _
  | .obj _, _, _, _ | .unreadable, _, _, _ => gives_none

theorem isGood_readings : ∀ {items : List Json}, (∀ item ∈ items, item.IsGiven spelled) →
    ∀ r ∈ readings items, r.IsGood spelled
  | [], _ => List.forall_mem_nil _
  | item :: items, h => by
    obtain ⟨hitem, hitems⟩ := List.forall_mem_cons.mp h
    rw [readings]
    have hgood : Reading.IsGood spelled ⟨item, item.readAt, item.readList⟩ :=
      ⟨hitem.fits, gives_readAt hitem, gives_readList hitem⟩
    exact List.forall_mem_cons.mpr ⟨hgood, isGood_readings hitems⟩

theorem isGood_readMembers : ∀ {ms : List (String × Json)}, (Json.obj ms).IsGiven spelled →
    ∀ stored : Bool, Fields.IsGood spelled ⟨stored, readMembers ms⟩
  | [], _, _ => ⟨nofun, nofun⟩
  | (key, value) :: ms, h, stored => by
    have hvalue := h.member List.mem_cons_self
    have hms := h.subset (List.subset_cons_self (key, value) ms)
    have hrest := isGood_readMembers hms stored
    rw [readMembers]
    refine ⟨fun hmem => ?_, fun hspelled hmem => ?_⟩
    · rcases List.mem_cons.mp hmem with hfirst | hmem
      · cases hfirst
        exact ⟨hvalue.fits, gives_readAt hvalue, gives_readList hvalue⟩
      · exact hrest.member hmem
    · rcases List.mem_cons.mp hmem with hfirst | hmem
      · cases hfirst
        exact h.kind hspelled List.mem_cons_self
      · exact hrest.kind hspelled hmem
end

/-- **A node that is read has leaves such as are read, and is settled if kinds are
spelled.** -/
theorem gives_read {json : Json} (h : json.IsGiven spelled) (c : Category) :
    Gives (Node.IsRead spelled) (json.read c) :=
  gives_readAt h false c

end Values

end EcmaPrinter
