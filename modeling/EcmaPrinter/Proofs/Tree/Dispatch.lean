/-
# Reading by tag

Some categories take in the nodes of others, and read a value at their own kinds first and
then at those of the other categories, one after the other. Where the kind is spelled this comes
to a table: each spelling has one payload, the own ones shadow those taken in, and a value is
read once, by the payload of its spelling (`tagged_reading_is_dispatch`). The spelling is the
member `type` of an object or the first item of an array. What fails at an own kind is not read
as anything else.

A kind may also be given by a number, as its place in a list of kinds. Each category has a list
of its own, so a number can mean one kind after the other, and there is no such table
(`numbered_reading_is_not_dispatch`).

Key definitions: `takeIn`, `Category.payloads`, `ModuleItem.payloads`, `Json.tagged?`,
`dispatch`.
Key theorems: `Shadows.pick_takeIn`, `Category.pick_payloads`, `spells_parts`,
`tagged_reading_is_dispatch`.
-/
import EcmaPrinter.Proofs.Tree.RoundTrip

namespace EcmaPrinter

open Json

/-! ### Tables of payloads -/

variable {α β : Type}

/-- A payload makes a node of what stands beside a tag. -/
abbrev Payload (α : Type) : Type := Parts → Option α

/-- What a table makes of a tag and what stands beside it. -/
def pick (table : List (String × Payload α)) (tag : String) (ps : Parts) : Option α :=
  table.lookup tag >>= fun payload => payload ps

/-- The payload of a kind, whose fields say where the items of an array belong. -/
def payloadOf (table : NodeKind → Fields → Option α) (kind : NodeKind) : Payload α :=
  fun ps => ps.fields kind.slots >>= table kind

/-- A table that takes in another one. Its own tags shadow those of the other. -/
def takeIn (own : List (String × Payload α)) (wrap : β → α)
    (others : List (String × Payload β)) : List (String × Payload α) :=
  own ++ (others.filter fun other => (own.lookup other.1).isNone).map fun other =>
    (other.1, fun ps => (other.2 ps).map wrap)

/-- The payloads of a category's own kinds. -/
def Category.own (c : Category) : List (String × Payload (Node c)) :=
  c.kinds.map fun kind => (kind.text, payloadOf c.table kind)

/-- The payloads of a category with those of the categories that it takes in. -/
def Category.payloads : (c : Category) → List (String × Payload (Node c))
  | .argument => takeIn argument.own .plainArgument expr.own
  | .pattern => takeIn pattern.own .exprPattern expr.own
  | .propertyName => takeIn propertyName.own .computedKey expr.own
  | .objectMember => takeIn objectMember.own .propertyMember property.own
  | .arrowBody => takeIn arrowBody.own .exprBody expr.own
  | .param => takeIn param.own .patternParam (takeIn pattern.own .exprPattern expr.own)
  | .stmt => takeIn (takeIn stmt.own .declStmt decl.own) .exprStmt expr.own
  | .forInit => takeIn forInit.own .exprInit expr.own
  | .forTarget => takeIn forTarget.own .patternTarget (takeIn pattern.own .exprPattern expr.own)
  | .jsxExpr => takeIn jsxExpr.own .jsxSomeExpr expr.own
  | .jsxAttrValue => takeIn jsxAttrValue.own .jsxExprValue expr.own
  | c => c.own

/-- The payloads of module declarations. -/
def ModuleDecl.payloads : List (String × Payload ModuleDecl) :=
  ModuleDecl.kinds.map fun kind => (kind.text, payloadOf ModuleDecl.ofKind? kind)

/-- The payloads of module items: those of module declarations and of statements. -/
def ModuleItem.payloads : List (String × Payload ModuleItem) :=
  takeIn (takeIn [] .decl ModuleDecl.payloads) .stmt Category.stmt.payloads

/-- The tag of a value that is stored, and what stands beside the tag. -/
def Json.tagged? (stored : Bool) : Json → Option (String × Parts)
  | .arr (tag :: items) => do
    let tag ← asString tag
    let items ← storedItems stored items
    return (tag, .array true (readings items))
  | json => do
    let ms ← storedMembers stored json
    let tag ← required ms "type" asString
    return (tag, .object (.of true (untagged ms)))

/-- Reads a value by its tag: it is stored, its tag is looked up, and the payload that is
found there reads it once. -/
def dispatch (stored : Bool) (table : List (String × Payload α)) (json : Json) : Option α :=
  json.tagged? stored >>= fun tagged => pick table tagged.1 tagged.2

section Tables

variable {own : List (String × Payload α)} {others : List (String × Payload β)} {wrap : β → α}
  {tag : String} {ps : Parts}

/-- **A tag is that of the first table that has it.** -/
theorem lookup_takeIn : (takeIn own wrap others).lookup tag =
    (own.lookup tag).or ((others.lookup tag).map fun payload ps => (payload ps).map wrap) := by
  rw [takeIn, List.lookup_append]
  cases hown : own.lookup tag with
  | some payload => rfl
  | none =>
    rw [Option.none_or, Option.none_or]
    induction others with
    | nil => rfl
    | cons other others ih =>
      obtain ⟨key, payload⟩ := other
      by_cases hkey : key = tag
      · subst hkey
        simp [hown]
      · have hne : (tag == key) = false := by simpa using Ne.symm hkey
        rw [List.lookup_cons, hne, List.filter_cons]
        split
        · rw [List.map_cons, List.lookup_cons, hne]
          exact ih
        · exact ih

/-- What the first table has and fails at, the other one fails at too. -/
def Shadows (own : List (String × Payload α)) (others : List (String × Payload β)) : Prop :=
  ∀ tag ps, (own.lookup tag).isSome = true → pick own tag ps = none → pick others tag ps = none

/-- **Where a table shadows another one, looking up is the same as trying both in turn.** -/
theorem Shadows.pick_takeIn (h : Shadows own others) (wrap : β → α) (tag : String) (ps : Parts) :
    pick (takeIn own wrap others) tag ps =
      (pick own tag ps <|> (pick others tag ps).map wrap) := by
  have hlookup : (takeIn own wrap others).lookup tag =
      (own.lookup tag).or ((others.lookup tag).map fun payload ps => (payload ps).map wrap) :=
    lookup_takeIn
  cases hown : own.lookup tag with
  | some payload =>
    have hpick : pick (takeIn own wrap others) tag ps = pick own tag ps := by
      rw [pick, hlookup, hown, pick, hown]
      rfl
    rw [hpick]
    cases hfirst : pick own tag ps with
    | some x => rfl
    | none =>
      rw [h tag ps (by rw [hown]; rfl) hfirst]
      rfl
  | none =>
    have hfirst : pick own tag ps = none := by
      rw [pick, hown]
      rfl
    rw [pick, hlookup, hown, hfirst, pick]
    cases others.lookup tag <;> rfl

theorem shadows_of_disjoint
    (h : ∀ tag, (own.lookup tag).isSome = true → others.lookup tag = none) :
    Shadows own others := by
  intro tag ps howned _
  rw [pick, h tag howned]
  rfl

theorem Shadows.takeIn_left {γ : Type} {more : List (String × Payload γ)}
    (hown : Shadows own more) (hothers : Shadows others more) (wrap : β → α) :
    Shadows (takeIn own wrap others) more := by
  intro tag ps htag hnone
  rw [pick, lookup_takeIn] at hnone
  rw [lookup_takeIn] at htag
  cases hlookup : own.lookup tag with
  | some payload =>
    refine hown tag ps (by rw [hlookup]; rfl) ?_
    rwa [hlookup, Option.some_or, ← hlookup] at hnone
  | none =>
    rw [hlookup, Option.none_or] at hnone htag
    cases hother : others.lookup tag with
    | none =>
      rw [hother] at htag
      cases htag
    | some payload =>
      refine hothers tag ps (by rw [hother]; rfl) ?_
      rw [hother] at hnone
      rw [pick, hother]
      exact Option.map_eq_none_iff.mp hnone

theorem Shadows.takeIn_right {γ : Type} {more : List (String × Payload γ)}
    (hothers : Shadows own others) (hmore : Shadows own more) (hpair : Shadows others more)
    (wrap : γ → β) :
    Shadows own (takeIn others wrap more) := by
  intro tag ps htag hnone
  rw [hpair.pick_takeIn, hothers tag ps htag hnone, hmore tag ps htag hnone]
  rfl

theorem nodup_takeIn (hown : (own.map Prod.fst).Nodup) (hothers : (others.map Prod.fst).Nodup) :
    ((takeIn own wrap others).map Prod.fst).Nodup := by
  rw [takeIn, List.map_append, List.map_map, List.nodup_append]
  refine ⟨hown, hothers.sublist (List.filter_sublist.map Prod.fst), ?_⟩
  rintro tag howned _ hother rfl
  obtain ⟨other, hmem, rfl⟩ := List.mem_map.mp hother
  obtain ⟨entry, hentry, heq⟩ := List.mem_map.mp howned
  have hfree := (List.mem_filter.mp hmem).2
  rw [Option.isNone_iff_eq_none, List.lookup_eq_none_iff] at hfree
  exact absurd heq.symm (by simpa using hfree entry hentry)

end Tables

/-! ### Kinds and their spellings -/

theorem NodeKind.text_injective : Function.Injective NodeKind.text := by
  intro kind kind' h
  rw [← Option.some_inj, ← kind.ofText?_text, h, kind'.ofText?_text]

theorem NodeKind.text_of_ofText? {tag : String} {kind : NodeKind} (h : ofText? tag = some kind) :
    kind.text = tag := by
  simpa using List.find?_some h

section Kinds

variable {kinds : List NodeKind} {table : NodeKind → Payload α}

theorem lookup_kinds (kind : NodeKind) : (kinds.map fun k => (k.text, table k)).lookup kind.text =
    if kind ∈ kinds then some (table kind) else none := by
  induction kinds with
  | nil => rfl
  | cons k kinds ih =>
    rw [List.map_cons, List.lookup_cons]
    by_cases hk : kind = k
    · subst hk
      simp
    · have hne : (kind.text == k.text) = false := by
        simpa using fun h => hk (NodeKind.text_injective h)
      rw [hne, ih]
      simp [hk]

/-- A text that spells no kind is no tag. -/
theorem lookup_kinds_of_ofText? {tag : String} (h : NodeKind.ofText? tag = none) :
    (kinds.map fun k => (k.text, table k)).lookup tag = none := by
  rw [List.lookup_eq_none_iff]
  rintro entry hentry
  obtain ⟨kind, -, rfl⟩ := List.mem_map.mp hentry
  rw [bne_iff_ne]
  rintro rfl
  rw [kind.ofText?_text] at h
  cases h

theorem nodup_kinds (h : kinds.Nodup) :
    ((kinds.map fun k => (k.text, table k)).map Prod.fst).Nodup := by
  rw [List.map_map]
  exact List.Pairwise.map _ (fun _ _ hne heq => hne (NodeKind.text_injective heq)) h

end Kinds

namespace Category

variable {c : Category} {kind : NodeKind} {ps : Parts}

theorem lookup_own :
    c.own.lookup kind.text = if kind ∈ c.kinds then some (payloadOf c.table kind) else none :=
  lookup_kinds kind

theorem pick_own : pick c.own kind.text ps = ps.fields kind.slots >>= c.table kind := by
  rw [pick, lookup_own]
  by_cases h : kind ∈ c.kinds
  · rw [if_pos h, some_bind, payloadOf]
  · rw [if_neg h]
    have hnone : c.table kind = fun _ => none := funext fun _ => table_eq_none h
    rw [hnone]
    cases ps.fields kind.slots <;> rfl

theorem nodup_own : (c.own.map Prod.fst).Nodup := by
  refine nodup_kinds ?_
  cases c with
  | opt c => exact List.nodup_nil
  | _ => decide

/-- **Each tag has one payload.** -/
theorem nodup_payloads : (c.payloads.map Prod.fst).Nodup := by
  cases c
  all_goals
    first
    | exact nodup_own
    | exact nodup_takeIn nodup_own nodup_own
    | exact nodup_takeIn nodup_own (nodup_takeIn nodup_own nodup_own)
    | exact nodup_takeIn (nodup_takeIn nodup_own nodup_own) nodup_own

/-- **An own kind is read by its own payload only.** -/
theorem lookup_payloads_own (hkind : kind ∈ c.kinds) :
    c.payloads.lookup kind.text = some (payloadOf c.table kind) := by
  cases c
  all_goals simp only [payloads, lookup_takeIn, lookup_own, hkind, if_true, Option.some_or]

/-- The tag of a payload spells a kind. -/
theorem exists_of_lookup_own {tag : String} (h : (c.own.lookup tag).isSome = true) :
    ∃ kind ∈ c.kinds, kind.text = tag := by
  cases hkind : NodeKind.ofText? tag with
  | none =>
    rw [own, lookup_kinds_of_ofText? hkind] at h
    cases h
  | some kind =>
    obtain rfl := NodeKind.text_of_ofText? hkind
    rw [lookup_own] at h
    split at h
    · exact ⟨kind, ‹_›, rfl⟩
    · cases h

/-- **Expressions ask no less of their members than the other categories do.** -/
theorem shadows_expr (c : Category) : Shadows c.own expr.own := by
  intro tag ps htag hnone
  obtain ⟨kind, hkind, rfl⟩ := exists_of_lookup_own htag
  rw [pick_own] at hnone ⊢
  cases hfields : ps.fields kind.slots with
  | none => rfl
  | some fs =>
    rw [hfields, some_bind] at hnone
    exact expr_table_eq_none kind hkind hnone

theorem shadows_disjoint {c d : Category} (h : ∀ kind ∈ c.kinds, kind ∉ d.kinds) :
    Shadows c.own d.own := by
  refine shadows_of_disjoint fun tag htag => ?_
  obtain ⟨kind, hkind, rfl⟩ := exists_of_lookup_own htag
  rw [lookup_own, if_neg (h kind hkind)]

/-- **A category makes of a value of a kind what the payload of its spelling does.** -/
theorem pick_payloads (hc : c.kinds ≠ []) :
    pick c.payloads kind.text ps = ps.fields kind.slots >>= c.body kind := by
  have hpattern : pick (takeIn pattern.own .exprPattern expr.own) kind.text ps =
      ps.fields kind.slots >>= patternBody kind := by
    rw [(shadows_expr pattern).pick_takeIn, pick_own, pick_own]
    cases ps.fields kind.slots <;> rfl
  have hbelow (hdisjoint : ∀ kind ∈ c.kinds, kind ∉ pattern.kinds) :
      Shadows c.own (takeIn pattern.own .exprPattern expr.own) :=
    (shadows_disjoint hdisjoint).takeIn_right (shadows_expr c) (shadows_expr pattern) _
  cases c with
  | pattern => exact hpattern
  | param =>
    rw [payloads, (hbelow (by decide)).pick_takeIn, pick_own, hpattern]
    cases ps.fields kind.slots <;> rfl
  | forTarget =>
    rw [payloads, (hbelow (by decide)).pick_takeIn, pick_own, hpattern]
    cases ps.fields kind.slots <;> rfl
  | objectMember =>
    have hdisjoint : Shadows objectMember.own property.own := shadows_disjoint (by decide)
    rw [payloads, hdisjoint.pick_takeIn, pick_own, pick_own]
    cases ps.fields kind.slots <;> rfl
  | stmt =>
    have hdisjoint : Shadows stmt.own decl.own := shadows_disjoint (by decide)
    have hexpr : Shadows (takeIn stmt.own .declStmt decl.own) expr.own :=
      (shadows_expr stmt).takeIn_left (shadows_expr decl) _
    rw [payloads, hexpr.pick_takeIn, hdisjoint.pick_takeIn, pick_own, pick_own, pick_own]
    cases ps.fields kind.slots with
    | none => rfl
    | some fs =>
      rw [some_bind, some_bind, some_bind, some_bind, body]
      cases stmt.table kind fs <;> rfl
  | opt c => exact absurd rfl hc
  | _ =>
    first
    | exact absurd rfl hc
    | exact pick_own
    | rw [payloads, (shadows_expr _).pick_takeIn, pick_own, pick_own]
      cases ps.fields kind.slots <;> rfl

end Category

/-! ### Values that spell their kind -/

/-- A natural number, which may stand for a kind. -/
def Json.isNatural : Json → Bool
  | .int n => decide (0 ≤ n)
  | _ => false

/-- The kind of a value is given by a number. -/
def Json.numbersKind : Json → Bool
  | .obj ms =>
    match find ["type"] ms with
    | .once value => value.isNatural
    | _ => false
  | .arr items => items.head?.any isNatural
  | _ => false

/-- The kind that a tag spells. -/
def spelledKind (tag : Json) : Option NodeKind := asString tag >>= NodeKind.ofText?

/-- The kind that a value spells, and the fields beside it. -/
def Json.spelled? (stored : Bool) (json : Json) : Option (NodeKind × Fields) := do
  let (tag, ps) ← json.tagged? stored
  let kind ← NodeKind.ofText? tag
  let fs ← ps.fields kind.slots
  return (kind, fs)

section Spelled

variable {stored : Bool} {ms : List (String × Json)} {items : List Json} {json tag : Json}

/-- A tag that is no number is spelled or no tag. -/
theorem kindOf_eq_spelledKind (h : tag.isNatural = false) (stored : Bool) (kinds : List NodeKind) :
    kindOf stored kinds tag = spelledKind tag := by
  cases tag with
  | int n =>
    have hneg : decide (0 ≤ n) = false := h
    simp [kindOf, hneg, spelledKind, asString]
  | _ => rfl

theorem isReadable_of_asString {text : String} (h : asString tag = some text) :
    tag.isReadable = true := by
  cases tag <;> first | rfl | cases h

/-- **What stands beside a tag is stored if the value can be.** -/
theorem tagged?_eq_ite :
    json.tagged? stored = if stored || json.isReadable then json.tagged? true else none := by
  cases stored with
  | true => rfl
  | false =>
    rw [Bool.false_or]
    cases json with
    | obj ms =>
      change (storedMembers false (.obj ms) >>= _) = if membersReadable ms then _ else none
      rw [storedMembers_obj, Bool.false_or]
      split <;> rfl
    | arr items =>
      cases items with
      | nil => rfl
      | cons tag items =>
        rw [Json.tagged?, Json.tagged?, Json.isReadable, itemsReadable]
        cases htag : asString tag with
        | none => split <;> rfl
        | some text =>
          rw [isReadable_of_asString htag, Bool.true_and, storedItems, Bool.false_or]
          split <;> rfl
    | _ => rfl

theorem spelled?_eq_ite :
    json.spelled? stored = if stored || json.isReadable then json.spelled? true else none := by
  rw [Json.spelled?, tagged?_eq_ite]
  split <;> rfl

/-- **A value whose kind is not numbered is read by the kind that it spells.** -/
theorem readTagged_spelled {kinds : List NodeKind} (table : NodeKind → Fields → Option α)
    (h : json.numbersKind = false) :
    readTagged stored (kindOf stored kinds) (fun kind ms => table kind (.of true ms)) json =
      json.spelled? stored >>= fun x => table x.1 x.2 := by
  unfold readTagged
  split
  · rename_i tag items
    have hkind : kindOf stored kinds tag = spelledKind tag := kindOf_eq_spelledKind h stored kinds
    rw [hkind, Json.spelled?, Json.tagged?, spelledKind]
    cases asString tag with
    | none => rfl
    | some text =>
      cases storedItems stored items with
      | none =>
        change (NodeKind.ofText? text >>= _) = none
        cases NodeKind.ofText? text <;> rfl
      | some items =>
        change (do
            let kind ← NodeKind.ofText? text
            let ms ← asRecord kind.slots (.arr items)
            table kind (.of true ms)) =
          (do
            let kind ← NodeKind.ofText? text
            let fs ← (Parts.array true (readings items)).fields kind.slots
            return (kind, fs)) >>= fun x => table x.1 x.2
        rw [bind_assoc]
        refine bind_congr fun kind => ?_
        rw [Parts.fields_readings]
        cases asRecord kind.slots (.arr items) <;> rfl
  · rename_i _ hother
    have hspelled : json.spelled? stored = (do
        let ms ← storedMembers stored json
        let text ← required ms "type" asString
        let kind ← NodeKind.ofText? text
        return (kind, .of true (untagged ms))) := by
      rw [Json.spelled?, Json.tagged?]
      · cases storedMembers stored json with
        | none => rfl
        | some ms =>
          rw [some_bind, some_bind]
          cases required ms "type" asString <;> rfl
      · exact hother
    rw [hspelled]
    cases json with
    | obj ms =>
      have hkind : required ms "type" (kindOf stored kinds) =
          required ms "type" asString >>= NodeKind.ofText? := by
        rw [Json.numbersKind] at h
        rw [required, required]
        cases hfind : find ["type"] ms with
        | once value =>
          rw [hfind] at h
          exact kindOf_eq_spelledKind h stored kinds
        | _ => rfl
      rw [storedMembers_obj]
      split
      · rw [some_bind, some_bind, hkind]
        cases required ms "type" asString with
        | none => rfl
        | some text =>
          rw [some_bind, some_bind]
          cases NodeKind.ofText? text <;> rfl
      · rfl
    | _ => rfl

section Parts

variable {ps qs : Parts}

theorem byKind_spelled (hparts : json.parts? stored = some ps) (h : json.numbersKind = false)
    (kinds : List NodeKind) (table : NodeKind → Fields → Option α) :
    ps.byKind kinds table = json.spelled? stored >>= fun x => table x.1 x.2 := by
  rw [Parts.byKind_parts? table hparts, readTagged_spelled table h]

/-- **However the parts of such a value are read, they spell their kind.** -/
theorem spells_parts (hparts : json.parts? stored = some ps) (h : json.numbersKind = false) :
    ps.Spells (json.spelled? stored) where
  byKind := byKind_spelled hparts h
  stored hqs _ kinds table := by
    rw [Parts.store_parts? hparts, Option.ite_none_right_eq_some] at hqs
    obtain ⟨hstorable, hqs⟩ := hqs
    rw [spelled?_eq_ite, if_pos hstorable]
    exact byKind_spelled hqs h kinds table
  unstored hnone := by
    rw [Parts.store_parts? hparts] at hnone
    rw [spelled?_eq_ite]
    by_cases hstorable : (stored || json.isReadable) = true
    · rw [if_pos hstorable] at hnone
      cases json with
      | obj _ | arr _ => cases hnone
      | _ => cases hparts
    · rw [if_neg hstorable]

end Parts

/-- A value without parts spells no kind. -/
theorem spelled?_eq_none (hparts : json.parts? stored = none) : json.spelled? stored = none := by
  cases json with
  | obj _ | arr _ => cases hparts
  | _ => rfl

/-- A table whose tags spell kinds is looked up by the spelled kind. -/
theorem dispatch_of_kinds {table : List (String × Payload α)}
    {body : NodeKind → Fields → Option α}
    (hpick : ∀ kind ps, pick table kind.text ps = ps.fields kind.slots >>= body kind)
    (hnone : ∀ tag, NodeKind.ofText? tag = none → table.lookup tag = none) :
    dispatch stored table json = json.spelled? stored >>= fun x => body x.1 x.2 := by
  rw [dispatch, Json.spelled?]
  cases json.tagged? stored with
  | none => rfl
  | some tagged =>
    obtain ⟨tag, ps⟩ := tagged
    rw [some_bind, some_bind]
    cases hkind : NodeKind.ofText? tag with
    | none =>
      rw [pick, hnone tag hkind]
      simp only [hkind]
      rfl
    | some kind =>
      obtain rfl := NodeKind.text_of_ofText? hkind
      rw [hpick]
      simp only [hkind]
      rw [some_bind]
      cases ps.fields kind.slots <;> rfl

/-- A value with a spelled tag has no number for its kind. -/
theorem numbersKind_of_tagged {text : String} {ps : Parts}
    (h : json.tagged? stored = some (text, ps)) : json.numbersKind = false := by
  have hnatural {tag : Json} (htext : (asString tag).isSome = true) : tag.isNatural = false := by
    cases tag <;> first | rfl | cases htext
  cases json with
  | obj ms =>
    obtain ⟨all, hall, htag⟩ := Option.bind_eq_some_iff.mp h
    obtain ⟨text', htext, -⟩ := Option.bind_eq_some_iff.mp htag
    rw [storedMembers_obj, Option.ite_none_right_eq_some] at hall
    obtain rfl := Option.some.inj hall.2
    rw [required] at htext
    rw [Json.numbersKind]
    cases hfind : find ["type"] ms with
    | once value =>
      rw [hfind] at htext
      have hspelled : asString value = some text' := htext
      exact hnatural (by rw [hspelled]; rfl)
    | _ => rfl
  | arr items =>
    cases items with
    | nil => rfl
    | cons tag items =>
      obtain ⟨text', htext, -⟩ := Option.bind_eq_some_iff.mp h
      exact hnatural (by rw [htext]; rfl)
  | _ => rfl

end Spelled

/-! ### Values -/

/-- The table of a category has the tags that spell kinds. -/
theorem Category.lookup_payloads_of_ofText? {c : Category} {tag : String}
    (h : NodeKind.ofText? tag = none) : c.payloads.lookup tag = none := by
  have hown (d : Category) : d.own.lookup tag = none := lookup_kinds_of_ofText? h
  cases c
  all_goals simp only [payloads, lookup_takeIn, hown, Option.none_or, Option.map_none]

/-- **A value whose kind is not numbered is read by its tag.** -/
theorem Category.readAt_eq_dispatch {c : Category} (hc : c.kinds ≠ []) (stored : Bool)
    {json : Json} (h : json.numbersKind = false) :
    json.readAt stored c = dispatch stored c.payloads json := by
  have htells : c.tellsKinds = true := by
    cases c with
    | opt c => exact absurd rfl hc
    | _ => first | rfl | exact absurd rfl hc
  have hdispatch : dispatch stored c.payloads json =
      json.spelled? stored >>= fun x => c.body x.1 x.2 :=
    dispatch_of_kinds (fun _ _ => pick_payloads hc) fun _ => lookup_payloads_of_ofText?
  rw [hdispatch]
  cases hparts : json.parts? stored with
  | some ps =>
    rw [Json.readAt_parts? hparts]
    exact (spells_parts hparts h).readParts htells
  | none =>
    rw [spelled?_eq_none hparts]
    cases json with
    | obj _ | arr _ => cases hparts
    | _ =>
      cases c with
      | opt c => exact absurd rfl hc
      | _ => rfl

/-- **What is malformed at an own kind is not read at another one.** -/
theorem Category.readAt_own {c : Category} {kind : NodeKind} (hkind : kind ∈ c.kinds)
    {stored : Bool} {json : Json} {ps : Parts} (htag : json.tagged? stored = some (kind.text, ps))
    (hmalformed : ps.fields kind.slots >>= c.table kind = none) :
    json.readAt stored c = none := by
  rw [readAt_eq_dispatch (List.ne_nil_of_mem hkind) stored (numbersKind_of_tagged htag), dispatch,
    htag, some_bind, pick, lookup_payloads_own hkind]
  exact hmalformed

/-! ### Module items -/

namespace ModuleDecl

variable {kind : NodeKind} {ps : Parts} {json : Json}

theorem ofKind?_eq_none {fs : Fields} (h : kind ∉ ModuleDecl.kinds) :
    ModuleDecl.ofKind? kind fs = none := by
  unfold ModuleDecl.ofKind?
  split
  all_goals first
    | rfl
    | exact absurd (by decide) h

theorem lookup_payloads : ModuleDecl.payloads.lookup kind.text =
    if kind ∈ ModuleDecl.kinds then some (payloadOf ModuleDecl.ofKind? kind) else none :=
  lookup_kinds kind

theorem pick_payloads : pick ModuleDecl.payloads kind.text ps =
    ps.fields kind.slots >>= ModuleDecl.ofKind? kind := by
  rw [pick, lookup_payloads]
  by_cases h : kind ∈ ModuleDecl.kinds
  · rw [if_pos h, some_bind, payloadOf]
  · rw [if_neg h]
    have hnone : ModuleDecl.ofKind? kind = fun _ => none := funext fun _ => ofKind?_eq_none h
    rw [hnone]
    cases ps.fields kind.slots <;> rfl

theorem ofJson?_eq_dispatch (stored : Bool) (h : json.numbersKind = false) :
    ModuleDecl.ofJson? stored json = dispatch stored ModuleDecl.payloads json := by
  have hdispatch : dispatch stored ModuleDecl.payloads json =
      json.spelled? stored >>= fun x => ModuleDecl.ofKind? x.1 x.2 :=
    dispatch_of_kinds (fun _ _ => pick_payloads) fun _ => lookup_kinds_of_ofText?
  rw [hdispatch, ModuleDecl.ofJson?]
  cases hparts : json.parts? stored with
  | some ps => exact byKind_spelled hparts h _ _
  | none =>
    rw [spelled?_eq_none hparts]
    rfl

end ModuleDecl

namespace ModuleItem

theorem shadows_nil {others : List (String × Payload β)} :
    Shadows ([] : List (String × Payload α)) others :=
  shadows_of_disjoint fun _ howned => by cases howned

/-- Declarations of a module have no tags in common with statements. -/
theorem shadows_stmt :
    Shadows (takeIn ([] : List (String × Payload ModuleItem)) .decl ModuleDecl.payloads)
      Category.stmt.payloads := by
  refine shadows_nil.takeIn_left (shadows_of_disjoint fun tag htag => ?_) _
  cases hkind : NodeKind.ofText? tag with
  | none => exact Category.lookup_payloads_of_ofText? hkind
  | some kind =>
    obtain rfl := NodeKind.text_of_ofText? hkind
    rw [ModuleDecl.lookup_payloads] at htag
    split at htag
    · rename_i hmem
      have hdisjoint : ∀ k ∈ ModuleDecl.kinds, k ∉ Category.stmt.allKinds := by decide
      have hnot := hdisjoint kind hmem
      simp only [Category.allKinds, List.mem_append, not_or] at hnot
      simp [Category.payloads, lookup_takeIn, Category.lookup_own, hnot]
    · cases htag

theorem pick_payloads (tag : String) (ps : Parts) : pick ModuleItem.payloads tag ps =
    ((pick ModuleDecl.payloads tag ps).map .decl <|>
      (pick Category.stmt.payloads tag ps).map .stmt) := by
  rw [ModuleItem.payloads, shadows_stmt.pick_takeIn, shadows_nil.pick_takeIn]
  rfl

theorem ofJson?_eq_dispatch {json : Json} (h : json.numbersKind = false) :
    ModuleItem.ofJson? json = dispatch false ModuleItem.payloads json := by
  have hstored : json.tagged? false = if false || json.isReadable then json.tagged? true else none :=
    tagged?_eq_ite
  rw [ModuleItem.ofJson?, ModuleDecl.ofJson?_eq_dispatch true h,
    Category.readAt_eq_dispatch (by decide) true h, dispatch, dispatch, dispatch, hstored,
    Bool.false_or]
  split
  · cases json.tagged? true with
    | none => rfl
    | some tagged => exact (pick_payloads tagged.1 tagged.2).symm
  · rfl

/-- **What is malformed as a module declaration is not read as a statement.** -/
theorem ofJson?_own {kind : NodeKind} (hkind : kind ∈ ModuleDecl.kinds) {json : Json} {ps : Parts}
    (htag : json.tagged? false = some (kind.text, ps))
    (hmalformed : ps.fields kind.slots >>= ModuleDecl.ofKind? kind = none) :
    ModuleItem.ofJson? json = none := by
  have hdecl : pick ModuleDecl.payloads kind.text ps = none := by
    rw [ModuleDecl.pick_payloads, hmalformed]
  have howned : ((takeIn ([] : List (String × Payload ModuleItem)) .decl
      ModuleDecl.payloads).lookup kind.text).isSome = true := by
    rw [lookup_takeIn, ModuleDecl.lookup_payloads, if_pos hkind]
    rfl
  have hstmt : pick Category.stmt.payloads kind.text ps = none := by
    refine shadows_stmt _ _ howned ?_
    rw [shadows_nil.pick_takeIn, hdecl]
    rfl
  rw [ofJson?_eq_dispatch (numbersKind_of_tagged htag), dispatch, htag, some_bind, pick_payloads,
    hdecl, hstmt]
  rfl

theorem nodup_payloads : (ModuleItem.payloads.map Prod.fst).Nodup := by
  refine nodup_takeIn (nodup_takeIn List.nodup_nil (nodup_kinds ?_)) Category.nodup_payloads
  decide

end ModuleItem

/-- **Where kinds are spelled, reading is plain dispatch by the tag.** For every category that
tells kinds apart, and for module items, each tag has one payload, and a value is read as that
payload reads what stands beside the tag, or not at all. What one of the own kinds is malformed
for is not read at another kind that the category takes in. Only the kind of the value itself
must not be given by a number. -/
theorem tagged_reading_is_dispatch :
    (∀ c : Category, c.kinds ≠ [] →
      (c.payloads.map Prod.fst).Nodup ∧
      (∀ (stored : Bool) (json : Json), json.numbersKind = false →
        json.readAt stored c = dispatch stored c.payloads json) ∧
      ∀ (stored : Bool) (json : Json) (ps : Parts), ∀ kind ∈ c.kinds,
        json.tagged? stored = some (kind.text, ps) →
        ps.fields kind.slots >>= c.table kind = none →
        json.readAt stored c = none) ∧
    (ModuleItem.payloads.map Prod.fst).Nodup ∧
    (∀ json : Json, json.numbersKind = false →
      ModuleItem.ofJson? json = dispatch false ModuleItem.payloads json) ∧
    ∀ (json : Json) (ps : Parts), ∀ kind ∈ ModuleDecl.kinds,
      json.tagged? false = some (kind.text, ps) →
      ps.fields kind.slots >>= ModuleDecl.ofKind? kind = none →
      ModuleItem.ofJson? json = none := by
  refine ⟨fun c hc => ⟨Category.nodup_payloads, ?_, ?_⟩, ModuleItem.nodup_payloads, ?_, ?_⟩
  · exact fun stored _ hspelled => Category.readAt_eq_dispatch hc stored hspelled
  · exact fun _ _ _ _ hkind htag hmalformed => Category.readAt_own hkind htag hmalformed
  · exact fun _ hspelled => ModuleItem.ofJson?_eq_dispatch hspelled
  · exact fun _ _ _ hkind htag hmalformed => ModuleItem.ofJson?_own hkind htag hmalformed

/-- A name whose tag comes last. -/
def taggedName : Json := .obj [("value", .str "a"), ("type", .str "Identifier")]

/-- An expression that is given as an array, without a span. -/
def taggedThis : Json := .arr [.str "ThisExpression"]

/-- A `return` of something that is no expression. -/
def malformedReturn : Json := .obj [("type", .str "ReturnStatement"), ("argument", .int 1)]

/-- An import without a source. -/
def malformedImport : Json := .arr [.str "ImportDeclaration"]

theorem tagged_values_dispatched :
    taggedName.readAt false .stmt = some (.exprStmt (.ident (Ident.ofName "a"))) ∧
      taggedThis.readAt false .stmt = some (.exprStmt (.this .dummy)) ∧
      malformedReturn.readAt false .stmt = none ∧
      ModuleItem.ofJson? taggedName = some (.stmt (.exprStmt (.ident (Ident.ofName "a")))) ∧
      ModuleItem.ofJson? malformedImport = none := by
  obtain ⟨hcategory, -, hitem, hmalformed⟩ := tagged_reading_is_dispatch
  obtain ⟨-, hstmt, hreturn⟩ := hcategory .stmt (by decide)
  refine ⟨?_, ?_, ?_, ?_, ?_⟩
  · rw [hstmt false taggedName rfl]
    rfl
  · rw [hstmt false taggedThis rfl]
    rfl
  · exact hreturn false malformedReturn _ .returnStatement (by decide) rfl rfl
  · rw [hitem taggedName rfl]
    rfl
  · exact hmalformed malformedImport _ .importDeclaration (by decide) rfl rfl

/-- **A kind that is given by a number is looked up more than once.** No key of an object has
the number 13, but expressions do, so a key that is given that number is read all the same. -/
theorem numbered_reading_is_not_dispatch :
    ¬ ∀ c : Category, c.kinds ≠ [] → ∀ (stored : Bool) (json : Json),
      json.readAt stored c = dispatch stored c.payloads json := by
  intro h
  have hread : TreeType.numberedJson.readAt false .propertyName = some TreeType.numberedKey := rfl
  have hdispatch :
      dispatch false Category.propertyName.payloads TreeType.numberedJson = none := rfl
  rw [h .propertyName (by decide) false, hdispatch] at hread
  cases hread

end EcmaPrinter
