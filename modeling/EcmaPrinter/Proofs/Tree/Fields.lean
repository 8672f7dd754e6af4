/-
# Reading written members

Objects that are written spell their kind. Of such an object a category reads what
its own table or that of a category it takes in makes of the kind, whether the
object is part of a stored one or not. An array that spells its kind is read like the
object that its items are the members of.

Key definitions: `Fields.of`, `Category.body`, `Parts.Spells`.
Key theorems: `Fields.node_of`, `Fields.byKind_of`, `Parts.fields_readings`,
`Parts.byKind_parts?`, `Parts.Spells.readParts`, `readParts_tagged`.
-/
import EcmaPrinter.Proofs.Json.Places
import EcmaPrinter.Proofs.Tree.Leaf

namespace EcmaPrinter

open Json

/-- The members of an object with their readings. -/
def Fields.of (stored : Bool) (ms : List (String × Json)) : Fields := ⟨stored, readMembers ms⟩

/-- A value with its readings. -/
def Reading.of (json : Json) : Reading := ⟨json, json.readAt, json.readList⟩

theorem readMembers_eq (ms : List (String × Json)) :
    readMembers ms = ms.map fun m => (m.1, Reading.of m.2) := by
  induction ms with
  | nil => rfl
  | cons m ms ih =>
    obtain ⟨key, value⟩ := m
    rw [readMembers, ih]
    rfl

theorem readings_eq (items : List Json) : readings items = items.map Reading.of := by
  induction items with
  | nil => rfl
  | cons item items ih =>
    rw [readings, ih]
    rfl

theorem filter_readMembers (test : String → Bool) (ms : List (String × Json)) :
    (readMembers ms).filter (fun f => test f.1) = readMembers (ms.filter fun m => test m.1) := by
  rw [readMembers_eq, readMembers_eq, List.filter_map]
  rfl

/-- What is found in an object is the reading of what is found in its members. -/
theorem find_readMembers (keys : List String) (ms : List (String × Json)) :
    find keys (readMembers ms) =
      match find keys ms with
      | .absent => .absent
      | .once value => .once (Reading.of value)
      | .repeated => .repeated := by
  have hfilter := filter_readMembers (fun key => keys.contains key) ms
  rw [find, hfilter, find]
  generalize ms.filter (fun m => keys.contains m.1) = found
  rcases found with _ | ⟨m, _ | ⟨m', rest⟩⟩ <;> rfl

namespace Fields

variable {stored : Bool} {ms : List (String × Json)} {key : String} {c : Category}

@[simp] theorem stored_of : (of stored ms).stored = stored := by
  rw [of]

theorem members_of : (of stored ms).members = readMembers ms := by
  rw [of]

@[simp] theorem plain_of : (of stored ms).plain = ms := by
  rw [of, plain, readMembers_eq, List.map_map]
  exact List.map_id _

@[simp] theorem node_of :
    (of stored ms).node key c = required ms key fun json => json.readAt stored c := by
  rw [of, node, required, find_readMembers, required]
  cases find [key] ms <;> rfl

@[simp] theorem place_of :
    (of stored ms).place key c =
      defaulted ms key .absent fun json => json.readAt stored (.opt c) := by
  rw [of, place, defaulted, defaultedAny, find_readMembers, defaulted, defaultedAny]
  cases find [key] ms <;> rfl

@[simp] theorem nodes_of :
    (of stored ms).nodes key c = defaulted ms key .nil fun json => json.readList stored c := by
  rw [of, nodes, defaulted, defaultedAny, find_readMembers, defaulted, defaultedAny]
  cases find [key] ms <;> rfl

theorem without_of {keys : List String} :
    (of stored ms).without keys = of stored (ms.filter fun m => !keys.contains m.1) := by
  rw [of, without, of, filter_readMembers fun key => !keys.contains key]

theorem store_of (h : membersReadable ms = true) : (of stored ms).store = some (of true ms) := by
  have hall : (readMembers ms).all (fun f => f.2.json.isReadable) = true := by
    rw [readMembers_eq, List.all_map, List.all_eq_true]
    rw [membersReadable_eq, everyMember_iff] at h
    intro m hm
    rw [Function.comp_apply, Reading.of, isReadable_eq]
    exact h m hm
  simp only [of, store, hall, Bool.or_true, if_true]

/-- Without the members in front of them, the others are what is stored. -/
theorem store_without_of {keys : List String} (front : List (String × Json))
    (hfront : ∀ m ∈ front, m.1 ∈ keys) (hkeys : ∀ key ∈ keys, hasKey ms key = false)
    (hsound : membersSound ms = true) :
    ((of stored (front ++ ms)).without keys).store = some (of true ms) := by
  rw [without_of, filter_without hfront hkeys, store_of (membersReadable_of_membersSound hsound)]

/-- An object that spells its kind is read by that kind. -/
theorem byKind_of {α : Type} {kinds : List NodeKind} {table : NodeKind → Fields → Option α}
    {kind : NodeKind} (htype : hasKey ms "type" = false) (hsound : membersSound ms = true) :
    (of stored (("type", .str kind.text) :: ms)).byKind kinds table = table kind (of true ms) := by
  have hkind : required (of stored (("type", .str kind.text) :: ms)).members "type"
      (fun r => kindOf stored kinds r.json) = some kind := by
    rw [of, required, find_readMembers, find_cons_self htype]
    exact kindOf_text stored kinds kind
  rw [byKind, stored_of, hkind, some_bind, ← List.singleton_append,
    store_without_of _ (by simp) (List.forall_mem_singleton.mpr htype) hsound, some_bind]

end Fields

/-! ### Arrays -/

namespace Parts

variable {stored : Bool} {slots : Option (List Slot)} {items : List Json}

@[simp] theorem fields_object {fs : Fields} : (object fs).fields slots = some fs := rfl

/-- The readings of placed items are those of the members. -/
theorem fields_readings : (array stored (readings items)).fields slots =
    (asRecord slots (.arr items)).map (Fields.of stored) := by
  cases slots with
  | none => rfl
  | some slots =>
    change (place slots (readings items)).bind _ = (place slots items).map _
    rw [readings_eq, place_map]
    cases place slots items with
    | none => rfl
    | some ms =>
      have hms := (readMembers_eq ms).symm
      exact congrArg (fun members => some (Fields.mk stored members)) hms

theorem store_readings : (array stored (readings items)).store =
    (storedItems stored items).map fun items => array true (readings items) := by
  have hall : (readings items).all (fun r => r.json.isReadable) = itemsReadable items := by
    rw [readings_eq, List.all_map]
    induction items with
    | nil => rfl
    | cons item items ih =>
      rw [List.all_cons, ih, itemsReadable]
      rfl
  rw [store, hall, storedItems]
  split <;> rfl

/-- Whether the parts are those of a stored value. -/
def isStored : Parts → Bool
  | .object fs => fs.stored
  | .array stored _ => stored

/-- The tag of the parts: the member `type` of an object, or the first item of an array. -/
def tag? : Parts → Option Json
  | .object fs => required fs.members "type" fun r => some r.json
  | .array _ items => items.head?.map Reading.json

/-- What stands beside the tag, as members of a node of a kind. -/
def beside (kind : NodeKind) : Parts → Option Fields
  | .object fs => (fs.without ["type"]).store
  | .array stored items => (array stored items.tail).store >>= fields kind.slots

/-- **Parts are read by their kind** from what stands beside their tag. -/
theorem byKind_eq {α : Type} (ps : Parts) (kinds : List NodeKind)
    (table : NodeKind → Fields → Option α) : ps.byKind kinds table = (do
      let tag ← ps.tag?
      let kind ← kindOf ps.isStored kinds tag
      let fs ← ps.beside kind
      table kind fs) := by
  cases ps with
  | object fs =>
    rw [byKind, Fields.byKind, tag?, required, required]
    cases find ["type"] fs.members <;> rfl
  | array stored items =>
    cases items with
    | nil => rfl
    | cons tag items =>
      rw [byKind, tag?, List.head?_cons, Option.map_some, some_bind, isStored]
      refine bind_congr fun kind => ?_
      rw [beside, List.tail_cons]
      cases (array stored items).store <;> rfl

end Parts

/-! ### Values that are read by their kind -/

section ByKind

variable {α : Type} {stored : Bool} {kinds : List NodeKind} {json : Json}
  {ms : List (String × Json)} {items : List Json} {ps : Parts}

theorem membersReadable_iff :
    membersReadable ms = true ↔ ∀ m ∈ ms, m.2.isReadable = true := by
  rw [membersReadable_eq, everyMember_iff]
  simp only [isReadable_eq]

theorem storedMembers_obj : storedMembers stored (.obj ms) =
    if stored || membersReadable ms then some ms else none := rfl

/-- A member that is found once is the only one under its key. -/
theorem eq_of_find_once {keys : List String} {value : Json} (h : find keys ms = .once value)
    {m : String × Json} (hm : m ∈ ms) (hkey : keys.contains m.1 = true) : m.2 = value := by
  have hmem : m ∈ ms.filter fun m => keys.contains m.1 := List.mem_filter.mpr ⟨hm, hkey⟩
  unfold find at h
  split at h
  · cases h
  · rename_i found heq
    rw [heq, List.mem_singleton] at hmem
    rw [hmem]
    exact Found.once.inj h
  · cases h

/-- The members besides a kind are readable if all are. -/
theorem membersReadable_untagged {kind : NodeKind}
    (h : required ms "type" (kindOf stored kinds) = some kind) :
    membersReadable (untagged ms) = membersReadable ms := by
  have htype : ∀ m ∈ ms, m.1 = "type" → m.2.isReadable = true := by
    intro m hm hkey
    unfold required at h
    split at h
    · rename_i value hfind
      rw [eq_of_find_once hfind hm (by simp [hkey])]
      cases value <;> first | rfl | cases h
    · cases h
  rw [Bool.eq_iff_iff, membersReadable_iff, membersReadable_iff]
  constructor
  · intro hrest m hm
    by_cases hkey : m.1 = "type"
    · exact htype m hm hkey
    · exact hrest m (List.mem_filter.mpr ⟨hm, by simpa using hkey⟩)
  · exact fun hall m hm => hall m ((List.mem_filter.mp hm).1)

theorem Fields.store_eq : (Fields.of stored ms).store =
    (storedMembers stored (.obj ms)).map (Fields.of true) := by
  have hall : (readMembers ms).all (fun f => f.2.json.isReadable) = membersReadable ms := by
    rw [Bool.eq_iff_iff, readMembers_eq, List.all_map, List.all_eq_true, membersReadable_iff]
    rfl
  rw [Fields.of, Fields.store, hall, storedMembers_obj]
  split <;> rfl

theorem Fields.untagged_of :
    (Fields.of stored ms).without ["type"] = .of stored (untagged ms) := by
  rw [without_of]
  congr 1
  refine List.filter_congr fun m _ => ?_
  rw [List.contains_cons, List.contains_nil, Bool.or_false, bne]

/-- Whether an object is stored before its kind is told or behind it makes no difference. -/
theorem Fields.byKind_eq (table : NodeKind → Fields → Option α) :
    (Fields.of stored ms).byKind kinds table =
      readTagged stored (kindOf stored kinds) (fun kind ms => table kind (.of true ms))
        (.obj ms) := by
  have hkind : required (readMembers ms) "type" (fun r => kindOf stored kinds r.json) =
      required ms "type" (kindOf stored kinds) := by
    rw [required, find_readMembers, required]
    cases find ["type"] ms <;> rfl
  rw [byKind, members_of, stored_of, hkind, untagged_of, store_eq, readTagged_members,
    storedMembers_obj, storedMembers_obj]
  cases htype : required ms "type" (kindOf stored kinds) with
  | none =>
    change (none : Option α) = _
    split
    · rw [some_bind, htype]
      rfl
    · rfl
  | some kind =>
    rw [membersReadable_untagged htype, some_bind]
    split
    · rw [some_bind, htype]
      rfl
    · rfl

theorem Parts.byKind_readings (table : NodeKind → Fields → Option α) :
    (Parts.array stored (readings items)).byKind kinds table =
      readTagged stored (kindOf stored kinds) (fun kind ms => table kind (.of true ms))
        (.arr items) := by
  cases items with
  | nil => rfl
  | cons tag items =>
    rw [readings, byKind, store_readings, readTagged]
    refine bind_congr fun kind => ?_
    cases storedItems stored items with
    | none => rfl
    | some items =>
      change (Parts.array true (readings items)).fields kind.slots >>= _ = _
      rw [fields_readings]
      exact Option.bind_map ..

/-- **The parts of a value are read by the kind as the value itself is.** -/
theorem Parts.byKind_parts? (table : NodeKind → Fields → Option α)
    (h : json.parts? stored = some ps) :
    ps.byKind kinds table =
      readTagged stored (kindOf stored kinds) (fun kind ms => table kind (.of true ms)) json := by
  cases json with
  | obj ms =>
    cases h
    exact Fields.byKind_eq table
  | arr items =>
    cases h
    exact byKind_readings table
  | _ => cases h

/-- The fields of the parts of a value are those of the value. -/
theorem Parts.fields_parts? (slots : Option (List Slot)) (h : json.parts? stored = some ps) :
    ps.fields slots = (asRecord slots json).map (Fields.of stored) := by
  cases json with
  | obj ms =>
    cases h
    rfl
  | arr items =>
    cases h
    exact fields_readings
  | _ => cases h

/-- The parts of a stored value. -/
theorem Parts.store_parts? (h : json.parts? stored = some ps) :
    ps.store = if stored || json.isReadable then json.parts? true else none := by
  cases json with
  | obj ms =>
    cases h
    have hstore : (Fields.of stored ms).store = _ := Fields.store_eq
    rw [storedMembers_obj] at hstore
    rw [store, ← Fields.of, hstore, Json.isReadable]
    split <;> rfl
  | arr items =>
    cases h
    rw [store_readings, storedItems, Json.isReadable]
    split <;> rfl
  | _ => cases h

/-- A value is read from its parts. -/
theorem Json.readAt_parts? (h : json.parts? stored = some ps) (c : Category) :
    json.readAt stored c = readParts ps c := by
  cases json with
  | obj ms =>
    cases h
    rw [readAt]
  | arr items =>
    cases h
    rw [readAt]
  | _ => cases h

end ByKind

/-! ### Categories that tell kinds apart -/

/-- What a category's own table makes of an object of a kind. -/
def Category.table : (c : Category) → NodeKind → Fields → Option (Node c)
  | .expr => Read.expr
  | .argument => Read.argument
  | .pattern => Read.pattern
  | .patternMember => Read.patternMember
  | .property => Read.property
  | .propertyName => Read.propertyName
  | .objectMember => Read.objectMember
  | .arrowBody => Read.arrowBody
  | .classMember => Read.classMember
  | .param => Read.param
  | .stmt => Read.stmt
  | .forInit => Read.forInit
  | .forTarget => Read.forTarget
  | .decl => Read.decl
  | .jsxObject => Read.jsxObject
  | .jsxName => Read.jsxName
  | .jsxExpr => Read.jsxExpr
  | .jsxAttrValue => Read.jsxAttrValue
  | .jsxAttrOrSpread => Read.jsxAttrOrSpread
  | .jsxChild => Read.jsxChild
  | _ => fun _ _ => none

/-- A table has no entries besides the kinds that the category tells apart. -/
theorem Category.table_eq_none {c : Category} {kind : NodeKind} {fs : Fields}
    (h : kind ∉ c.kinds) : c.table kind fs = none := by
  cases c
  all_goals
    simp only [table, Read.expr, Read.argument, Read.pattern, Read.patternMember, Read.property,
      Read.propertyName, Read.objectMember, Read.arrowBody, Read.classMember, Read.param, Read.stmt,
      Read.forInit, Read.forTarget, Read.decl, Read.jsxObject, Read.jsxName, Read.jsxExpr,
      Read.jsxAttrValue, Read.jsxAttrOrSpread, Read.jsxChild]
  all_goals
    split
    all_goals first
      | rfl
      | exact absurd (by decide) h

/-- What patterns make of an object of a kind. -/
def patternBody (kind : NodeKind) (fs : Fields) : Option (Node .pattern) :=
  Category.pattern.table kind fs <|> (Category.expr.table kind fs).map .exprPattern

/-- What a category makes of an object of a kind: its own table comes first, then
those of the categories it takes in. -/
def Category.body : (c : Category) → NodeKind → Fields → Option (Node c)
  | .argument, kind, fs => argument.table kind fs <|> (expr.table kind fs).map .plainArgument
  | .pattern, kind, fs => patternBody kind fs
  | .propertyName, kind, fs => propertyName.table kind fs <|> (expr.table kind fs).map .computedKey
  | .objectMember, kind, fs =>
    objectMember.table kind fs <|> (property.table kind fs).map .propertyMember
  | .arrowBody, kind, fs => arrowBody.table kind fs <|> (expr.table kind fs).map .exprBody
  | .param, kind, fs => param.table kind fs <|> (patternBody kind fs).map .patternParam
  | .stmt, kind, fs =>
    stmt.table kind fs <|> (decl.table kind fs).map .declStmt <|> (expr.table kind fs).map .exprStmt
  | .forInit, kind, fs => forInit.table kind fs <|> (expr.table kind fs).map .exprInit
  | .forTarget, kind, fs => forTarget.table kind fs <|> (patternBody kind fs).map .patternTarget
  | .jsxExpr, kind, fs => jsxExpr.table kind fs <|> (expr.table kind fs).map .jsxSomeExpr
  | .jsxAttrValue, kind, fs => jsxAttrValue.table kind fs <|> (expr.table kind fs).map .jsxExprValue
  | .opt c, kind, fs => (body c kind fs).map .present
  | c, kind, fs => c.table kind fs

/-- The kinds of the objects that a category reads. -/
def Category.allKinds : Category → List NodeKind
  | .argument => argument.kinds ++ expr.kinds
  | .pattern => pattern.kinds ++ expr.kinds
  | .propertyName => propertyName.kinds ++ expr.kinds
  | .objectMember => objectMember.kinds ++ property.kinds
  | .arrowBody => arrowBody.kinds ++ expr.kinds
  | .param => param.kinds ++ pattern.kinds ++ expr.kinds
  | .stmt => stmt.kinds ++ decl.kinds ++ expr.kinds
  | .forInit => forInit.kinds ++ expr.kinds
  | .forTarget => forTarget.kinds ++ pattern.kinds ++ expr.kinds
  | .jsxExpr => jsxExpr.kinds ++ expr.kinds
  | .jsxAttrValue => jsxAttrValue.kinds ++ expr.kinds
  | .opt c => c.allKinds
  | c => c.kinds

theorem Category.mem_allKinds_of_body {c : Category} {kind : NodeKind} {fs : Fields} {n : Node c}
    (h : c.body kind fs = some n) : kind ∈ c.allKinds := by
  induction c with
  | opt c ih =>
    obtain ⟨m, hm, -⟩ := Option.map_eq_some_iff.mp h
    exact ih hm
  | _ =>
    refine Classical.byContradiction fun hkind => ?_
    simp only [allKinds, List.mem_append, not_or] at hkind
    simp [body, patternBody, table_eq_none, hkind] at h

/-- A category whose nodes spell their kind. -/
def Category.tellsKinds : Category → Bool
  | .opt c => c.tellsKinds
  | c => !c.kinds.isEmpty

/-- A node whose place says what it is is read from its fields. -/
theorem readParts_plain {c : Category} (hc : c.kinds = []) (hopt : ∀ d, c ≠ .opt d) {ps : Parts} :
    readParts ps c = ps.fields c.slots >>= fun fs => readParts (.object fs) c := by
  cases c
  all_goals
    first
    | exact absurd hc (by decide)
    | exact absurd rfl (hopt _)
    | rfl

/-- However the parts are read by their kind, it is the same kind with the same fields,
or none. -/
structure Parts.Spells (ps : Parts) (inner : Option (NodeKind × Fields)) : Prop where
  byKind {α : Type} (kinds : List NodeKind) (table : NodeKind → Fields → Option α) :
    ps.byKind kinds table = inner >>= fun x => table x.1 x.2
  stored {qs : Parts} (h : ps.store = some qs) {α : Type} (kinds : List NodeKind)
    (table : NodeKind → Fields → Option α) : qs.byKind kinds table = inner >>= fun x => table x.1 x.2
  unstored (h : ps.store = none) : inner = none

/-- **Parts that spell their kind are read as what the category makes of that kind.** -/
theorem Parts.Spells.readParts {ps : Parts} {inner : Option (NodeKind × Fields)}
    (h : ps.Spells inner) {c : Category} (hc : c.tellsKinds = true) :
    readParts ps c = inner >>= fun x => c.body x.1 x.2 := by
  induction c with
  | opt c ih =>
    rw [EcmaPrinter.readParts, ih hc]
    cases inner <;> rfl
  | _ =>
    first
    | exact absurd hc Bool.false_ne_true
    | exact h.byKind _ _
    | cases hstore : ps.store with
      | none =>
        rw [h.unstored hstore]
        simp only [EcmaPrinter.readParts, hstore]
        rfl
      | some qs =>
        simp only [EcmaPrinter.readParts, hstore, some_bind, Read.anyExpr, Read.anyPattern,
          h.stored hstore]
        cases inner <;> rfl

/-- **An object that spells its kind is read as what the category makes of that
kind.** -/
theorem readParts_tagged {stored : Bool} {kind : NodeKind} {ms : List (String × Json)}
    {c : Category} (hc : c.tellsKinds = true) (htype : hasKey ms "type" = false)
    (hsound : membersSound ms = true) :
    readParts (.object (.of stored (("type", .str kind.text) :: ms))) c =
      c.body kind (.of true ms) := by
  have hread : membersReadable (("type", .str kind.text) :: ms) = true :=
    membersReadable_of_membersSound hsound
  have hstore : Parts.store (.object (.of stored (("type", .str kind.text) :: ms))) =
      some (.object (.of true (("type", .str kind.text) :: ms))) := by
    rw [Parts.store, Fields.store_of hread, Option.map_some]
  have hspells : Parts.Spells (.object (.of stored (("type", .str kind.text) :: ms)))
      (some (kind, .of true ms)) :=
    { byKind := fun _ _ => Fields.byKind_of htype hsound
      stored := fun h _ _ _ => by
        rw [hstore] at h
        cases h
        exact Fields.byKind_of htype hsound
      unstored := fun h => by
        rw [hstore] at h
        cases h }
  exact hspells.readParts hc

end EcmaPrinter
