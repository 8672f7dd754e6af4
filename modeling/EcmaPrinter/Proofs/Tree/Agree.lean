/-
# Objects that agree on what is read of them

Two objects agree on a schema if, under each of its keys, they have members that are read alike,
and if what they keep is the same. What a table of nodes makes of an object depends on the schema
of the object alone: two objects that agree on it are read alike (`Category.table_congr`).

Which readers respect which shapes is told once, by the instances of `ReadsAs`. The fields of a
node are then looked up in its schema, one after the other.

Objects agree that have the same members in another order, or one member more that is not in the
schema, or one with another value that is read alike.

Key definitions: `Shape.SameReading`, `ReadsAs`, `Agree`.
Key theorems: `Agree.required`, `Agree.defaulted`, `Category.table_congr`, `Agree.of_perm`,
`Agree.of_extra`, `Agree.of_member`.
-/
import EcmaPrinter.Proofs.Json.Orders
import EcmaPrinter.Proofs.Tree.Schema

namespace EcmaPrinter

open Json

/-! ### Readers -/

/-- Two values are read alike. -/
def Shape.SameReading (s : Shape) (a b : Json) : Prop :=
  ∀ stored, s.read stored a = s.read stored b

/-- A reader sees no more of a value than a shape tells. -/
class ReadsAs {β : Type} (read : Json → Option β) (s : outParam Shape) : Prop where
  respects : ∀ {a b : Json}, s.SameReading a b → read a = read b

section Readers

variable {β : Type} {read : Json → Option β} {s : Shape}

/-- A reader of scalars fails at arrays and objects. -/
theorem readsAs_scalar (harr : ∀ items, read (.arr items) = none)
    (hobj : ∀ ms, read (.obj ms) = none) : ReadsAs read .scalar where
  respects {a b} hsame := by
    have hatom (json : Json) : read json = read json.atom := by
      cases json with
      | arr items => rw [harr, Json.atom, harr]
      | obj ms => rw [hobj, Json.atom, hobj]
      | _ => rfl
    rw [hatom a, hatom b, Option.some.inj (hsame true)]

/-- Of an object that is read as a token only its sole member is seen. -/
theorem asToken_soleMember {α : Type} [Token α] (stored : Bool) (json : Json) :
    asToken (α := α) stored json = asToken stored json.soleMember := by
  cases json with
  | obj ms =>
    rcases ms with _ | ⟨⟨key, value⟩, _ | ⟨m', ms⟩⟩
    · rfl
    · rw [Json.soleMember]
      cases value with
      | obj rest =>
        cases rest with
        | nil => rfl
        | cons m rest =>
          -- what is not empty is not empty in canonical form
          have hne : (Json.obj (m :: rest)).canonical ≠ .obj [] := fun h => by
            cases canonical_eq_nil h
          rw [canonical] at hne ⊢
          cases hsorted : sortMembers (canonicalMembers (m :: rest)) with
          | nil => exact absurd (congrArg Json.obj hsorted) hne
          | cons m' rest' => rfl
      | _ => rfl
    · cases value with
      | obj rest => cases rest <;> rfl
      | _ => rfl
  | _ => rfl

instance {α : Type} [Token α] (stored : Bool) : ReadsAs (asToken (α := α) stored) .token where
  respects {a b} hsame := by
    rw [asToken_soleMember stored a, asToken_soleMember stored b, Option.some.inj (hsame true)]

instance : ReadsAs asBool .scalar := readsAs_scalar (fun _ => rfl) fun _ => rfl

instance : ReadsAs asString .scalar := readsAs_scalar (fun _ => rfl) fun _ => rfl

instance : ReadsAs asWord .scalar := readsAs_scalar (fun _ => rfl) fun _ => rfl

instance : ReadsAs asDouble .scalar := readsAs_scalar (fun _ => rfl) fun _ => rfl

instance (stored : Bool) (kinds : List NodeKind) : ReadsAs (kindOf stored kinds) .scalar :=
  readsAs_scalar (fun _ => rfl) fun _ => rfl

instance (stored : Bool) : ReadsAs (ExportSpecifier.exportKindOf stored) .scalar :=
  readsAs_scalar (fun _ => rfl) fun _ => rfl

instance : ReadsAs LineCol.ofJson? .lineCol := ⟨fun h => h true⟩

instance : ReadsAs Loc.ofJson? .loc := ⟨fun h => h true⟩

instance : ReadsAs Span.ofJson? .span := ⟨fun h => h true⟩

instance : ReadsAs Opaque.ofJson? .payload := ⟨fun h => h true⟩

instance : ReadsAs Ident.ofJson? .ident := ⟨fun h => h true⟩

instance : ReadsAs PrivateName.ofJson? .privateName := ⟨fun h => h true⟩

instance : ReadsAs StringLit.ofJson? .str := ⟨fun h => h true⟩

instance : ReadsAs Quasi.ofJson? .quasi := ⟨fun h => h true⟩

instance : ReadsAs JsxFragmentTag.ofJson? .fragmentTag := ⟨fun h => h true⟩

instance (stored : Bool) : ReadsAs (Read.jsxAttrName stored) .attrName := ⟨fun h => h stored⟩

instance (stored : Bool) (c : Category) : ReadsAs (fun json => json.readAt stored c) (.node c) :=
  ⟨fun h => h stored⟩

instance (c : Category) : ReadsAs (fun json => json.read c) (.node c) := ⟨fun h => h false⟩

instance (stored : Bool) (c : Category) :
    ReadsAs (fun json => json.readList stored c) (.nodes c) :=
  ⟨fun h => h stored⟩

instance (stored : Bool) : ReadsAs (ImportSpecifier.ofJson? stored) .importSpecifier :=
  ⟨fun h => h stored⟩

instance (stored : Bool) : ReadsAs (ExportSpecifier.ofJson? stored) .exportSpecifier :=
  ⟨fun h => h stored⟩

instance (stored : Bool) : ReadsAs (DefaultDecl.ofJson? stored) .defaultDecl :=
  ⟨fun h => h stored⟩

instance : ReadsAs ModuleItem.ofJson? .moduleItem := ⟨fun h => h true⟩

instance : ReadsAs (asList Quasi.ofJson?) (.list .quasi) := ⟨fun h => h true⟩

instance : ReadsAs (asList Opaque.ofJson?) (.list .payload) := ⟨fun h => h true⟩

instance (stored : Bool) :
    ReadsAs (asList (ImportSpecifier.ofJson? stored)) (.list .importSpecifier) :=
  ⟨fun h => h stored⟩

instance (stored : Bool) :
    ReadsAs (asList (ExportSpecifier.ofJson? stored)) (.list .exportSpecifier) :=
  ⟨fun h => h stored⟩

instance : ReadsAs (asList ModuleItem.ofJson?) (.list .moduleItem) := ⟨fun h => h true⟩

instance (c : Category) : ReadsAs (asList fun json => json.read c) (.list (.node c)) :=
  ⟨fun h => h false⟩

theorem nullable_eq {value : Json} (h : value ≠ .null) :
    Json.nullable read value = (read value).map some := by
  cases value <;> first | rfl | exact absurd rfl h

instance [ReadsAs read s] : ReadsAs (Json.nullable read) (.nullable s) where
  respects {a b} hsame := by
    have hnone {value : Json} (hvalue : value ≠ .null) (stored : Bool) :
        (Shape.nullable s).read stored value ≠ some none := by
      rw [Shape.read, nullable_eq hvalue]
      intro hread
      obtain ⟨x, -, hx⟩ := Option.map_eq_some_iff.mp hread
      cases hx
    by_cases ha : a = .null
    · by_cases hb : b = .null
      · rw [ha, hb]
      · rw [ha] at hsame
        exact absurd (hsame true).symm (hnone hb true)
    · by_cases hb : b = .null
      · rw [hb] at hsame
        exact absurd (hsame true) (hnone ha true)
      · rw [nullable_eq ha, nullable_eq hb]
        refine congrArg (Option.map some) (ReadsAs.respects fun stored => ?_)
        have hread := hsame stored
        rw [Shape.read, Shape.read, nullable_eq ha, nullable_eq hb] at hread
        exact Option.map_injective (fun _ _ => Option.some.inj) hread

end Readers

/-! ### Objects that agree -/

/-- What is found of two objects is read alike. -/
def Shape.SameFound (s : Shape) : Json.Found Json → Json.Found Json → Prop
  | .absent, .absent => True
  | .once a, .once b => s.SameReading a b
  | .repeated, .repeated => True
  | _, _ => False

/-- What two objects keep is the same. -/
structure SameRest (ms ms' : List (String × Json)) : Prop where
  sorted : sortMembers (canonicalMembers ms) = sortMembers (canonicalMembers ms')
  sole : (Json.obj ms).soleMember = (Json.obj ms').soleMember

/-- Two objects agree on what a schema asks for. -/
structure Agree (schema : Schema) (ms ms' : List (String × Json)) : Prop where
  /-- The same parts of them are readable. -/
  readable : ∀ test : String → Bool, membersReadable (ms.filter fun m => test m.1) =
    membersReadable (ms'.filter fun m => test m.1)
  fields : ∀ field ∈ schema.fields, field.2.SameFound (find field.1 ms) (find field.1 ms')
  rest : schema.keepsRest = true →
    SameRest (ms.filter fun m => !schema.keys.contains m.1)
      (ms'.filter fun m => !schema.keys.contains m.1)

/-! ### Objects that are stored -/

section Stored

variable {α : Type} {ms ms' : List (String × Json)} {stored : Bool}

/-- Objects of which the same is readable are stored alike. -/
theorem storedMembers_congr {read read' : List (String × Json) → Option α}
    (hreadable : membersReadable ms = membersReadable ms') (hread : read ms = read' ms') :
    (storedMembers stored (.obj ms) >>= read) = (storedMembers stored (.obj ms') >>= read') := by
  rw [storedMembers_obj, storedMembers_obj, hreadable]
  split
  · exact hread
  · rfl

theorem store_congr {read : Fields → Option α}
    (hreadable : membersReadable ms = membersReadable ms')
    (hread : read (.of true ms) = read (.of true ms')) :
    ((Fields.of stored ms).store >>= read) = ((Fields.of stored ms').store >>= read) := by
  have hstore (ms : List (String × Json)) : ((Fields.of stored ms).store >>= read) =
      (storedMembers stored (.obj ms) >>= fun ms => read (.of true ms)) := by
    rw [Fields.store_eq]
    exact Option.bind_map ..
  rw [hstore, hstore]
  exact storedMembers_congr hreadable hread

end Stored

/-! ### What is looked up in objects that agree -/

namespace Agree

section Lookup

variable {schema : Schema} {ms ms' : List (String × Json)} {β : Type} {read : Json → Option β}
  {s : Shape} {key : String} {keys known : List String} {stored : Bool} {default : β}

theorem membersReadable (h : Agree schema ms ms') :
    Json.membersReadable ms = Json.membersReadable ms' := by
  have hall := h.readable fun _ => true
  rwa [List.filter_true, List.filter_true] at hall

/-- A member under one of several keys. -/
theorem defaultedAny [ReadsAs read s] (h : Agree schema ms ms')
    (hmem : (keys, s) ∈ schema.fields) :
    Json.defaultedAny ms keys default read = Json.defaultedAny ms' keys default read := by
  have hfound := h.fields _ hmem
  rw [Json.defaultedAny, Json.defaultedAny]
  cases hms : find keys ms <;> cases hms' : find keys ms' <;>
    simp only [hms, hms', Shape.SameFound] at hfound ⊢
  exact ReadsAs.respects hfound

theorem required [ReadsAs read s] (h : Agree schema ms ms') (hmem : ([key], s) ∈ schema.fields) :
    Json.required ms key read = Json.required ms' key read := by
  have hfound := h.fields _ hmem
  rw [Json.required, Json.required]
  cases hms : find [key] ms <;> cases hms' : find [key] ms' <;>
    simp only [hms, hms', Shape.SameFound] at hfound ⊢
  exact ReadsAs.respects hfound

theorem defaulted [ReadsAs read s] (h : Agree schema ms ms') (hmem : ([key], s) ∈ schema.fields) :
    Json.defaulted ms key default read = Json.defaulted ms' key default read :=
  h.defaultedAny hmem

theorem optional [ReadsAs read s] (h : Agree schema ms ms')
    (hmem : ([key], .nullable s) ∈ schema.fields) :
    Json.optional ms key read = Json.optional ms' key read :=
  h.defaulted hmem

theorem spanOf (h : Agree schema ms ms') (hmem : (["span"], .span) ∈ schema.fields) :
    EcmaPrinter.spanOf ms = EcmaPrinter.spanOf ms' :=
  h.defaulted hmem

/-- What is kept besides the members that are read. -/
theorem restOf (h : Agree schema ms ms') (hkeeps : schema.keepsRest = true)
    (hknown : schema.keys = known) : Opaque.restOf known ms = Opaque.restOf known ms' := by
  subst hknown
  have hreadable := h.readable fun key => !schema.keys.contains key
  rw [Opaque.restOf, Opaque.restOf, hreadable, (h.rest hkeeps).sorted]

/-- Members under keys that are taken away are not looked for. -/
theorem find_filter (hkeys : ∀ key ∈ known, key ∉ keys) (ms : List (String × Json)) :
    find known (ms.filter fun m => !keys.contains m.1) = find known ms := by
  rw [find, find, List.filter_filter]
  have hfilter : (ms.filter fun m => known.contains m.1 && !keys.contains m.1) =
      ms.filter fun m => known.contains m.1 := by
    refine List.filter_congr fun m _ => ?_
    by_cases hmem : m.1 ∈ known
    · simp [hmem, hkeys m.1 hmem]
    · simp [hmem]
  rw [hfilter]

theorem readable_filter (h : Agree schema ms ms') (part test : String → Bool) :
    Json.membersReadable ((ms.filter fun m => part m.1).filter fun m => test m.1) =
      Json.membersReadable ((ms'.filter fun m => part m.1).filter fun m => test m.1) := by
  rw [List.filter_filter, List.filter_filter]
  exact h.readable fun key => test key && part key

/-- The members besides some of the keys. -/
theorem without {inner : Schema} (h : Agree schema ms ms') (hkeeps : inner.keepsRest = false)
    (hsub : ∀ field ∈ inner.fields, field ∈ schema.fields ∧ ∀ key ∈ field.1, key ∉ keys) :
    Agree inner (ms.filter fun m => !keys.contains m.1)
      (ms'.filter fun m => !keys.contains m.1) where
  readable test := h.readable_filter (fun key => !keys.contains key) test
  fields field hfield := by
    obtain ⟨hmem, hkeys⟩ := hsub field hfield
    rw [find_filter hkeys, find_filter hkeys]
    exact h.fields field hmem
  rest hrest := by
    rw [hkeeps] at hrest
    cases hrest

theorem untagged_eq (ms : List (String × Json)) :
    EcmaPrinter.untagged ms = ms.filter fun m => !(["type"].contains m.1) := by
  refine List.filter_congr fun m _ => ?_
  rw [List.contains_cons, List.contains_nil, Bool.or_false, bne]

/-- The kind taken away. -/
theorem untagged (h : Agree schema.tagged ms ms') (htype : "type" ∉ schema.keys) :
    Agree schema (EcmaPrinter.untagged ms) (EcmaPrinter.untagged ms') where
  readable test := by
    rw [untagged_eq, untagged_eq]
    exact h.readable_filter (fun key => !(["type"].contains key)) test
  fields field hfield := by
    have hkeys : ∀ key ∈ field.1, key ∉ ["type"] := by
      rintro key hkey hmem
      rw [List.mem_singleton.mp hmem] at hkey
      exact htype (List.mem_flatMap.mpr ⟨field, hfield, hkey⟩)
    rw [untagged_eq, untagged_eq, find_filter hkeys, find_filter hkeys]
    exact h.fields field (List.mem_append_right _ hfield)
  rest hrest := by
    have hfilter (ms : List (String × Json)) :
        ((EcmaPrinter.untagged ms).filter fun m => !schema.keys.contains m.1) =
          ms.filter fun m => !schema.tagged.keys.contains m.1 := by
      rw [EcmaPrinter.untagged, List.filter_filter]
      refine List.filter_congr fun m _ => ?_
      rw [Bool.and_comm]
      change _ = !("type" :: schema.keys).contains m.1
      rw [List.contains_cons, Bool.not_or, bne]
    rw [hfilter, hfilter]
    exact h.rest hrest

/-- Members of a function or a class beside those of a node around it. -/
theorem flat {inner : Schema} {α : Type} {read : Fields → Option α} (h : Agree schema ms ms')
    (hread : ∀ {ns ns'}, Agree inner ns ns' → read (.of true ns) = read (.of true ns'))
    (hkeeps : inner.keepsRest = false)
    (hsub : ∀ field ∈ inner.fields, field ∈ schema.fields ∧ ∀ key ∈ field.1, key ∉ keys) :
    ((Fields.of stored ms).without keys).store >>= read =
      ((Fields.of stored ms').without keys).store >>= read := by
  have hinner := h.without hkeeps hsub
  rw [Fields.without_of, Fields.without_of]
  exact store_congr hinner.membersReadable (hread hinner)

end Lookup

end Agree

/-- Of an object that is kept as a whole all is kept. -/
theorem SameRest.of_everything {ms ms' : List (String × Json)}
    (h : ∀ schema ∈ [Schema.everything], Agree schema ms ms') : SameRest ms ms' := by
  have hrest := (List.forall_mem_singleton.mp h).rest rfl
  have hall (ms : List (String × Json)) :
      (ms.filter fun m => !Schema.everything.keys.contains m.1) = ms := List.filter_true ..
  rwa [hall, hall] at hrest

/-! ### Nodes -/

section Nodes

variable {ms ms' : List (String × Json)} {stored : Bool}

theorem Read.function_congr (h : Agree .function ms ms') :
    Read.function (.of stored ms) = Read.function (.of stored ms') := by
  simp (disch := decide) only [Read.function, Fields.plain_of, Fields.nodes_of, Fields.place_of,
    h.spanOf, h.defaulted, h.optional]

theorem Read.klass_congr (h : Agree .klass ms ms') :
    Read.klass (.of stored ms) = Read.klass (.of stored ms') := by
  simp (disch := decide) only [Read.klass, Fields.plain_of, Fields.nodes_of, Fields.place_of,
    h.spanOf, h.defaulted, h.optional]

/-- A function whose members stand beside those of another node. -/
theorem Agree.function {schema : Schema} {keys : List String} (h : Agree schema ms ms')
    (hsub : ∀ field ∈ Schema.function.fields,
      field ∈ schema.fields ∧ ∀ key ∈ field.1, key ∉ keys) :
    ((Fields.of stored ms).without keys).store >>= Read.function =
      ((Fields.of stored ms').without keys).store >>= Read.function :=
  h.flat Read.function_congr rfl hsub

/-- A class whose members stand beside those of another node. -/
theorem Agree.klass {schema : Schema} {keys : List String} (h : Agree schema ms ms')
    (hsub : ∀ field ∈ Schema.klass.fields,
      field ∈ schema.fields ∧ ∀ key ∈ field.1, key ∉ keys) :
    ((Fields.of stored ms).without keys).store >>= Read.klass =
      ((Fields.of stored ms').without keys).store >>= Read.klass :=
  h.flat Read.klass_congr rfl hsub

/-- `new` without a list of arguments is not the same as with an empty one. -/
theorem newExpr_eq : Read.newExpr (.of stored ms) = (do
    let span ← spanOf ms
    let callee ← required ms "callee" fun json => json.readAt stored .expr
    let typeArguments ← Json.optional ms "typeArguments" Opaque.ofJson?
    match ← Json.optional ms "arguments" fun json => json.readList stored .argument with
    | none => some (.newBare span callee typeArguments)
    | some arguments => some (.new span callee arguments typeArguments)) := by
  rw [Read.newExpr, Fields.plain_of, Fields.node_of, Fields.members_of, Fields.stored_of,
    find_readMembers]
  refine bind_congr fun span => bind_congr fun callee => bind_congr fun typeArguments => ?_
  rw [Json.optional, defaulted, defaultedAny]
  cases find ["arguments"] ms with
  | once value =>
    cases value with
    | arr items =>
      change ((Json.arr items).readList stored .argument).bind _ =
        (((Json.arr items).readList stored .argument).map some).bind _
      rw [Option.bind_map]
      rfl
    | _ => rfl
  | _ => rfl

/-- **What a table makes of a kind depends on the schema of the kind.** -/
theorem Category.table_congr {c : Category} : ∀ kind ∈ c.kinds, Agree (c.schema kind) ms ms' →
    c.table kind (.of stored ms) = c.table kind (.of stored ms') := by
  cases c
  all_goals simp only [kinds, List.forall_mem_cons]
  all_goals repeat' apply And.intro
  all_goals
    first
    | exact List.forall_mem_nil _
    | (intro h
       simp (disch := decide) only [Category.table, Read.expr, Read.argument, Read.pattern,
         Read.patternMember, Read.property, Read.propertyName, Read.objectMember, Read.arrowBody,
         Read.classMember, Read.param, Read.stmt, Read.forInit, Read.forTarget, Read.decl,
         Read.jsxObject, Read.jsxName, Read.jsxExpr, Read.jsxAttrValue, Read.jsxAttrOrSpread,
         Read.jsxChild, Read.spread, Read.rest, Read.functionExpr, Read.classExpr, Read.block,
         Read.varDecl, Read.jsxMember, Read.jsxContainer, Read.jsxAttr, Read.jsxElement,
         Read.jsxFragment, Read.typingOf, Read.typed, newExpr_eq, Read.methodTraits,
         Read.propertyTraits,
         Ident.ofMembers?, StringLit.ofMembers?, NumberLit.ofMembers?, RegexLit.ofMembers?,
         PrivateName.ofMembers?, JsxNamespacedName.ofMembers?, JsxText.ofMembers?,
         Opaque.ofMembers?,
         Fields.stored_of, Fields.plain_of, Fields.nodes_of, Fields.place_of, Fields.node_of,
         h.spanOf, h.defaulted, h.optional, h.required, h.restOf, h.function, h.klass])

theorem Read.typed_congr {form : TypedForm} (h : Agree .typed ms ms') :
    Read.typed form (.of stored ms) = Read.typed form (.of stored ms') := by
  simp (disch := decide) only [Read.typed, Fields.plain_of, Fields.node_of, h.spanOf, h.required,
    h.restOf]

theorem Category.type_notMem_keys {c : Category} : ∀ kind ∈ c.kinds,
    "type" ∉ (c.schema kind).keys := by
  cases c with
  | opt c => exact List.forall_mem_nil _
  | _ => decide

/-- What a node is made of whose place says what it is. -/
theorem readParts_single {c : Category} (hc : c.kinds = []) (hopt : ∀ d, c ≠ .opt d)
    (h : Agree c.single ms ms') :
    readParts (.object (.of stored ms)) c = readParts (.object (.of stored ms')) c := by
  cases c
  case function => exact Read.function_congr h
  case klass => exact Read.klass_congr h
  all_goals first
    | exact absurd hc (by decide)
    | exact absurd rfl (hopt _)
    | simp (disch := decide) only [readParts, Parts.fields_object, some_bind, Read.spread, Read.rest, Read.functionExpr,
        Read.classExpr, Read.decorator, Read.block, Read.switchCase, Read.catchClause,
        Read.varDecl, Read.declarator, Read.jsxMember, Read.jsxContainer, Read.jsxAttr,
        Read.jsxOpening, Read.jsxClosing, Read.jsxElement, Read.jsxFragment, Read.typingOf,
        Fields.stored_of, Fields.plain_of, Fields.nodes_of, Fields.place_of, Fields.node_of,
        h.spanOf, h.defaulted, h.optional, h.required, h.function, h.klass]

end Nodes

/-! ### Changes that objects agree on -/

section Members

variable {ms ms' front back : List (String × Json)} {key : String}

/-- The order of the members does not show in what is kept. -/
theorem SameRest.of_perm (hperm : ms.Perm ms') (h : (ms.map Prod.fst).Nodup) :
    SameRest ms ms' where
  sorted := by
    have hkeys : (canonicalMembers ms).map Prod.fst = ms.map Prod.fst := by
      rw [canonicalMembers_eq, mapValues, List.map_map]
      rfl
    refine sortMembers_eq_of_perm ?_ (by rwa [hkeys])
    rw [canonicalMembers_eq, canonicalMembers_eq]
    exact hperm.map _
  sole := by
    rcases eq_or_two_of_perm hperm with rfl | ⟨⟨_, _, _, rfl⟩, _, _, _, rfl⟩
    · rfl
    · rfl

/-- A member with a value that is kept alike. -/
theorem SameRest.of_member {a b : Json} (h : a.canonical = b.canonical) :
    SameRest (front ++ (key, a) :: back) (front ++ (key, b) :: back) where
  sorted := by
    simp only [canonicalMembers_eq, mapValues, List.map_append, List.map_cons, h]
  sole := by
    rcases front with _ | ⟨m, _ | ⟨m', front⟩⟩
    · cases back with
      | nil => simp only [List.nil_append, Json.soleMember, h]
      | cons m back => rfl
    · rfl
    · rfl

end Members

theorem Shape.sameFound_refl (s : Shape) (found : Json.Found Json) : s.SameFound found found := by
  cases found with
  | once value => exact fun _ => rfl
  | _ => trivial

/-- A member whose value is read alike. -/
theorem Shape.SameReading.found {s : Shape} {front back : List (String × Json)} {key : String}
    {a b : Json} {keys : List String} (h : s.SameReading a b) (hkey : keys.contains key = true) :
    s.SameFound (find keys (front ++ (key, a) :: back))
      (find keys (front ++ (key, b) :: back)) := by
  rw [find, find, filter_of_pos keys.contains hkey, filter_of_pos keys.contains hkey]
  generalize (front.filter fun m => keys.contains m.1) = before
  generalize (back.filter fun m => keys.contains m.1) = after
  -- with another member before or behind it, it repeats
  rcases before with _ | ⟨m, _ | ⟨m', before⟩⟩
  · cases after with
    | nil => exact h
    | cons m after => trivial
  · trivial
  · trivial

namespace Schema

variable {schema : Schema} {field : List String × Shape} {key : String}

theorem contains_keys (hfield : field ∈ schema.fields) (hkey : field.1.contains key = true) :
    schema.keys.contains key = true :=
  List.contains_iff_mem.mpr (List.mem_flatMap.mpr ⟨field, hfield, List.contains_iff_mem.mp hkey⟩)

theorem mem_shapes (hfield : field ∈ schema.fields) (hkey : field.1.contains key = true) :
    field.2 ∈ schema.shapes key := by
  rw [shapes, if_pos (contains_keys hfield hkey)]
  exact List.mem_map_of_mem (List.mem_filter.mpr ⟨hfield, hkey⟩)

theorem kept_mem_shapes (hkeeps : schema.keepsRest = true)
    (hkey : schema.keys.contains key = false) : .kept ∈ schema.shapes key := by
  rw [shapes, hkey, hkeeps]
  exact List.mem_singleton_self _

end Schema

namespace Agree

variable {schema : Schema} {ms ms' front back : List (String × Json)} {key : String}
  {value a b : Json}

/-- Members in another order. -/
theorem of_perm (hperm : ms.Perm ms') (h : (ms.map Prod.fst).Nodup) : Agree schema ms ms' where
  readable _ := membersReadable_of_perm (hperm.filter _)
  fields field _ := by
    rw [find_eq_of_perm hperm]
    exact field.2.sameFound_refl _
  rest _ := .of_perm (hperm.filter _) (h.sublist (List.filter_sublist.map Prod.fst))

/-- A member that is not in the schema. -/
theorem of_extra (hkeeps : schema.keepsRest = false) (hkey : key ∉ schema.keys)
    (hvalue : value.isReadable = true) :
    Agree schema (front ++ back) (front ++ (key, value) :: back) where
  readable test := by
    cases htest : test key with
    | false => rw [filter_of_neg test htest]
    | true =>
      rw [filter_of_pos test htest, List.filter_append, membersReadable_append,
        membersReadable_append, Json.membersReadable, hvalue, Bool.true_and]
  fields field hfield := by
    have hfresh : field.1.contains key = false := by
      rw [← Bool.not_eq_true]
      exact fun h => hkey (List.contains_iff_mem.mp (Schema.contains_keys hfield h))
    rw [find, find, filter_of_neg field.1.contains hfresh]
    exact field.2.sameFound_refl _
  rest hrest := by
    rw [hkeeps] at hrest
    cases hrest

/-- A member with another value. -/
theorem of_member (hreadable : a.isReadable = b.isReadable)
    (hsame : ∀ shape ∈ schema.shapes key, shape.SameReading a b) :
    Agree schema (front ++ (key, a) :: back) (front ++ (key, b) :: back) where
  readable test := by
    cases htest : test key with
    | false => rw [filter_of_neg test htest, filter_of_neg test htest]
    | true =>
      rw [filter_of_pos test htest, filter_of_pos test htest, membersReadable_append,
        membersReadable_append, Json.membersReadable, Json.membersReadable, hreadable]
  fields field hfield := by
    cases hkey : field.1.contains key with
    | true => exact (hsame _ (Schema.mem_shapes hfield hkey)).found hkey
    | false =>
      rw [find, find, filter_of_neg field.1.contains hkey, filter_of_neg field.1.contains hkey]
      exact field.2.sameFound_refl _
  rest hrest := by
    cases hkey : schema.keys.contains key with
    | true =>
      have hother : (!schema.keys.contains key) = false := congrArg (! ·) hkey
      rw [filter_of_neg (fun k => !schema.keys.contains k) hother,
        filter_of_neg (fun k => !schema.keys.contains k) hother]
      exact ⟨rfl, rfl⟩
    | false =>
      have hother : (!schema.keys.contains key) = true := congrArg (! ·) hkey
      rw [filter_of_pos (fun k => !schema.keys.contains k) hother,
        filter_of_pos (fun k => !schema.keys.contains k) hother]
      exact .of_member (Option.some.inj (hsame .kept (Schema.kept_mem_shapes hrest hkey) true))

end Agree

end EcmaPrinter
