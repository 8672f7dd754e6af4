/-
# Values that are alike to a reader

Two values are alike to a shape if they are objects that agree on its schemas, or arrays that
differ in one item, which is read alike as whatever its place makes of it. Alike values are read
alike (`Shape.Alike.sameReading`).

A shape is read in one of three ways. A record asks for its members (`SameRecord.asRecord`).
What is told apart by a kind asks for the kind first, and then for the members of a record that
the kind selects (`ReadsKinds.readTagged`). Everything else is read item by item or not looked
into.

Key definitions: `SameRecord`, `SameTagged`, `ReadsKinds`, `Shape.Alike`.
Key theorems: `SameRecord.asRecord`, `ReadsKinds.readTagged`, `readParts_chain`,
`Shape.Alike.sameReading`.
-/
import EcmaPrinter.Proofs.Tree.Agree

namespace EcmaPrinter

open Json

/-! ### Records -/

/-- Two values that are alike to a record: objects that agree on its schema, or arrays with one
item changed, which is read alike as the member whose place it has. -/
inductive SameRecord (slots : Option (List Slot)) (schema : Schema) : Json → Json → Prop where
  | object {ms ms' : List (String × Json)} :
      Agree schema ms ms' → SameRecord slots schema (.obj ms) (.obj ms')
  | array {front back : List Json} {a b : Json} :
      a.isReadable = b.isReadable →
      (∀ shape ∈ schema.shapesAt slots front.length, shape.SameReading a b) →
      SameRecord slots schema (.arr (front ++ a :: back)) (.arr (front ++ b :: back))

/-- **A record asks for nothing that is not in its schema.** -/
theorem SameRecord.asRecord {α : Type} {slots : Option (List Slot)} {schema : Schema} {x y : Json}
    {read : List (String × Json) → Option α} (h : SameRecord slots schema x y)
    (hread : ∀ {ms ms'}, Agree schema ms ms' → read ms = read ms') :
    Json.asRecord slots x >>= read = Json.asRecord slots y >>= read := by
  cases h with
  | object hagree => exact hread hagree
  | @array front back a b hreadable hsame =>
    cases slots with
    | none => rfl
    | some slots =>
      change place slots (front ++ a :: back) >>= read = place slots (front ++ b :: back) >>= read
      cases hplace : place slots (front ++ a :: back) with
      | some ms =>
        obtain ⟨key, before, after, hkey, rfl, hother⟩ := place_replace hplace
        rw [hother b, some_bind, some_bind]
        refine hread (.of_member hreadable fun shape hshape => hsame shape ?_)
        rw [List.getElem?_map] at hkey
        obtain ⟨slot, hslot, rfl⟩ := Option.map_eq_some_iff.mp hkey
        rw [Schema.shapesAt, Option.getD_some, hslot]
        exact hshape
      | none =>
        -- whether there are places for all items does not depend on the items
        cases hplace' : place slots (front ++ b :: back) with
        | none => rfl
        | some ms =>
          obtain ⟨_, _, _, _, _, hother⟩ := place_replace hplace'
          rw [hother a] at hplace
          cases hplace

/-! ### Kinds -/

/-- Two values that are alike to what is told apart by a kind. -/
inductive SameTagged (kinds : List NodeKind) (kindAt : Json → Option NodeKind)
    (schema : NodeKind → Schema) : Json → Json → Prop where
  | object {ms ms' : List (String × Json)} :
      (∀ s ∈ .tag :: selected kinds kindAt schema ms, Agree s ms ms') →
      SameTagged kinds kindAt schema (.obj ms) (.obj ms')
  | array {front back : List Json} {a b : Json} :
      a.isReadable = b.isReadable →
      (∀ shape ∈ taggedAt (selectedAt kinds kindAt schema (front ++ a :: back)) front.length,
        shape.SameReading a b) →
      SameTagged kinds kindAt schema (.arr (front ++ a :: back)) (.arr (front ++ b :: back))

/-- A table asks of a value of each kind for what is in the schema of the kind. -/
structure ReadsKinds {α : Type} (kinds : List NodeKind)
    (kindAt : (stored : Bool) → Json → Option NodeKind) (schema : NodeKind → Schema)
    (read : NodeKind → List (String × Json) → Option α) : Prop where
  scalar : ∀ stored, ReadsAs (kindAt stored) .scalar
  /-- A kind that is accepted in a value is accepted in a stored one. -/
  stored : ∀ {stored json kind}, kindAt stored json = some kind → kindAt true json = some kind
  type : ∀ kind ∈ kinds, "type" ∉ (schema kind).keys
  known : ∀ kind ∈ kinds, ∀ {ms ms'}, Agree (schema kind) ms ms' → read kind ms = read kind ms'
  other : ∀ kind ∉ kinds, ∀ ms, read kind ms = none

theorem kindOf_stored {kinds : List NodeKind} {stored : Bool} {json : Json} {kind : NodeKind}
    (h : kindOf stored kinds json = some kind) : kindOf true kinds json = some kind := by
  cases json with
  | int n =>
    rw [kindOf] at h ⊢
    split at h
    · rename_i hn
      rw [if_pos (by simpa using (Bool.and_eq_true_iff.mp hn).2)]
      exact h
    · cases h
  | str s => exact h
  | _ => cases h

section Tagged

variable {α : Type} {kinds : List NodeKind} {stored : Bool} {x y : Json}
  {schema : NodeKind → Schema} {read : NodeKind → List (String × Json) → Option α}

/-- A table of kinds that are given by `kindOf`. -/
theorem ReadsKinds.of (htype : ∀ kind ∈ kinds, "type" ∉ (schema kind).keys)
    (hknown : ∀ kind ∈ kinds, ∀ {ms ms'}, Agree (schema kind) ms ms' →
      read kind ms = read kind ms')
    (hother : ∀ kind ∉ kinds, ∀ ms, read kind ms = none) :
    ReadsKinds kinds (fun stored => kindOf stored kinds) schema read where
  scalar _ := inferInstance
  stored := kindOf_stored
  type := htype
  known := hknown
  other := hother

namespace ReadsKinds

variable {kindAt : (stored : Bool) → Json → Option NodeKind}

/-- What is read of an object depends on the schema that its kind selects. -/
theorem members (hkinds : ReadsKinds kinds kindAt schema read) {ms ms' : List (String × Json)}
    (hall : ∀ s ∈ .tag :: selected kinds (kindAt true) schema ms, Agree s ms ms') :
    (required ms "type" (kindAt stored) >>= fun kind => read kind (untagged ms)) =
      (required ms' "type" (kindAt stored) >>= fun kind => read kind (untagged ms')) := by
  obtain ⟨htag, hselected⟩ := List.forall_mem_cons.mp hall
  have := hkinds.scalar stored
  rw [← htag.required (by decide)]
  cases hkind : required ms "type" (kindAt stored) with
  | none => rfl
  | some kind =>
    rw [some_bind, some_bind]
    by_cases hmem : kind ∈ kinds
    · have hstored : required ms "type" (kindAt true) = some kind := by
        rw [required] at hkind ⊢
        cases hfind : find ["type"] ms with
        | once value =>
          rw [hfind] at hkind
          exact hkinds.stored hkind
        | _ =>
          rw [hfind] at hkind
          cases hkind
      have hagree : Agree (schema kind).tagged ms ms' := by
        apply hselected
        simp only [selected, hstored, hmem, if_true, List.mem_singleton]
      exact hkinds.known kind hmem (hagree.untagged (hkinds.type kind hmem))
    · rw [hkinds.other kind hmem, hkinds.other kind hmem]

/-- What is read of an array depends on the schema that its first item selects. -/
theorem items (hkinds : ReadsKinds kinds kindAt schema read) {front back : List Json} {a b : Json}
    {tag : Json} (hreadable : a.isReadable = b.isReadable)
    (hsame : ∀ shape ∈ selectedAt kinds (kindAt true) schema (tag :: (front ++ a :: back))
      front.length, shape.SameReading a b) :
    readTagged stored (kindAt stored) read (.arr (tag :: (front ++ a :: back))) =
      readTagged stored (kindAt stored) read (.arr (tag :: (front ++ b :: back))) := by
  have hitems : itemsReadable (front ++ a :: back) = itemsReadable (front ++ b :: back) := by
    rw [itemsReadable_append, itemsReadable_append, itemsReadable, itemsReadable, hreadable]
  rw [EcmaPrinter.readTagged, EcmaPrinter.readTagged]
  cases hkind : kindAt stored tag with
  | none => rfl
  | some kind =>
    rw [some_bind, some_bind, storedItems, storedItems, hitems]
    split
    · rw [some_bind, some_bind]
      by_cases hmem : kind ∈ kinds
      · have hrecord : SameRecord kind.slots (schema kind) (.arr (front ++ a :: back))
            (.arr (front ++ b :: back)) := by
          refine .array hreadable fun shape hshape => hsame shape ?_
          rw [selectedAt, List.head?_cons, some_bind, hkinds.stored hkind]
          simp only [hmem, if_true]
          exact hshape
        exact hrecord.asRecord (hkinds.known kind hmem)
      · have hnone : read kind = fun _ => none := funext (hkinds.other kind hmem)
        rw [hnone]
        cases asRecord kind.slots (.arr (front ++ a :: back)) <;>
          cases asRecord kind.slots (.arr (front ++ b :: back)) <;> rfl
    · rfl

/-- **What is told apart by a kind asks for nothing that is not in the schema of the kind.** -/
theorem readTagged (hkinds : ReadsKinds kinds kindAt schema read)
    (h : SameTagged kinds (kindAt true) schema x y) (stored : Bool) :
    readTagged stored (kindAt stored) read x = readTagged stored (kindAt stored) read y := by
  cases h with
  | @object ms ms' hall =>
    have hreadable := (List.forall_mem_cons.mp hall).1.membersReadable
    rw [readTagged_members, readTagged_members]
    exact storedMembers_congr hreadable (hkinds.members hall)
  | @array front back a b hreadable hsame =>
    cases front with
    | nil =>
      have hscalar := hkinds.scalar stored
      have hkind : kindAt stored a = kindAt stored b :=
        ReadsAs.respects (hsame .scalar (List.mem_singleton_self _))
      rw [List.nil_append, List.nil_append, EcmaPrinter.readTagged, EcmaPrinter.readTagged, hkind]
    | cons tag front =>
      exact hkinds.items hreadable fun shape hshape =>
        hsame shape (List.mem_cons_of_mem _ hshape)

end ReadsKinds

end Tagged

/-! ### Programs and their parts -/

section Roots

variable {ms ms' : List (String × Json)} {kind : NodeKind}

theorem JsxAttrName.readsKinds : ReadsKinds Read.jsxAttrNameKinds
    (fun stored => kindOf stored Read.jsxAttrNameKinds) Schema.jsxName Read.jsxAttrNameOf := by
  refine .of (by decide) (fun kind _ _ _ h => ?_) fun kind hother _ => ?_
  · unfold Read.jsxAttrNameOf
    split
    · simp (disch := decide) only [Ident.ofMembers?, h.spanOf, h.required, h.defaulted, h.optional]
    · simp (disch := decide) only [JsxNamespacedName.ofMembers?, h.spanOf, h.required]
    · rfl
  · unfold Read.jsxAttrNameOf
    split <;> first | rfl | exact absurd (by decide) hother

theorem ImportSpecifier.ofKind?_congr (h : Agree (Schema.importSpecifier kind) ms ms') :
    ImportSpecifier.ofKind? kind ms = ImportSpecifier.ofKind? kind ms' := by
  unfold ImportSpecifier.ofKind?
  split
  all_goals
    first
    | rfl
    | simp (disch := decide) only [h.spanOf, h.required, h.optional]

theorem ImportSpecifier.readsKinds : ReadsKinds ImportSpecifier.kinds
    (fun stored => kindOf stored ImportSpecifier.kinds) Schema.importSpecifier
    ImportSpecifier.ofKind? := by
  refine .of (by decide) (fun _ _ _ _ => ofKind?_congr) fun kind hother _ => ?_
  unfold ImportSpecifier.ofKind?
  split <;> first | rfl | exact absurd (by decide) hother

theorem ExportSpecifier.ofKind?_congr (h : Agree (Schema.exportSpecifier kind) ms ms') :
    ExportSpecifier.ofKind? kind ms = ExportSpecifier.ofKind? kind ms' := by
  unfold ExportSpecifier.ofKind?
  split
  all_goals
    first
    | rfl
    | simp (disch := decide) only [h.spanOf, h.required, h.optional]

theorem ExportSpecifier.exportKindOf_stored {stored : Bool} {json : Json}
    (h : exportKindOf stored json = some kind) : exportKindOf true json = some kind := by
  unfold exportKindOf at h ⊢
  split at h
  · exact h
  · exact kindOf_stored h

theorem ExportSpecifier.readsKinds : ReadsKinds ExportSpecifier.kinds exportKindOf
    Schema.exportSpecifier ExportSpecifier.ofKind? where
  scalar _ := inferInstance
  stored := exportKindOf_stored
  type := by decide
  known _ _ _ _ := ofKind?_congr
  other kind hother _ := by
    unfold ExportSpecifier.ofKind?
    split <;> first | rfl | exact absurd (by decide) hother

theorem DefaultDecl.readsKinds : ReadsKinds DefaultDecl.kinds
    (fun stored => kindOf stored DefaultDecl.kinds) Schema.defaultDecl
    fun kind ms => DefaultDecl.ofKind? kind (.of true ms) := by
  refine .of (by decide) (fun kind _ _ _ h => ?_) fun kind hother _ => ?_
  · unfold DefaultDecl.ofKind?
    split
    all_goals
      first
      | rfl
      | simp (disch := decide) only [Read.classExpr, Read.functionExpr, Opaque.ofMembers?,
          Fields.plain_of, h.spanOf, h.optional, h.restOf, h.function, h.klass]
  · unfold DefaultDecl.ofKind?
    split <;> first | rfl | exact absurd (by decide) hother

theorem ModuleDecl.ofKind?_congr {stored : Bool} (h : Agree (Schema.moduleDecl kind) ms ms') :
    ModuleDecl.ofKind? kind (.of stored ms) = ModuleDecl.ofKind? kind (.of stored ms') := by
  unfold ModuleDecl.ofKind?
  split
  all_goals
    first
    | rfl
    | simp (disch := decide) only [Opaque.ofMembers?, Fields.stored_of, Fields.plain_of,
        Fields.node_of, h.spanOf, h.required, h.defaulted, h.optional, h.restOf]

theorem ModuleDecl.readsKinds : ReadsKinds ModuleDecl.kinds
    (fun stored => kindOf stored ModuleDecl.kinds) Schema.moduleDecl
    fun kind ms => ModuleDecl.ofKind? kind (.of true ms) :=
  .of (by decide) (fun _ _ _ _ => ofKind?_congr) fun _ hother _ => ofKind?_eq_none hother

theorem Program.ofKind?_congr (h : Agree (Schema.program kind) ms ms') :
    Program.ofKind? kind ms = Program.ofKind? kind ms' := by
  unfold Program.ofKind?
  split
  all_goals
    first
    | rfl
    | simp (disch := decide) only [h.spanOf, h.defaulted, h.optional]

theorem Program.readsKinds : ReadsKinds Program.kinds (fun stored => kindOf stored Program.kinds)
    Schema.program Program.ofKind? := by
  refine .of (by decide) (fun _ _ _ _ => ofKind?_congr) fun kind hother _ => ?_
  unfold Program.ofKind?
  split <;> first | rfl | exact absurd (by decide) hother

theorem Category.readsKinds (c : Category) : ReadsKinds c.kinds
    (fun stored => kindOf stored c.kinds) c.schema fun kind ms => c.table kind (.of true ms) :=
  .of type_notMem_keys (fun kind hkind _ _ => table_congr kind hkind)
    fun _ hother _ => table_eq_none hother

end Roots

/-! ### Categories -/

/-- **A value that is tried at some categories is read alike if it is so at each of them.** -/
theorem readParts_chain {c : Category} (hc : c.kinds ≠ []) {ps ps' : Parts}
    (hown : ∀ d ∈ c.chain, ps.byKind d.kinds d.table = ps'.byKind d.kinds d.table)
    (hstore : (ps.store = none ∧ ps'.store = none) ∨ ∃ qs qs', ps.store = some qs ∧
      ps'.store = some qs' ∧ ∀ d ∈ c.chain, qs.byKind d.kinds d.table = qs'.byKind d.kinds d.table) :
    readParts ps c = readParts ps' c := by
  have hstored {read : Parts → Option (Node c)}
      (hread : ∀ qs qs' : Parts, (∀ d ∈ c.chain,
        qs.byKind d.kinds d.table = qs'.byKind d.kinds d.table) → read qs = read qs') :
      ps.store >>= read = ps'.store >>= read := by
    rcases hstore with ⟨hnone, hnone'⟩ | ⟨qs, qs', hqs, hqs', hchain⟩
    · rw [hnone, hnone']
    · rw [hqs, hqs']
      exact hread qs qs' hchain
  have hpattern {qs qs' : Parts} (hmem : .pattern ∈ c.chain ∧ .expr ∈ c.chain)
      (h : ∀ d ∈ c.chain, qs.byKind d.kinds d.table = qs'.byKind d.kinds d.table) :
      Read.anyPattern qs = Read.anyPattern qs' :=
    congrArg₂ (fun own e => own <|> Option.map _ e) (h .pattern hmem.1) (h .expr hmem.2)
  cases c
  case pattern => exact hstored fun _ _ => hpattern (by decide)
  case param | forTarget =>
    exact hstored fun _ _ h => congrArg₂ (fun own p => own <|> Option.map _ p)
      (h _ (by decide)) (hpattern (by decide) h)
  case objectMember =>
    exact hstored fun _ _ h => congrArg₂ (fun own p => own <|> Option.map _ p)
      (h .objectMember (by decide)) (h .property (by decide))
  case stmt =>
    exact hstored fun _ _ h => congrArg₂ (fun own e => own <|> e) (h .stmt (by decide))
      (congrArg₂ (fun d e => Option.map _ d <|> Option.map _ e) (h .decl (by decide))
        (h .expr (by decide)))
  all_goals
    first
    | exact absurd rfl hc
    | exact hown _ List.mem_cons_self
    | exact hstored fun _ _ h => congrArg₂ (fun own e => own <|> Option.map _ e)
        (h _ List.mem_cons_self) (h .expr (by decide))

/-! ### Shapes -/

/-- Two values that are alike to a shape. -/
inductive Shape.Alike (s : Shape) : Json → Json → Prop where
  | object {ms ms' : List (String × Json)} :
      (∀ schema ∈ s.schemas ms, Agree schema ms ms') → Alike s (.obj ms) (.obj ms')
  | array {front back : List Json} {a b : Json} :
      a.isReadable = b.isReadable →
      (∀ shape ∈ s.items (front ++ a :: back) front.length, shape.SameReading a b) →
      Alike s (.arr (front ++ a :: back)) (.arr (front ++ b :: back))

theorem Category.exists_mem_schemas (c : Category) (ms : List (String × Json)) :
    ∃ schema, schema ∈ c.schemas ms := by
  induction c with
  | opt c ih => exact ih
  | _ => exact ⟨_, List.mem_cons_self⟩

theorem Shape.exists_mem_schemas (s : Shape) (ms : List (String × Json)) :
    ∃ schema, schema ∈ s.schemas ms := by
  induction s with
  | nullable s ih => exact ih
  | node c => exact c.exists_mem_schemas ms
  | moduleItem => exact ⟨_, List.mem_append_right _ List.mem_cons_self⟩
  | _ => exact ⟨_, List.mem_cons_self⟩

namespace Shape.Alike

variable {s : Shape} {x y : Json}

theorem isReadable (h : s.Alike x y) : x.isReadable = y.isReadable := by
  cases h with
  | @object ms ms' hagree =>
    obtain ⟨schema, hschema⟩ := s.exists_mem_schemas ms
    exact (hagree schema hschema).membersReadable
  | array hreadable =>
    rw [Json.isReadable, Json.isReadable, itemsReadable_append, itemsReadable_append,
      itemsReadable, itemsReadable, hreadable]

/-- Values that are alike to a record. -/
theorem record {slots : Option (List Slot)} {schema : Schema} (h : s.Alike x y)
    (hschema : ∀ ms, schema ∈ s.schemas ms)
    (hitems : ∀ items i, ∀ shape ∈ schema.shapesAt slots i, shape ∈ s.items items i) :
    SameRecord slots schema x y := by
  cases h with
  | object hagree => exact .object (hagree schema (hschema _))
  | array hreadable hsame =>
    exact .array hreadable fun shape hshape => hsame shape (hitems _ _ shape hshape)

/-- A shape that is a record has one schema. -/
theorem ofSchema {schema : Schema} (h : s.Alike x y) (hschemas : ∀ ms, s.schemas ms = [schema])
    (hitems : ∀ items i,
      s.items items i = (s.schemas []).flatMap fun schema => schema.shapesAt s.slots i) :
    SameRecord s.slots schema x y := by
  refine h.record (fun ms => ?_) fun items i shape hshape => ?_
  · rw [hschemas ms]
    exact List.mem_singleton_self _
  · rw [hitems items i, hschemas []]
    exact List.mem_flatMap.mpr ⟨schema, List.mem_singleton_self _, hshape⟩

/-- Values that are alike to what is told apart by a kind. -/
theorem tagged {kinds : List NodeKind} {kindAt : Json → Option NodeKind}
    {schema : NodeKind → Schema} (h : s.Alike x y)
    (hschemas : ∀ ms, ∀ schema' ∈ Schema.tag :: selected kinds kindAt schema ms,
      schema' ∈ s.schemas ms)
    (hitems : ∀ items i, ∀ shape ∈ taggedAt (selectedAt kinds kindAt schema items) i,
      shape ∈ s.items items i) :
    SameTagged kinds kindAt schema x y := by
  cases h with
  | object hagree => exact .object fun schema' hmem => hagree schema' (hschemas _ schema' hmem)
  | array hreadable hsame =>
    exact .array hreadable fun shape hshape => hsame shape (hitems _ _ shape hshape)

/-- Both values have parts. -/
theorem parts? (h : s.Alike x y) (stored : Bool) :
    ∃ ps ps', x.parts? stored = some ps ∧ y.parts? stored = some ps' := by
  cases h with
  | object _ | array _ _ => exact ⟨_, _, rfl, rfl⟩

end Shape.Alike

/-! ### Nodes -/

section Nodes

variable {c : Category} {x y : Json}

theorem taggedAt_mono {shapes shapes' : Nat → List Shape} (h : ∀ i, shapes i ⊆ shapes' i)
    (i : Nat) : taggedAt shapes i ⊆ taggedAt shapes' i := by
  cases i with
  | zero => exact List.Subset.refl _
  | succ i => exact List.cons_subset_cons _ (h i)

theorem Category.items_eq (hc : c.kinds ≠ []) (items : List Json) (i : Nat) :
    c.items items i = taggedAt (fun i => c.chain.flatMap fun d =>
      selectedAt d.kinds (kindOf true d.kinds) d.schema items i) i := by
  cases c <;> first | rfl | exact absurd rfl hc

theorem Category.schemas_eq (hc : c.kinds ≠ []) {ms : List (String × Json)} :
    c.schemas ms =
      .tag :: c.chain.flatMap fun d => selected d.kinds (kindOf true d.kinds) d.schema ms := by
  cases c <;> first | rfl | exact absurd rfl hc

theorem Category.schemas_single (hc : c.kinds = []) (hopt : ∀ d, c ≠ .opt d)
    {ms : List (String × Json)} : c.schemas ms = [c.single] := by
  cases c <;> first | rfl | exact absurd rfl (hopt _) | exact absurd hc (by decide)

theorem Category.items_single (hc : c.kinds = []) (hopt : ∀ d, c ≠ .opt d) (items : List Json)
    (i : Nat) : c.items items i = c.single.shapesAt c.slots i := by
  cases c <;> first | rfl | exact absurd rfl (hopt _) | exact absurd hc (by decide)

/-- A value that is tried at some categories is alike to each of them. -/
theorem Shape.Alike.category (h : (Shape.node c).Alike x y) (hc : c.kinds ≠ []) {d : Category}
    (hd : d ∈ c.chain) : SameTagged d.kinds (kindOf true d.kinds) d.schema x y := by
  refine h.tagged (fun ms schema hschema => ?_) fun items i shape hshape => ?_
  · rw [Shape.schemas, Category.schemas_eq hc]
    rcases List.mem_cons.mp hschema with rfl | hselected
    · exact List.mem_cons_self
    · exact List.mem_cons_of_mem _ (List.mem_flatMap.mpr ⟨d, hd, hselected⟩)
  · rw [Shape.items, Category.items_eq hc]
    refine taggedAt_mono (fun i shape hshape => ?_) i hshape
    exact List.mem_flatMap.mpr ⟨d, hd, hshape⟩

/-- A value that is tried at some categories is read alike. -/
theorem readAt_chain (h : (Shape.node c).Alike x y) (hc : c.kinds ≠ []) (stored : Bool) :
    x.readAt stored c = y.readAt stored c := by
  have hchain {stored : Bool} {ps ps' : Parts} (hps : x.parts? stored = some ps)
      (hps' : y.parts? stored = some ps') (d : Category) (hd : d ∈ c.chain) :
      ps.byKind d.kinds d.table = ps'.byKind d.kinds d.table := by
    rw [Parts.byKind_parts? d.table hps, Parts.byKind_parts? d.table hps']
    exact d.readsKinds.readTagged (h.category hc hd) stored
  obtain ⟨ps, ps', hps, hps'⟩ := h.parts? stored
  rw [Json.readAt_parts? hps, Json.readAt_parts? hps']
  refine readParts_chain hc (hchain hps hps') ?_
  rw [Parts.store_parts? hps, Parts.store_parts? hps', h.isReadable]
  by_cases hstored : (stored || y.isReadable) = true
  · obtain ⟨qs, qs', hqs, hqs'⟩ := h.parts? true
    rw [if_pos hstored, if_pos hstored]
    exact .inr ⟨qs, qs', hqs, hqs', hchain hqs hqs'⟩
  · rw [if_neg hstored, if_neg hstored]
    exact .inl ⟨rfl, rfl⟩

/-- A value whose place says what it is is read alike. -/
theorem readAt_single (h : (Shape.node c).Alike x y) (hc : c.kinds = []) (hopt : ∀ d, c ≠ .opt d)
    (stored : Bool) : x.readAt stored c = y.readAt stored c := by
  have hrecord : SameRecord c.slots c.single x y := by
    refine h.record (fun ms => ?_) fun items i shape hshape => ?_
    · rw [Shape.schemas, Category.schemas_single hc hopt]
      exact List.mem_singleton_self _
    · rw [Shape.items, Category.items_single hc hopt]
      exact hshape
  obtain ⟨ps, ps', hps, hps'⟩ := h.parts? stored
  rw [Json.readAt_parts? hps, Json.readAt_parts? hps', readParts_plain hc hopt,
    readParts_plain hc hopt, Parts.fields_parts? _ hps, Parts.fields_parts? _ hps']
  have hread (json : Json) : ((asRecord c.slots json).map (Fields.of stored) >>=
      fun fs => readParts (.object fs) c) =
        (asRecord c.slots json >>= fun ms => readParts (.object (.of stored ms)) c) :=
    Option.bind_map ..
  rw [hread, hread]
  exact hrecord.asRecord (readParts_single hc hopt)

/-- **A node is read alike from values that are alike to its category.** -/
theorem readAt_congr (h : (Shape.node c).Alike x y) (stored : Bool) :
    x.readAt stored c = y.readAt stored c := by
  induction c with
  | opt c ih =>
    have hinner : (Shape.node c).Alike x y := by
      cases h with
      | object hagree => exact .object hagree
      | array hreadable hsame => exact .array hreadable hsame
    obtain ⟨ps, ps', hps, hps'⟩ := h.parts? stored
    have hnode := ih hinner
    rw [Json.readAt_parts? hps, Json.readAt_parts? hps'] at hnode ⊢
    rw [readParts, readParts, hnode]
  | _ =>
    first
    | exact readAt_chain h (by decide) stored
    | exact readAt_single h rfl (by rintro d ⟨⟩) stored

end Nodes

/-! ### All shapes -/

section Arrays

variable {front back : List Json} {a b : Json}

theorem canonicalItems_congr (h : a.canonical = b.canonical) :
    canonicalItems (front ++ a :: back) = canonicalItems (front ++ b :: back) := by
  induction front with
  | nil => rw [List.nil_append, List.nil_append, canonicalItems, canonicalItems, h]
  | cons item front ih =>
    rw [List.cons_append, List.cons_append, canonicalItems, canonicalItems, ih]

theorem readItems_cons {stored : Bool} {c : Category} {item : Json} {items : List Json} :
    Json.readItems (item :: items) stored c = (do
      let n ← item.readAt stored c
      let ns ← Json.readItems items stored c
      return .cons n ns) := by
  rw [Json.readItems]

theorem readItems_congr {stored : Bool} {c : Category} (h : a.readAt stored c = b.readAt stored c) :
    Json.readItems (front ++ a :: back) stored c =
      Json.readItems (front ++ b :: back) stored c := by
  induction front with
  | nil => rw [List.nil_append, List.nil_append, readItems_cons, readItems_cons, h]
  | cons item front ih =>
    rw [List.cons_append, List.cons_append, readItems_cons, readItems_cons, ih]

end Arrays

section Shapes

variable {s : Shape} {x y : Json}

/-- Declarations and expressions behind `export default`. -/
theorem DefaultDecl.ofJson?_congr (h : Shape.defaultDecl.Alike x y) (stored : Bool) :
    DefaultDecl.ofJson? stored x = DefaultDecl.ofJson? stored y := by
  have hsame : SameTagged DefaultDecl.kinds (kindOf true DefaultDecl.kinds) Schema.defaultDecl x y :=
    h.tagged (fun _ _ hmem => hmem) fun _ _ _ hmem => hmem
  obtain ⟨ps, ps', hps, hps'⟩ := h.parts? stored
  rw [DefaultDecl.ofJson?, DefaultDecl.ofJson?, hps, hps']
  change ps.byKind _ _ = ps'.byKind _ _
  rw [Parts.byKind_parts? _ hps, Parts.byKind_parts? _ hps']
  exact DefaultDecl.readsKinds.readTagged hsame stored

theorem ModuleDecl.ofJson?_congr (h : s.Alike x y) (stored : Bool)
    (hsame : SameTagged ModuleDecl.kinds (kindOf true ModuleDecl.kinds) Schema.moduleDecl x y) :
    ModuleDecl.ofJson? stored x = ModuleDecl.ofJson? stored y := by
  obtain ⟨ps, ps', hps, hps'⟩ := h.parts? stored
  rw [ModuleDecl.ofJson?, ModuleDecl.ofJson?, hps, hps']
  change ps.byKind _ _ = ps'.byKind _ _
  rw [Parts.byKind_parts? _ hps, Parts.byKind_parts? _ hps']
  exact ModuleDecl.readsKinds.readTagged hsame stored

theorem ModuleItem.ofJson?_congr (h : Shape.moduleItem.Alike x y) :
    ModuleItem.ofJson? x = ModuleItem.ofJson? y := by
  have hdecl : SameTagged ModuleDecl.kinds (kindOf true ModuleDecl.kinds) Schema.moduleDecl x y := by
    refine h.tagged (fun ms schema hschema => ?_) fun items i shape hshape => ?_
    · rcases List.mem_cons.mp hschema with rfl | hselected
      · exact List.mem_append_right _ List.mem_cons_self
      · exact List.mem_append_left _ hselected
    · exact List.mem_append_left _ hshape
  have hstmt : (Shape.node .stmt).Alike x y := by
    cases h with
    | object hagree => exact .object fun schema hmem => hagree schema (List.mem_append_right _ hmem)
    | array hreadable hsame =>
      exact .array hreadable fun shape hmem => hsame shape (List.mem_append_right _ hmem)
  rw [ModuleItem.ofJson?, ModuleItem.ofJson?, h.isReadable, ModuleDecl.ofJson?_congr h true hdecl,
    readAt_congr hstmt]

theorem Shape.Alike.nodeOf {c : Category} {kind : NodeKind} (h : (Shape.nodeOf c kind).Alike x y)
    (stored : Bool) : (Shape.nodeOf c kind).read stored x = (Shape.nodeOf c kind).read stored y := by
  have hrecord : SameRecord kind.slots (c.schema kind) x y :=
    h.ofSchema (fun _ => rfl) fun _ _ => rfl
  refine hrecord.asRecord fun hagree => ?_
  by_cases hkind : kind ∈ c.kinds
  · exact Category.table_congr kind hkind hagree
  · exact (Category.table_eq_none hkind).trans (Category.table_eq_none hkind).symm

/-- **Values that are alike to a shape are read alike.** -/
theorem Shape.Alike.sameReading (h : s.Alike x y) : s.SameReading x y := by
  intro stored
  induction s with
  | ignored => rfl
  | scalar =>
    cases h with
    | object _ | array _ _ => rfl
  | token =>
    cases h with
    | object hagree => exact congrArg some (SameRest.of_everything hagree).sole
    | array _ _ => rfl
  | kept =>
    cases h with
    | object hagree =>
      exact congrArg (fun ms => some (Json.obj ms)) (SameRest.of_everything hagree).sorted
    | @array _ _ a b _ hsame =>
      have hitem : a.canonical = b.canonical :=
        Option.some.inj (hsame .kept (List.mem_singleton_self _) true)
      exact congrArg (fun items => some (Json.arr items)) (canonicalItems_congr hitem)
  | nodes c =>
    cases h with
    | object _ => rfl
    | array _ hsame => exact readItems_congr (hsame (.node c) (List.mem_singleton_self _) stored)
  | list s =>
    cases h with
    | object _ => rfl
    | @array front back a b _ hsame =>
      have hitem : s.read stored a = s.read stored b :=
        hsame s (List.mem_singleton_self _) stored
      change (front ++ a :: back).mapM _ = (front ++ b :: back).mapM _
      rw [List.mapM_append, List.mapM_append, List.mapM_cons, List.mapM_cons, hitem]
  | nullable s ih =>
    have hinner : s.Alike x y := by
      cases h with
      | object hagree => exact .object hagree
      | array hreadable hsame => exact .array hreadable hsame
    have hread := congrArg (Option.map some) (ih hinner)
    cases h with
    | object _ | array _ _ => exact hread
  | node c => exact readAt_congr h stored
  | attrName =>
    have hsame : SameTagged _ _ _ x y := h.tagged (fun _ _ hmem => hmem) fun _ _ _ hmem => hmem
    exact JsxAttrName.readsKinds.readTagged hsame stored
  | importSpecifier =>
    have hsame : SameTagged _ _ _ x y := h.tagged (fun _ _ hmem => hmem) fun _ _ _ hmem => hmem
    exact ImportSpecifier.readsKinds.readTagged hsame stored
  | exportSpecifier =>
    have hsame : SameTagged _ _ _ x y := h.tagged (fun _ _ hmem => hmem) fun _ _ _ hmem => hmem
    exact ExportSpecifier.readsKinds.readTagged hsame stored
  | program =>
    have hsame : SameTagged _ _ _ x y := h.tagged (fun _ _ hmem => hmem) fun _ _ _ hmem => hmem
    exact Program.readsKinds.readTagged hsame false
  | defaultDecl => exact DefaultDecl.ofJson?_congr h stored
  | moduleDecl =>
    exact ModuleDecl.ofJson?_congr h stored
      (h.tagged (fun _ _ hmem => hmem) fun _ _ _ hmem => hmem)
  | moduleItem => exact ModuleItem.ofJson?_congr h
  | nodeOf c kind => exact h.nodeOf stored
  | importOf kind =>
    exact (h.ofSchema (fun _ => rfl) fun _ _ => rfl).asRecord ImportSpecifier.ofKind?_congr
  | exportOf kind =>
    exact (h.ofSchema (fun _ => rfl) fun _ _ => rfl).asRecord ExportSpecifier.ofKind?_congr
  | moduleDeclOf kind =>
    exact (h.ofSchema (fun _ => rfl) fun _ _ => rfl).asRecord ModuleDecl.ofKind?_congr
  | programOf kind =>
    exact (h.ofSchema (fun _ => rfl) fun _ _ => rfl).asRecord Program.ofKind?_congr
  | typedOf form =>
    exact (h.ofSchema (fun _ => rfl) fun _ _ => rfl).asRecord Read.typed_congr
  | _ =>
    refine (h.ofSchema (fun _ => rfl) fun _ _ => rfl).asRecord fun hagree => ?_
    simp (disch := decide) only [Opaque.ofMembers?, Ident.ofMembers?, PrivateName.ofMembers?,
      StringLit.ofMembers?, Quasi.ofMembers?, JsxFragmentTag.ofMembers?, hagree.required,
      hagree.defaulted, hagree.defaultedAny, hagree.optional, hagree.spanOf, hagree.restOf]

end Shapes

end EcmaPrinter
