/-
# Only known keys are read

The members of an object may stand in any order, and an object may have members that nobody asks
for. Neither shows in what is read of it: not where the object is stored first and read at one
category after the other, not where a function or a class takes its members from an object that
has others besides, and at no depth (`TreeType.only_known_keys_are_read`).

An array that stands for an object is covered in so far as its items are: they are read as the
members whose places they have.

Which members nobody asks for is told by the schemas of an object. Where its kind is spelled there
is one (`Category.schemas_spelled`). Where its kind is given by a number there may be several,
and a member that is not in the schema of the node that is read may make it another node
(`TreeType.numbered_kind_reads_other_keys`).

Key definitions: `Shape.Edit`, `TreeType.shape`.
Key theorems: `Category.schemas_spelled`, `Shape.Edit.sameReading`,
`TreeType.only_known_keys_are_read`.
-/
import EcmaPrinter.Proofs.Tree.Alike
import Mathlib.Logic.Relation

namespace EcmaPrinter

open Json

/-! ### Edits -/

/-- A value is changed in a way that should not show where it is read as a certain shape: the
members of an object are reordered, a readable member is added that none of the schemas of the
object has and that is not kept, or a part of the value is changed in such a way, a member of an
object or an item of an array. What is a part of the value may be read as more than one shape. -/
inductive Shape.Edit : Shape → Json → Json → Prop where
  | reorder {s : Shape} {ms ms' : List (String × Json)} :
      ms.Perm ms' → Edit s (.obj ms) (.obj ms')
  | extra {s : Shape} {front back : List (String × Json)} {key : String} {value : Json} :
      (∀ schema ∈ s.schemas (front ++ back), schema.keepsRest = false ∧ key ∉ schema.keys) →
      value.isReadable = true →
      Edit s (.obj (front ++ back)) (.obj (front ++ (key, value) :: back))
  | member {s : Shape} {front back : List (String × Json)} {key : String} {a b : Json} :
      (∀ schema ∈ s.schemas (front ++ (key, a) :: back), ∀ shape ∈ schema.shapes key,
        Edit shape a b) →
      Edit s (.obj (front ++ (key, a) :: back)) (.obj (front ++ (key, b) :: back))
  | item {s : Shape} {front back : List Json} {a b : Json} :
      (∀ shape ∈ s.items (front ++ a :: back) front.length, Edit shape a b) →
      Edit s (.arr (front ++ a :: back)) (.arr (front ++ b :: back))

/-- Another order at any depth is an edit of whatever is read. -/
theorem Shape.Edit.of_reordered {a b : Json} (h : a.Reordered b) (s : Shape) : s.Edit a b := by
  induction h generalizing s with
  | members hperm => exact .reorder hperm
  | member _ ih => exact .member fun _ _ shape _ => ih shape
  | item _ ih => exact .item fun shape _ => ih shape

/-! ### Objects that spell their kind -/

namespace Category

theorem chain_single {c : Category} (hc : c.kinds = []) : c.chain = [c] := by
  cases c <;> first | rfl | cases hc

/-- Of the categories at which an object is tried, those that have a kind give it one schema. -/
theorem schema_eq {c : Category} : ∀ d ∈ c.chain, ∀ e ∈ c.chain, ∀ kind ∈ d.kinds,
    kind ∈ e.kinds → d.schema kind = e.schema kind := by
  cases c with
  | opt c =>
    rintro d hd e he kind hkind
    rw [List.mem_singleton.mp hd] at hkind
    cases hkind
  | _ => decide

/-- **A kind that is spelled selects one schema.** -/
theorem schemas_spelled {c : Category} (d : Category) (kind : NodeKind)
    {ms : List (String × Json)}
    (htype : find ["type"] ms = .once (.str kind.text)) (hd : d ∈ c.chain)
    (hkind : kind ∈ d.kinds) :
    ∀ schema ∈ c.schemas ms, schema = .tag ∨ schema = (d.schema kind).tagged := by
  have hc : c.kinds ≠ [] := by
    rintro hc
    rw [chain_single hc, List.mem_singleton] at hd
    rw [hd, hc] at hkind
    cases hkind
  rw [schemas_eq hc, List.forall_mem_cons]
  refine ⟨.inl rfl, fun schema hschema => ?_⟩
  obtain ⟨e, he, hselected⟩ := List.mem_flatMap.mp hschema
  have hkindAt : required ms "type" (kindOf true e.kinds) = some kind := by
    rw [required, htype]
    exact kindOf_text true e.kinds kind
  rw [selected, hkindAt] at hselected
  split at hselected
  · rename_i k hk
    obtain rfl := Option.some.inj hk
    split at hselected
    · rename_i hmem
      rw [List.mem_singleton.mp hselected, schema_eq d hd e he kind hkind hmem]
      exact .inr rfl
    · cases hselected
  · cases hselected

end Category

/-- What is not in the schema of a kind that is spelled can be added. -/
theorem Shape.Edit.extra_of_spelled {c : Category} (d : Category) (kind : NodeKind)
    {front back : List (String × Json)} {key : String} {value : Json}
    (htype : find ["type"] (front ++ back) = .once (.str kind.text)) (hd : d ∈ c.chain)
    (hkind : kind ∈ d.kinds) (hkeeps : (d.schema kind).keepsRest = false)
    (hkey : key ∉ (d.schema kind).tagged.keys) (hvalue : value.isReadable = true) :
    Shape.Edit (.node c) (.obj (front ++ back)) (.obj (front ++ (key, value) :: back)) := by
  refine .extra (fun schema hschema => ?_) hvalue
  rcases Category.schemas_spelled d kind htype hd hkind schema hschema with rfl | rfl
  · exact ⟨rfl, fun hmem => hkey (List.mem_append_left _ hmem)⟩
  · exact ⟨hkeeps, hkey⟩

/-! ### Parts that are edited -/

theorem Schema.exists_mem_shapes (schema : Schema) (key : String) :
    ∃ shape, shape ∈ schema.shapes key := by
  rw [shapes]
  split
  · rename_i hkey
    obtain ⟨field, hfield, hmem⟩ := List.mem_flatMap.mp (List.contains_iff_mem.mp hkey)
    refine ⟨field.2, List.mem_map.mpr ⟨field, List.mem_filter.mpr ⟨hfield, ?_⟩, rfl⟩⟩
    exact List.contains_iff_mem.mpr hmem
  · exact ⟨_, List.mem_singleton_self _⟩

/-- What an edited member is read as. -/
theorem Shape.exists_mem_shapes (s : Shape) (ms : List (String × Json)) (key : String) :
    ∃ schema ∈ s.schemas ms, ∃ shape, shape ∈ schema.shapes key := by
  obtain ⟨schema, hschema⟩ := s.exists_mem_schemas ms
  exact ⟨schema, hschema, schema.exists_mem_shapes key⟩

/-- What an edited item is read as. -/
theorem Shape.exists_mem_items (s : Shape) (items : List Json) (i : Nat) :
    ∃ shape, shape ∈ s.items items i := by
  have htagged (behind : Nat → List Shape) : ∃ shape, shape ∈ taggedAt behind i := by
    cases i with
    | zero => exact ⟨_, List.mem_singleton_self _⟩
    | succ i => exact ⟨_, List.mem_cons_self⟩
  have hat (schema : Schema) (slots : Option (List Slot)) :
      ∃ shape, shape ∈ schema.shapesAt slots i := by
    unfold Schema.shapesAt
    split
    · exact schema.exists_mem_shapes _
    · exact ⟨_, List.mem_singleton_self _⟩
  have hcategory (c : Category) : ∃ shape, shape ∈ c.items items i := by
    induction c with
    | opt c ih => exact ih
    | _ =>
      first
      | exact htagged _
      | rw [Category.items_single rfl (by rintro d ⟨⟩)]
        exact hat _ _
  induction s with
  | kept | nodes | list => exact ⟨_, List.mem_singleton_self _⟩
  | nullable s ih => exact ih
  | node c => exact hcategory c
  | moduleItem =>
    obtain ⟨shape, hshape⟩ := hcategory .stmt
    exact ⟨shape, List.mem_append_right _ hshape⟩
  | _ =>
    first
    | exact htagged _
    | obtain ⟨shape, hshape⟩ := hat _ _
      exact ⟨shape, List.mem_flatMap.mpr ⟨_, List.mem_singleton_self _, hshape⟩⟩

/-- What is readable stays so. -/
theorem Shape.Edit.isReadable {s : Shape} {a b : Json} (h : s.Edit a b) :
    a.isReadable = b.isReadable := by
  induction h with
  | reorder hperm => exact membersReadable_of_perm hperm
  | @extra s front back key value hunknown hvalue =>
    change membersReadable _ = membersReadable _
    rw [membersReadable_append, membersReadable_append, membersReadable, hvalue, Bool.true_and]
  | @member s front back key a b hedit ih =>
    obtain ⟨schema, hschema, shape, hshape⟩ := s.exists_mem_shapes (front ++ (key, a) :: back) key
    change membersReadable _ = membersReadable _
    rw [membersReadable_append, membersReadable_append, membersReadable, membersReadable,
      ih schema hschema shape hshape]
  | @item s front back a b hedit ih =>
    obtain ⟨shape, hshape⟩ := s.exists_mem_items (front ++ a :: back) front.length
    change itemsReadable _ = itemsReadable _
    rw [itemsReadable_append, itemsReadable_append, itemsReadable, itemsReadable,
      ih shape hshape]

/-! ### Edits do not show -/

/-- **An edit does not show in what is read.** -/
theorem Shape.Edit.sameReading {s : Shape} {a b : Json} (h : s.Edit a b)
    (hkeys : a.hasDistinctKeys = true) : s.SameReading a b := by
  induction h with
  | reorder hperm =>
    exact Alike.sameReading (.object fun _ _ => .of_perm hperm (nodup_of_hasDistinctKeys hkeys))
  | extra hunknown hvalue =>
    exact Alike.sameReading (.object fun schema hschema =>
      .of_extra (hunknown schema hschema).1 (hunknown schema hschema).2 hvalue)
  | @member s front back key a b hedit ih =>
    have ha : a.hasDistinctKeys = true := hasDistinctKeys_of_mem hkeys
      (List.mem_append_right front (List.mem_cons_self (a := (key, a))))
    have hreadable : a.isReadable = b.isReadable := by
      obtain ⟨schema, hschema, shape, hshape⟩ := s.exists_mem_shapes (front ++ (key, a) :: back) key
      exact (hedit schema hschema shape hshape).isReadable
    exact Alike.sameReading (.object fun schema hschema =>
      .of_member hreadable fun shape hshape => ih schema hschema shape hshape ha)
  | @item s front back a b hedit ih =>
    have ha : a.hasDistinctKeys = true :=
      itemsDistinct_iff.mp hkeys a (List.mem_append_right front List.mem_cons_self)
    have hreadable : a.isReadable = b.isReadable := by
      obtain ⟨shape, hshape⟩ := s.exists_mem_items (front ++ a :: back) front.length
      exact (hedit shape hshape).isReadable
    exact Alike.sameReading (.array hreadable fun shape hshape => ih shape hshape ha)

namespace TreeType

/-- What a tree of a type is read as. -/
def shape : TreeType → Shape
  | .program => .program
  | .root kind => .programOf kind
  | .moduleItem => .moduleItem
  | .moduleDecl => .moduleDecl
  | .moduleDeclOf kind _ => .moduleDeclOf kind
  | .defaultDecl => .defaultDecl
  | .importSpecifier => .importSpecifier
  | .importOf kind => .importOf kind
  | .exportSpecifier => .exportSpecifier
  | .exportOf kind => .exportOf kind
  | .node c => .node c
  | .nodeOf c kind _ => .nodeOf c kind
  | .typedOf form => .typedOf form
  | .payload => .payload
  | .quasi => .quasi
  | .jsxAttrName => .attrName
  | .jsxFragmentTag => .fragmentTag

/-- Two values are read alike as trees of a type if they are read alike as its shape. -/
theorem read_eq_of_sameReading {t : TreeType} {a b : Json} (h : t.shape.SameReading a b) :
    t.read a = t.read b := by
  have hread := h false
  cases t <;> exact hread

/-- **Only known keys are read.** -/
theorem only_known_keys_are_read (t : TreeType) {a b : Json}
    (h : Relation.EqvGen
      (fun a b => a.hasDistinctKeys = true ∧ (a.Reordered b ∨ t.shape.Edit a b)) a b) :
    t.read a = t.read b := by
  induction h with
  | rel a b hstep =>
    obtain ⟨hkeys, hreordered | hedit⟩ := hstep
    · exact read_eq_of_sameReading ((Shape.Edit.of_reordered hreordered t.shape).sameReading hkeys)
    · exact read_eq_of_sameReading (hedit.sameReading hkeys)
  | refl a => rfl
  | symm a b _ ih => exact ih.symm
  | trans a b c _ _ hab hbc => exact hab.trans hbc

/-- A function declaration without its body. -/
def functionHead : List (String × Json) :=
  [("type", .str "FunctionDeclaration"), ("ident", .obj [("value", .str "f")])]

def emptyBody : Json := .obj [("stmts", .arr [])]

/-- A body with a kind, which it does not need in its place. -/
def taggedBody : Json := .obj [("stmts", .arr []), ("type", .str "BlockStatement")]

theorem function_read_in_any_order :
    (node .stmt).read (.obj (functionHead ++ [("note", .int 1), ("body", emptyBody)])) =
      (node .stmt).read (.obj (functionHead ++ [("body", taggedBody)]).reverse) ∧
    ((node .stmt).read (.obj (functionHead ++ [("body", taggedBody)]).reverse)).isSome = true := by
  have hnote : Shape.Edit (.node .stmt) (.obj (functionHead ++ [("body", emptyBody)]))
      (.obj (functionHead ++ ("note", .int 1) :: [("body", emptyBody)])) :=
    .extra_of_spelled .decl .functionDeclaration rfl (by decide) (by decide) rfl (by decide) rfl
  have htag (s : Shape) (hs : s = .ignored ∨ s = .node (.opt .block)) :
      s.Edit (.obj ([("stmts", .arr [])] ++ []))
        (.obj ([("stmts", .arr [])] ++ ("type", .str "BlockStatement") :: [])) := by
    refine .extra (fun schema hschema => ?_) rfl
    rcases hs with rfl | rfl <;> rw [List.mem_singleton.mp hschema] <;> decide
  have hbody : Shape.Edit (.node .stmt) (.obj (functionHead ++ [("body", emptyBody)]))
      (.obj (functionHead ++ [("body", taggedBody)])) := by
    refine .member fun schema hschema s hs => htag s ?_
    rcases Category.schemas_spelled .decl .functionDeclaration rfl (by decide) (by decide)
      schema hschema with rfl | rfl
    · exact .inl (List.mem_singleton.mp hs)
    · exact .inr (List.mem_singleton.mp hs)
  refine ⟨only_known_keys_are_read (node .stmt) ?_, rfl⟩
  exact .trans _ _ _ (.symm _ _ (.rel _ _ ⟨rfl, .inr hnote⟩))
    (.trans _ _ _ (.rel _ _ ⟨rfl, .inr hbody⟩)
      (.rel _ _ ⟨rfl, .inl (.members (List.reverse_perm _).symm)⟩))

/-- **A kind that is given by a number may select another one.** Among the expressions and among
the patterns the number 0 stands for `this` and for a name, and a pattern may be either. An object
that has nothing but this number is read as `this`, which has no member `value`; with that member
it is read as a name. -/
theorem numbered_kind_reads_other_keys :
    ¬ ∀ (c : Category) (ms : List (String × Json)) (key : String) (value : Json) (n : Node c)
      (kind : NodeKind),
      (Json.obj (ms ++ [(key, value)])).hasDistinctKeys = true → value.isReadable = true →
      (Json.obj ms).read c = some n → (Node.record? n).bind Record.kind = some kind →
      (∀ d ∈ c.chain, kind ∈ d.kinds →
        (d.schema kind).keepsRest = false ∧ key ∉ (d.schema kind).tagged.keys) →
      (Json.obj (ms ++ [(key, value)])).read c = some n := by
  intro h
  have hnumbered := h .pattern [("type", .int 0)] "value" (.str "a")
    (.exprPattern (.this Span.dummy)) .thisExpression rfl rfl rfl rfl (by decide)
  cases hnumbered

end TreeType

end EcmaPrinter
