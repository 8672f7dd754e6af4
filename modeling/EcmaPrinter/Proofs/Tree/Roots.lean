/-
# Programs are read back

A program, a module item, an import or export, or one of their parts whose leaves are such
as are read is written as a value that is read again, as the same thing unless an
expression in it is wrapped where its category has a node of its own. What is read has such
leaves.

What is told apart by a kind is shown by its members: a table makes of the members that a
thing is written as, with the kind that it is written with, the thing or what it is reread
as (`MembersReread`). Objects with a kind and objects whose place says what they are follow
from that (`Rereads`).

Key definitions: `Rereads`, `MembersReread`, `Program.isKept`.
Key theorems: `Node.rereads`, `ModuleDecl.membersReread`, `ModuleItem.rereads`,
`Program.rereads`, `Program.gives_ofJson?`.
-/
import EcmaPrinter.Proofs.Tree.Decoded
import EcmaPrinter.Proofs.Tree.Reread

namespace EcmaPrinter

open Json

/-! ### Values and members that are read back -/

/-- A value can be written, and is read as something that is `x` if and only if `x` is
settled, as part of a stored object or not. -/
structure Rereads {α : Type} (read : Bool → Json → Option α) (json : Json) (settled : Bool)
    (x : α) : Prop where
  sound : json.isSound = true
  read : ∃ x', (∀ stored, read stored json = some x') ∧ (x' = x ↔ settled = true)

/-- Members can be written beside a kind, and are read as something that is `x` if and only
if `x` is settled. -/
structure MembersReread {α : Type} (ms : List (String × Json)) (read : Fields → Option α)
    (settled : Bool) (x : α) : Prop where
  type : hasKey ms "type" = false
  sound : membersSound ms = true
  read : ∃ x', (∀ stored, read (.of stored ms) = some x') ∧ (x' = x ↔ settled = true)

section ReadBack

variable {α : Type} {ms : List (String × Json)} {settled : Bool} {x : α}

/-- A list whose items are read back. -/
theorem Rereads.list {read : Bool → Json → Option α} {write : α → Json} {settled : α → Bool} :
    ∀ {xs : List α}, (∀ x ∈ xs, Rereads read (write x) (settled x) x) →
      Rereads (fun stored => asList (read stored)) (.arr (xs.map write)) (xs.all settled) xs
  | [], _ => ⟨rfl, [], fun _ => rfl, iff_of_true rfl rfl⟩
  | x :: xs, h => by
    obtain ⟨hfirst, hrest⟩ := List.forall_mem_cons.mp h
    obtain ⟨hsounds, xs', hreads, hsettleds⟩ := Rereads.list hrest
    obtain ⟨hsound, x', hread, hsettled⟩ := hfirst
    refine ⟨Bool.and_eq_true_iff.mpr ⟨hsound, hsounds⟩, x' :: xs', fun stored => ?_, ?_⟩
    · have htail : (xs.map write).mapM (read stored) = some xs' := hreads stored
      rw [List.map_cons, asList, List.mapM_cons, hread, htail]
      rfl
    · rw [List.cons.injEq, List.all_cons, Bool.and_eq_true, hsettled, hsettleds]

/-- A list whose items are read back as they are. -/
theorem Rereads.list_eq {read : Bool → Json → Option α} {write : α → Json} {xs : List α}
    (h : ∀ x ∈ xs, Rereads read (write x) true x) :
    (Json.arr (xs.map write)).isSound = true ∧
      ∀ stored, asList (read stored) (.arr (xs.map write)) = some xs := by
  obtain ⟨hsound, xs', hread, hsettled⟩ := Rereads.list h
  have hall : xs' = xs := hsettled.mpr (List.all_eq_true.mpr fun _ _ => rfl)
  subst hall
  exact ⟨hsound, hread⟩

theorem Rereads.at {read : Bool → Json → Option α} {json : Json} (h : Rereads read json settled x)
    (stored : Bool) : Rereads (fun _ => read stored) json settled x := by
  obtain ⟨hsound, x', hread, hsettled⟩ := h
  exact ⟨hsound, x', fun _ => hread stored, hsettled⟩

/-- Members that are read as what was written. -/
theorem MembersReread.self {read : Fields → Option α} (htype : hasKey ms "type" = false)
    (hsound : membersSound ms = true) (hread : ∀ stored, read (.of stored ms) = some x) :
    MembersReread ms read true x :=
  ⟨htype, hsound, x, hread, iff_of_true rfl rfl⟩

theorem Record.toJson_eq {r : Record} {kind : NodeKind} (h : r.kind = some kind) :
    r.toJson = .obj (("type", .str kind.text) :: r.members) := by
  rw [Record.toJson, h]

/-- A record that is read by its kind. -/
theorem MembersReread.byKind {r : Record} {kinds : List NodeKind}
    {table : NodeKind → Fields → Option α} {kind : NodeKind} (hr : r.kind = some kind)
    (h : MembersReread r.members (table kind) settled x) :
    Rereads (fun stored json => json.parts? stored >>= fun ps => ps.byKind kinds table) r.toJson
      settled x := by
  obtain ⟨x', hread, hsettled⟩ := h.read
  rw [Record.toJson_eq hr]
  refine ⟨h.sound, x', fun stored => ?_, hsettled⟩
  exact (Fields.byKind_of h.type h.sound).trans (hread true)

/-- Members by themselves, in a place that says what they are. -/
theorem MembersReread.bare {slots : Option (List Slot)} {read : Fields → Option α}
    (h : MembersReread ms read settled x) :
    Rereads (fun _ json => asRecord slots json >>= fun ms => read (fields ms)) (.obj ms) settled
      x := by
  obtain ⟨x', hread, hsettled⟩ := h.read
  exact ⟨h.sound, x', fun _ => hread false, hsettled⟩

theorem MembersReread.bareMembers {slots : Option (List Slot)}
    {read : List (String × Json) → Option α}
    (h : MembersReread ms (fun fs => read fs.plain) settled x) :
    Rereads (fun _ json => asRecord slots json >>= read) (.obj ms) settled x := by
  obtain ⟨x', hread, hsettled⟩ := h.read
  refine ⟨h.sound, x', fun _ => ?_, hsettled⟩
  have hplain := hread false
  rwa [Fields.plain_of] at hplain

/-- A record that is read by its kind without being a node. -/
theorem MembersReread.untagged {r : Record} {kindOf' : Bool → Json → Option NodeKind}
    {kind : NodeKind} {read : NodeKind → List (String × Json) → Option α}
    (hr : r.kind = some kind) (h : MembersReread r.members (fun fs => read kind fs.plain) settled x)
    (hkind : ∀ stored, kindOf' stored (.str kind.text) = some kind) :
    Rereads (fun stored json => readTagged stored (kindOf' stored) read json) r.toJson settled
      x := by
  obtain ⟨x', hread, hsettled⟩ := h.read
  rw [Record.toJson_eq hr]
  refine ⟨h.sound, x', fun stored => ?_, hsettled⟩
  have hplain := hread false
  rw [Fields.plain_of] at hplain
  exact (readTagged_obj h.type h.sound (hkind stored)).trans hplain

end ReadBack

/-! ### Values that are given -/

section Given

variable {spelled : Bool} {ms : List (String × Json)} {key : String}

/-- A list that is read from a value that is given. -/
theorem gives_list {α : Type} {P : α → Prop} {read : Json → Option α}
    (h : (Json.obj ms).IsGiven spelled)
    (hread : ∀ json : Json, json.IsGiven spelled → Gives P (read json)) :
    Gives (fun xs => ∀ x ∈ xs, P x) (defaulted ms key [] (asList read)) := by
  refine gives_defaulted (List.forall_mem_nil _) fun json hmem => ?_
  refine gives_asList fun items hitems item hitem => hread item ?_
  have hjson := h.member hmem
  rw [hitems] at hjson
  exact hjson.item hitem

/-- What stands beside the tag of a value that is given is given. -/
theorem gives_beside {json : Json} {stored : Bool} {ps : Parts} (h : json.IsGiven spelled)
    (hps : json.parts? stored = some ps) (kind : NodeKind) :
    Gives (fun fs => ∃ ms, fs = .of true ms ∧ (Json.obj ms).IsGiven spelled ∧
      hasKey ms "type" = false) (ps.beside kind) := by
  cases json with
  | obj ms =>
    rw [← Option.some.inj hps]
    have hbeside : (Parts.object ⟨stored, readMembers ms⟩).beside kind =
        (Fields.of stored (ms.filter fun m => !(List.contains ["type"] m.1))).store :=
      congrArg Fields.store Fields.without_of
    rw [hbeside]
    refine gives_ite (fun _ => gives_some.mpr ⟨_, rfl, ?_, ?_⟩) fun _ => gives_none
    · exact h.subset fun _ hm => (List.mem_filter.mp hm).1
    · exact hasKey_filter List.mem_cons_self
  | arr items =>
    rw [← Option.some.inj hps]
    have htail : (readings items).tail = readings items.tail := by cases items <;> rfl
    rw [Parts.beside, htail, Parts.store_readings]
    intro fs hfs
    obtain ⟨qs, hqs, hfields⟩ := Option.bind_eq_some_iff.mp hfs
    obtain ⟨rest, hrest, rfl⟩ := Option.map_eq_some_iff.mp hqs
    rw [storedItems, Option.ite_none_right_eq_some] at hrest
    cases hrest.2
    rw [Parts.fields_readings] at hfields
    obtain ⟨ms, hms, rfl⟩ := Option.map_eq_some_iff.mp hfields
    obtain ⟨slots, hslots, hplaced⟩ := Option.bind_eq_some_iff.mp hms
    have htype := kind.type_notMem_slots hslots
    refine ⟨ms, rfl, .placed (fun _ hmem => h.item (List.mem_of_mem_tail hmem)) htype hplaced, ?_⟩
    refine List.any_eq_false.mpr fun m hm hkey => htype ?_
    rw [← beq_iff_eq.mp hkey]
    exact mem_keys_of_place hplaced hm
  | _ => cases hps

/-- A value that is read by its kind. -/
theorem gives_byKind_of {α : Type} {P : α → Prop} {kinds : List NodeKind} {stored : Bool}
    {table : NodeKind → Fields → Option α} {json : Json} (h : json.IsGiven spelled)
    (htable : ∀ kind ms', (Json.obj ms').IsGiven spelled → hasKey ms' "type" = false →
      Gives P (table kind (.of true ms'))) :
    Gives P (json.parts? stored >>= fun ps => ps.byKind kinds table) := by
  refine gives_bind.mpr fun ps hps => ?_
  simp only [ps.byKind_eq, gives_bind]
  intro tag _ kind _ fs hfs
  obtain ⟨ms, rfl, hms, htype⟩ := gives_beside h hps kind fs hfs
  exact htable kind ms hms htype

/-- A value that is read by its kind without being a node. -/
theorem gives_untagged {α : Type} {P : α → Prop} {stored : Bool} {json : Json}
    {kindOf' : Json → Option NodeKind} {read : NodeKind → List (String × Json) → Option α}
    (h : json.IsGiven spelled)
    (hread : ∀ kind ms, (Json.obj ms).IsGiven spelled → Gives P (read kind ms)) :
    Gives P (readTagged stored kindOf' read json) := by
  intro x hx
  obtain ⟨kind, ms, hvalue, ⟨all, rfl, rfl⟩ | ⟨tag, items, rfl, hms⟩⟩ := readTagged_cases hx
  · exact hread kind _ (h.subset fun _ hm => (List.mem_filter.mp hm).1) x hvalue
  · obtain ⟨slots, hslots, hplaced⟩ := Option.bind_eq_some_iff.mp hms
    have htype := kind.type_notMem_slots hslots
    have hitems (item : Json) (hitem : item ∈ items) : item.IsGiven spelled :=
      h.item (List.mem_cons_of_mem _ hitem)
    exact hread kind ms (.placed hitems htype hplaced) x hvalue

end Given

/-! ### Nodes -/

theorem Node.rereads {c : Category} {n : Node c} (h : n.every Node.isKept = true) :
    Rereads (fun stored json => json.readAt stored c) n.toJson (n.every Node.isSettled) n :=
  have hreturns := n.returns h
  ⟨hreturns.sound, n.reread, hreturns.read, hreturns.settled⟩

namespace Node.IsRead

variable {spelled : Bool} {c : Category} {n : Node c}

theorem kept (h : n.IsRead spelled) : n.every Node.isKept = true :=
  n.every_mono (fun _ hm => (Bool.and_eq_true_iff.mp hm).1) h

theorem settled (h : n.IsRead spelled) (hspelled : spelled = true) :
    n.every Node.isSettled = true := by
  subst hspelled
  refine n.every_mono (fun m hm => ?_) h
  have hsettled := (Bool.and_eq_true_iff.mp hm).2
  rwa [Bool.not_true, Bool.or_false] at hsettled

end Node.IsRead

/-! ### Specifiers -/

section Specifiers

variable {spelled stored : Bool} {ms : List (String × Json)} {json : Json} {kind : NodeKind}

namespace ImportSpecifier

/-- The names of a specifier are such as are read. -/
def isKept : ImportSpecifier → Bool
  | .named _ binding imported => binding.isKept && imported.all Ident.isKept
  | .default _ binding | .star _ binding => binding.isKept

theorem membersReread {s : ImportSpecifier} (hkind : s.record.kind = some kind)
    (h : s.isKept = true) :
    MembersReread s.record.members (fun fs => ofKind? kind fs.plain) true s := by
  cases s with
  | named span binding imported =>
    cases hkind
    obtain ⟨hbinding, himported⟩ := Bool.and_eq_true_iff.mp h
    exact .self (by simp [record]) (by simp [record, hbinding, himported])
      fun stored => by simp [record, ofKind?, hbinding, himported]
  | default span binding | star span binding =>
    cases hkind
    have hbinding : binding.isKept = true := h
    exact .self (by simp [record]) (by simp [record, hbinding])
      fun stored => by simp [record, ofKind?, hbinding]

theorem rereads {s : ImportSpecifier} (h : s.isKept = true) :
    Rereads ofJson? s.record.toJson true s := by
  obtain ⟨kind, hkind⟩ : ∃ kind, s.record.kind = some kind := by cases s <;> exact ⟨_, rfl⟩
  exact (membersReread hkind h).untagged hkind fun stored => kindOf_text stored kinds kind

theorem gives_ofKind? (h : everyMember isFitting ms = true) (kind : NodeKind) :
    Gives (fun s => s.record.kind = some kind ∧ s.isKept = true) (ofKind? kind ms) := by
  unfold ofKind?
  split
  · simp only [gives_bind, gives_pure]
    intro span _ binding hbinding imported himported
    exact ⟨rfl, Bool.and_eq_true_iff.mpr
      ⟨Ident.isKept_of_required h hbinding, Ident.isKept_of_optional h himported⟩⟩
  · simp only [gives_bind, gives_pure]
    exact fun span _ binding hbinding => ⟨rfl, Ident.isKept_of_required h hbinding⟩
  · simp only [gives_bind, gives_pure]
    exact fun span _ binding hbinding => ⟨rfl, Ident.isKept_of_required h hbinding⟩
  · exact gives_none

theorem gives_ofJson? (h : json.IsGiven spelled) :
    Gives (fun s => s.isKept = true) (ofJson? stored json) :=
  gives_untagged h fun kind _ hms => (gives_ofKind? hms.fits kind).mono fun _ hs => hs.2

end ImportSpecifier

namespace ExportSpecifier

def isKept : ExportSpecifier → Bool
  | .star _ name | .default _ name => name.isKept
  | .named _ source exported => source.isKept && exported.all Ident.isKept

theorem membersReread {s : ExportSpecifier} (hkind : s.record.kind = some kind)
    (h : s.isKept = true) :
    MembersReread s.record.members (fun fs => ofKind? kind fs.plain) true s := by
  cases s with
  | named span source exported =>
    cases hkind
    obtain ⟨hsource, hexported⟩ := Bool.and_eq_true_iff.mp h
    exact .self (by simp [record]) (by simp [record, hsource, hexported])
      fun stored => by simp [record, ofKind?, hsource, hexported]
  | default span name | star span name =>
    cases hkind
    have hname : name.isKept = true := h
    exact .self (by simp [record]) (by simp [record, hname])
      fun stored => by simp [record, ofKind?, hname]

/-- No kind is spelled like the misspelling. -/
theorem exportKindOf_text (stored : Bool) (kind : NodeKind) :
    exportKindOf stored (.str kind.text) = some kind := by
  unfold exportKindOf
  split
  · rename_i htext
    have hnone : NodeKind.ofText? "ExportNamespaceSpecifer" = none := by rfl
    rw [← Json.str.inj htext, NodeKind.ofText?_text] at hnone
    cases hnone
  · exact kindOf_text stored kinds kind

theorem rereads {s : ExportSpecifier} (h : s.isKept = true) :
    Rereads ofJson? s.record.toJson true s := by
  obtain ⟨kind, hkind⟩ : ∃ kind, s.record.kind = some kind := by cases s <;> exact ⟨_, rfl⟩
  exact (membersReread hkind h).untagged hkind fun stored => exportKindOf_text stored kind

theorem gives_ofKind? (h : everyMember isFitting ms = true) (kind : NodeKind) :
    Gives (fun s => s.record.kind = some kind ∧ s.isKept = true) (ofKind? kind ms) := by
  unfold ofKind?
  split
  · simp only [gives_bind, gives_pure]
    exact fun span _ name hname => ⟨rfl, Ident.isKept_of_required h hname⟩
  · simp only [gives_bind, gives_pure]
    exact fun span _ exported hexported => ⟨rfl, Ident.isKept_of_required h hexported⟩
  · simp only [gives_bind, gives_pure]
    intro span _ source hsource exported hexported
    exact ⟨rfl, Bool.and_eq_true_iff.mpr
      ⟨Ident.isKept_of_required h hsource, Ident.isKept_of_optional h hexported⟩⟩
  · exact gives_none

theorem gives_ofJson? (h : json.IsGiven spelled) :
    Gives (fun s => s.isKept = true) (ofJson? stored json) :=
  gives_untagged h fun kind _ hms => (gives_ofKind? hms.fits kind).mono fun _ hs => hs.2

end ExportSpecifier

end Specifiers

/-! ### Declarations -/

/-- A payload in a place that is told apart by a kind. -/
def Opaque.isKeptBesideKind (payload : Opaque) : Bool :=
  payload.isKept && !hasKey payload.rest "type"

section Declarations

variable {spelled stored : Bool} {ms : List (String × Json)} {json : Json} {kind : NodeKind}

theorem Opaque.isKeptBesideKind_of_ofMembers? (h : everyMember isFitting ms = true)
    (htype : hasKey ms "type" = false) {payload : Opaque}
    (hpayload : Opaque.ofMembers? ms = some payload) : payload.isKeptBesideKind = true := by
  obtain ⟨hkept, hrest⟩ := isKept_of_ofMembers? h htype hpayload
  rw [isKeptBesideKind, hkept, hrest]
  rfl

theorem Opaque.membersReread {α : Type} {payload : Opaque} {read : Fields → Option α} {x : α}
    (h : payload.isKeptBesideKind = true)
    (hread : ∀ fs, Opaque.ofMembers? fs.plain = some payload → read fs = some x) :
    MembersReread payload.members read true x := by
  obtain ⟨hkept, hrest⟩ := Bool.and_eq_true_iff.mp h
  refine .self ?_ (membersSound_members hkept) fun stored => hread _ ?_
  · rw [hasKey_members]
    simpa using hrest
  · rw [Fields.plain_of, ofMembers?_members hkept]

namespace DefaultDecl

/-- The leaves of a default declaration are such as are read. -/
def isKept : DefaultDecl → Bool
  | .klass c => c.every Node.isKept
  | .function f => f.every Node.isKept
  | .interface payload => payload.isKeptBesideKind

theorem membersReread {d : DefaultDecl} (hkind : d.record.kind = some kind)
    (h : d.isKept = true) :
    MembersReread d.record.members (ofKind? kind) (d.every Node.isSettled) d := by
  cases d with
  | klass k =>
    cases hkind
    have hreturns := k.returns h
    obtain ⟨htype, hsound, hobject⟩ := hreturns.flat rfl rfl
    refine ⟨htype, hsound, .klass k.reread, fun stored => ?_, ?_⟩
    · exact congrArg (Option.map klass) (hobject stored)
    · rw [klass.injEq]
      exact hreturns.settled
  | function f =>
    cases hkind
    have hreturns := f.returns h
    obtain ⟨htype, hsound, hobject⟩ := hreturns.flat rfl rfl
    refine ⟨htype, hsound, .function f.reread, fun stored => ?_, ?_⟩
    · exact congrArg (Option.map function) (hobject stored)
    · rw [function.injEq]
      exact hreturns.settled
  | interface payload =>
    cases hkind
    exact Opaque.membersReread h fun fs hfs => congrArg (Option.map interface) hfs

theorem rereads {d : DefaultDecl} (h : d.isKept = true) :
    Rereads ofJson? d.record.toJson (d.every Node.isSettled) d := by
  obtain ⟨kind, hkind⟩ : ∃ kind, d.record.kind = some kind := by cases d <;> exact ⟨_, rfl⟩
  exact (membersReread hkind h).byKind hkind

theorem gives_ofKind? (h : (Json.obj ms).IsGiven spelled) (htype : hasKey ms "type" = false)
    (kind : NodeKind) :
    Gives (fun d => d.record.kind = some kind ∧ d.isKept = true ∧
      (spelled = true → d.every Node.isSettled = true)) (ofKind? kind (.of stored ms)) := by
  have hgood := isGood_readMembers h stored
  unfold ofKind?
  split
  · refine gives_map.mpr fun k hk => ?_
    have hread : k.IsRead spelled := gives_part hgood rfl rfl k hk
    exact ⟨rfl, hread.kept, hread.settled⟩
  · refine gives_map.mpr fun f hf => ?_
    have hread : f.IsRead spelled := gives_part hgood rfl rfl f hf
    exact ⟨rfl, hread.kept, hread.settled⟩
  · rw [Fields.plain_of]
    refine gives_map.mpr fun payload hpayload => ⟨rfl, ?_, fun _ => rfl⟩
    exact Opaque.isKeptBesideKind_of_ofMembers? h.fits htype hpayload
  · exact gives_none

theorem gives_ofJson? (h : json.IsGiven spelled) :
    Gives (fun d => d.isKept = true ∧ (spelled = true → d.every Node.isSettled = true))
      (ofJson? stored json) :=
  gives_byKind_of h fun kind _ hms htype =>
    (gives_ofKind? hms htype kind).mono fun _ hd => hd.2

end DefaultDecl

namespace ModuleDecl

/-- The leaves of an import or export are such as are read. -/
def isKept : ModuleDecl → Bool
  | .importDecl _ specifiers _ => specifiers.all ImportSpecifier.isKept
  | .exportDecl _ declaration => declaration.every Node.isKept
  | .exportNamed _ specifiers _ => specifiers.all ExportSpecifier.isKept
  | .exportDefaultDecl _ declaration => declaration.isKept
  | .exportDefaultExpr _ expression => expression.every Node.isKept
  | .exportAll _ _ => true
  | .typeModule _ payload => payload.isKeptBesideKind

/-- **An import or export is read back from the members it is written as.** -/
theorem membersReread {d : ModuleDecl} (h : d.isKept = true) :
    MembersReread d.members (ofKind? d.kind) (d.every Node.isSettled) d := by
  cases d with
  | importDecl span specifiers source =>
    obtain ⟨hsound, hread⟩ := Rereads.list_eq fun s hs =>
      ImportSpecifier.rereads (List.all_eq_true.mp h s hs)
    exact .self (by simp [members]) (by simp [members, hsound])
      fun stored => by simp [members, kind, ofKind?, hread]
  | exportDecl span declaration =>
    obtain ⟨hsound, d', hreads, hsettled⟩ := Node.rereads h
    refine ⟨by simp [members], by simp [members, hsound], .exportDecl span d',
      fun stored => by simp [members, kind, ofKind?, hreads], ?_⟩
    simpa [every] using hsettled
  | exportNamed span specifiers source =>
    obtain ⟨hsound, hread⟩ := Rereads.list_eq fun s hs =>
      ExportSpecifier.rereads (List.all_eq_true.mp h s hs)
    exact .self (by simp [members]) (by simp [members, hsound])
      fun stored => by simp [members, kind, ofKind?, hread]
  | exportDefaultDecl span declaration =>
    obtain ⟨hsound, d', hreads, hsettled⟩ := DefaultDecl.rereads h
    refine ⟨by simp [members], by simp [members, hsound], .exportDefaultDecl span d',
      fun stored => by simp [members, kind, ofKind?, hreads], ?_⟩
    simpa [every] using hsettled
  | exportDefaultExpr span expression =>
    obtain ⟨hsound, e', hreads, hsettled⟩ := Node.rereads h
    refine ⟨by simp [members], by simp [members, hsound], .exportDefaultExpr span e',
      fun stored => by simp [members, kind, ofKind?, hreads], ?_⟩
    simpa [every] using hsettled
  | exportAll span source =>
    exact .self (by simp [members]) (by simp [members])
      fun stored => by simp [members, kind, ofKind?]
  | typeModule form payload =>
    refine Opaque.membersReread h fun fs hfs => ?_
    cases form <;> exact congrArg (Option.map _) hfs

theorem rereads {d : ModuleDecl} (h : d.isKept = true) :
    Rereads ofJson? d.record.toJson (d.every Node.isSettled) d :=
  (membersReread h).byKind rfl

theorem gives_ofKind? (h : (Json.obj ms).IsGiven spelled) (kind : NodeKind)
    (htype : kind.isOpaque = true → hasKey ms "type" = false) :
    Gives (fun d => d.kind = kind ∧ d.isKept = true ∧
      (spelled = true → d.every Node.isSettled = true)) (ofKind? kind (.of stored ms)) := by
  have hgood : Fields.IsGood spelled (.of stored ms) := isGood_readMembers h stored
  have hpayload (form : TypeModuleForm) (htype : hasKey ms "type" = false) :
      Gives (fun d => d.kind = form.kind ∧ d.isKept = true ∧
        (spelled = true → d.every Node.isSettled = true))
        ((Opaque.ofMembers? ms).map (typeModule form)) :=
    gives_map.mpr fun payload hpayload =>
      ⟨rfl, Opaque.isKeptBesideKind_of_ofMembers? h.fits htype hpayload, fun _ => rfl⟩
  unfold ofKind?
  simp only [Fields.plain_of, Fields.stored_of]
  split
  · simp only [gives_bind, gives_pure]
    refine fun span _ => (gives_list h fun _ => ImportSpecifier.gives_ofJson?).mono ?_
    intro specifiers hspecifiers source _
    exact ⟨rfl, List.all_eq_true.mpr hspecifiers, fun _ => rfl⟩
  · simp only [gives_bind, gives_pure]
    intro span _ declaration hdeclaration
    have hread := hgood.node hdeclaration
    exact ⟨rfl, hread.kept, hread.settled⟩
  · simp only [gives_bind, gives_pure]
    refine fun span _ => (gives_list h fun _ => ExportSpecifier.gives_ofJson?).mono ?_
    intro specifiers hspecifiers source _
    exact ⟨rfl, List.all_eq_true.mpr hspecifiers, fun _ => rfl⟩
  · simp only [gives_bind, gives_pure]
    refine fun span _ => (gives_required fun _ hmem =>
      DefaultDecl.gives_ofJson? (h.member hmem)).mono ?_
    exact fun declaration hdeclaration => ⟨rfl, hdeclaration⟩
  · simp only [gives_bind, gives_pure]
    intro span _ expression hexpression
    have hread := hgood.node hexpression
    exact ⟨rfl, hread.kept, hread.settled⟩
  · simp only [gives_bind, gives_pure]
    exact fun span _ source _ => ⟨rfl, rfl, fun _ => rfl⟩
  · exact hpayload .importEquals (htype rfl)
  · exact hpayload .exportAssignment (htype rfl)
  · exact hpayload .namespaceExport (htype rfl)
  · exact gives_none

theorem gives_ofJson? (h : json.IsGiven spelled) :
    Gives (fun d => d.isKept = true ∧ (spelled = true → d.every Node.isSettled = true))
      (ofJson? stored json) :=
  gives_byKind_of h fun kind _ hms htype =>
    (gives_ofKind? hms kind fun _ => htype).mono fun _ hd => hd.2

end ModuleDecl

end Declarations

/-! ### Items and programs -/

section Programs

variable {spelled : Bool} {ms : List (String × Json)} {json : Json} {kind : NodeKind}

/-- The written form of a statement is not one of an import or export. -/
theorem ModuleDecl.ofJson?_stmt {s : Node .stmt} (h : s.Returns) :
    ModuleDecl.ofJson? true s.toJson = none := by
  obtain ⟨kind, ms, hrecord⟩ := h.recorded (s.isAbsent_eq_false rfl)
  obtain ⟨hkind, htype⟩ := h.spelled hrecord
  obtain ⟨kind, rfl⟩ := Option.isSome_iff_exists.mp hkind
  have hsound := h.sound
  have hdisjoint : ∀ kind ∈ Category.stmt.allKinds, kind ∉ ModuleDecl.kinds := by decide
  have hother := hdisjoint kind (Category.mem_allKinds_of_body (h.body hrecord true))
  have hnone (fs : Fields) : ofKind? kind fs = none := by
    unfold ofKind?
    split
    all_goals first
      | rfl
      | exact absurd (by decide) hother
  rw [Node.toJson, hrecord] at *
  exact (Fields.byKind_of htype hsound).trans (hnone _)

namespace ModuleItem

def isKept : ModuleItem → Bool
  | .decl d => d.isKept
  | .stmt s => s.every Node.isKept

/-- **A module item is read back from the value it is written as.** -/
theorem rereads {item : ModuleItem} (h : item.isKept = true) :
    Rereads (fun _ => ofJson?) item.toJson (item.every Node.isSettled) item := by
  cases item with
  | decl d =>
    obtain ⟨hsound, d', hread, hsettled⟩ := ModuleDecl.rereads h
    refine ⟨hsound, .decl d', fun _ => ?_, ?_⟩
    · rw [toJson, ofJson?, if_pos (isReadable_of_isSound hsound), hread]
      rfl
    · rw [decl.injEq]
      exact hsettled
  | stmt s =>
    obtain ⟨hsound, s', hread, hsettled⟩ := Node.rereads h
    have hnone := ModuleDecl.ofJson?_stmt (s.returns h)
    refine ⟨hsound, .stmt s', fun _ => ?_, ?_⟩
    · rw [toJson, ofJson?, if_pos (isReadable_of_isSound hsound), hnone, hread]
      rfl
    · rw [stmt.injEq]
      exact hsettled

theorem gives_ofJson? (h : json.IsGiven spelled) :
    Gives (fun item => item.isKept = true ∧ (spelled = true → item.every Node.isSettled = true))
      (ofJson? json) := by
  refine gives_ite (fun _ => Gives.orElse ?_ fun _ => ?_) fun _ => gives_none
  · exact gives_map.mpr (ModuleDecl.gives_ofJson? h)
  · exact gives_map.mpr ((gives_readAt h true .stmt).mono fun s hs => ⟨hs.kept, hs.settled⟩)

end ModuleItem

namespace Program

/-- The leaves of a program are such as are read. -/
def isKept : Program → Bool
  | .module _ body _ => body.all ModuleItem.isKept
  | .script _ body _ => body.all fun s => s.every Node.isKept

/-- **A program is read back from the members it is written as.** -/
theorem membersReread {p : Program} (hkind : p.record.kind = some kind) (h : p.isKept = true) :
    MembersReread p.record.members (fun fs => ofKind? kind fs.plain) (p.every Node.isSettled)
      p := by
  have hinterpreter (i : Option String) :
      optional (memberIf "interpreter" Json.str i) "interpreter" asString = some i := by
    cases i <;> rfl
  have hsound' (i : Option String) : membersSound (memberIf "interpreter" Json.str i) = true :=
    membersSound_memberIf fun _ _ => rfl
  cases p with
  | module span body interpreter =>
    cases hkind
    obtain ⟨hsound, body', hread, hsettled⟩ := Rereads.list fun item hitem =>
      ModuleItem.rereads (List.all_eq_true.mp h item hitem)
    refine ⟨by simp [record], by simp [record, hsound, hsound'],
      .module span body' interpreter, fun stored => ?_, ?_⟩
    · simp [record, ofKind?, hread false, hinterpreter]
    · simpa [every] using hsettled
  | script span body interpreter =>
    cases hkind
    obtain ⟨hsound, body', hread, hsettled⟩ := Rereads.list fun s hs =>
      Node.rereads (List.all_eq_true.mp h s hs)
    have hread' : asList (fun item => item.read .stmt) (.arr (body.map Node.toJson)) =
        some body' := hread false
    refine ⟨by simp [record], by simp [record, hsound, hsound'],
      .script span body' interpreter, fun stored => ?_, ?_⟩
    · simp [record, ofKind?, hread', hinterpreter]
    · simpa [every] using hsettled

theorem rereads {p : Program} (h : p.isKept = true) :
    Rereads (fun _ => ofJson?) p.toJson (p.every Node.isSettled) p := by
  obtain ⟨kind, hkind⟩ : ∃ kind, p.record.kind = some kind := by cases p <;> exact ⟨_, rfl⟩
  have htext (stored : Bool) :
      kindOf false [.moduleRoot, .scriptRoot] (.str kind.text) = some kind :=
    kindOf_text false _ kind
  obtain ⟨hsound, p', hread, hsettled⟩ := (membersReread hkind h).untagged hkind htext
  exact ⟨hsound, p', fun _ => hread false, hsettled⟩

theorem gives_ofKind? (h : (Json.obj ms).IsGiven spelled) (kind : NodeKind) :
    Gives (fun p => p.record.kind = some kind ∧ p.isKept = true ∧
      (spelled = true → p.every Node.isSettled = true)) (ofKind? kind ms) := by
  unfold ofKind?
  split
  · simp only [gives_bind, gives_pure]
    refine fun span _ => (gives_list h fun _ => ModuleItem.gives_ofJson?).mono ?_
    exact fun body hbody interpreter _ =>
      ⟨rfl, List.all_eq_true.mpr fun item hitem => (hbody item hitem).1,
        fun hs => List.all_eq_true.mpr fun item hitem => (hbody item hitem).2 hs⟩
  · simp only [gives_bind, gives_pure]
    refine fun span _ => (gives_list h fun _ hitem => gives_read hitem .stmt).mono ?_
    exact fun body hbody interpreter _ =>
      ⟨rfl, List.all_eq_true.mpr fun s hmem => (hbody s hmem).kept,
        fun hs => List.all_eq_true.mpr fun s hmem => (hbody s hmem).settled hs⟩
  · exact gives_none

theorem gives_ofJson? (h : json.IsGiven spelled) :
    Gives (fun p => p.isKept = true ∧ (spelled = true → p.every Node.isSettled = true))
      (ofJson? json) :=
  gives_untagged h fun kind _ hms => (gives_ofKind? hms kind).mono fun _ hp => hp.2

end Program

end Programs

end EcmaPrinter
