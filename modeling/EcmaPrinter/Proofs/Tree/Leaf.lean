/-
# Leaves are read back

Every leaf of a tree is read from the members it was written as, if its payloads
are such as reading gives: in canonical form, sound, and without the members that
are read apart. A number must be finite as well, for no other has a numeral.

Key definitions: `isPayload`, `Opaque.isKept`, `Ident.isKept`, `LawfulToken`.
Key theorems: `Span.ofJson?_toJson`, `Opaque.ofMembers?_members`,
`Ident.ofMembers?_members`, `NumberLit.ofMembers?_members`.
-/
import EcmaPrinter.Proofs.Json.Canonical
import EcmaPrinter.Proofs.Json.Lookup
import EcmaPrinter.Tree.Program

namespace EcmaPrinter

open Json

/-! ### Sound members -/

section Sound

variable {ms ms' : List (String × Json)} {key : String} {value : Json}

@[simp] theorem isSound_obj : (Json.obj ms).isSound = membersSound ms := rfl

@[simp] theorem isSound_null : Json.null.isSound = true := rfl

@[simp] theorem isSound_bool (b : Bool) : (Json.bool b).isSound = true := rfl

@[simp] theorem isSound_str (s : String) : (Json.str s).isSound = true := rfl

@[simp] theorem membersSound_nil : membersSound [] = true := rfl

@[simp] theorem membersSound_cons :
    membersSound ((key, value) :: ms) = (value.isSound && membersSound ms) := rfl

@[simp] theorem membersSound_append :
    membersSound (ms ++ ms') = (membersSound ms && membersSound ms') := by
  induction ms with
  | nil => rfl
  | cons m ms ih =>
    obtain ⟨key, value⟩ := m
    rw [List.cons_append, membersSound_cons, membersSound_cons, ih, Bool.and_assoc]

theorem isSound_arr {items : List Json} (h : ∀ i ∈ items, i.isSound = true) :
    (Json.arr items).isSound = true :=
  everyItem_iff.mpr h

theorem membersSound_memberIf {β : Type} {write : β → Json} {v : Option β}
    (h : ∀ x ∈ v, (write x).isSound = true) : membersSound (memberIf key write v) = true := by
  cases v with
  | none => rfl
  | some x => exact Bool.and_eq_true_iff.mpr ⟨h x rfl, rfl⟩

theorem isSound_ofOption {β : Type} {write : β → Json} {v : Option β}
    (h : ∀ x ∈ v, (write x).isSound = true) : (ofOption write v).isSound = true := by
  cases v with
  | none => rfl
  | some x => exact h x rfl

end Sound

/-! ### Positions -/

@[simp] theorem asWord_ofWord (n : UInt32) : asWord (ofWord n) = some n := by
  have hlt : n.toNat < 2 ^ 32 := n.toNat_lt
  rw [ofWord, asWord, if_pos (by omega), Int.toNat_natCast, UInt32.ofNat_toNat]

@[simp] theorem isSound_ofWord (n : UInt32) : (ofWord n).isSound = true := by
  have hlt : n.toNat < 2 ^ 32 := n.toNat_lt
  simp only [ofWord, isSound, everyScalar, isFitting, isNotUnreadable, Bool.and_true,
    Bool.and_eq_true, decide_eq_true_eq]
  omega

@[simp] theorem LineCol.ofJson?_toJson (p : LineCol) : LineCol.ofJson? p.toJson = some p := by
  simp [LineCol.ofJson?, LineCol.toJson, asRecord]

@[simp] theorem Loc.ofJson?_toJson (l : Loc) : Loc.ofJson? l.toJson = some l := by
  simp [Loc.ofJson?, Loc.toJson, asRecord]

@[simp] theorem Span.ofJson?_toJson (s : Span) : Span.ofJson? s.toJson = some s := by
  simp [Span.ofJson?, Span.toJson, asRecord, defaultedAny, find]

@[simp] theorem Span.isSound_toJson (s : Span) : s.toJson.isSound = true := by
  simp [Span.toJson, Loc.toJson, LineCol.toJson]

@[simp] theorem Span.optional_ofOption {key : String} {ms : List (String × Json)} {s : Option Span}
    (h : hasKey ms key = false) :
    optional ((key, ofOption toJson s) :: ms) key ofJson? = some s :=
  Json.optional_ofOption h fun x _ => nullable_obj (ofJson?_toJson x)

@[simp] theorem Span.isSound_ofOption (s : Option Span) : (ofOption toJson s).isSound = true :=
  EcmaPrinter.isSound_ofOption fun x _ => isSound_toJson x

@[simp] theorem spanOf_cons {s : Span} {ms : List (String × Json)} (h : hasKey ms "span" = false) :
    spanOf (("span", s.toJson) :: ms) = some s := by
  rw [spanOf, defaulted_cons_self h, Span.ofJson?_toJson]

@[simp] theorem spanOf_cons_ne {key : String} {value : Json} {ms : List (String × Json)}
    (h : key ≠ "span") : spanOf ((key, value) :: ms) = spanOf ms :=
  defaulted_cons_ne h

/-! ### Tokens -/

/-- Tokens that their texts tell apart. -/
class LawfulToken (α : Type) [Token α] : Prop where
  ofText?_text (t : α) : Token.ofText? (Token.text t) = some t

instance : LawfulToken BinaryOp := ⟨fun t => by cases t <;> rfl⟩
instance : LawfulToken UnaryOp := ⟨fun t => by cases t <;> rfl⟩
instance : LawfulToken AssignOp := ⟨fun t => by cases t <;> rfl⟩
instance : LawfulToken UpdateOp := ⟨fun t => by cases t <;> rfl⟩
instance : LawfulToken BindingKind := ⟨fun t => by cases t <;> rfl⟩
instance : LawfulToken MethodKind := ⟨fun t => by cases t <;> rfl⟩
instance : LawfulToken Accessibility := ⟨fun t => by cases t <;> rfl⟩

section Tokens

variable {α : Type} [Token α]

@[simp] theorem asToken_ofToken [LawfulToken α] (stored : Bool) (t : α) :
    asToken stored (ofToken t) = some t :=
  LawfulToken.ofText?_text t

@[simp] theorem isSound_ofToken (t : α) : (ofToken t).isSound = true := rfl

@[simp] theorem isSound_ofOption_ofToken (t : Option α) : (ofOption ofToken t).isSound = true :=
  isSound_ofOption fun _ _ => rfl

@[simp] theorem optional_ofToken [LawfulToken α] {stored : Bool} {key : String} {t : Option α}
    {ms : List (String × Json)} (h : hasKey ms key = false) :
    optional ((key, ofOption ofToken t) :: ms) key (asToken stored) = some t :=
  optional_ofOption h fun x _ => congrArg (Option.map some) (asToken_ofToken stored x)

end Tokens

/-! ### Payloads -/

/-- Members such as are kept of a payload: canonical, sound, and none of those that
are read apart. -/
def isPayload (known : List String) (rest : List (String × Json)) : Bool :=
  sameMembers (sortMembers (canonicalMembers rest)) rest && membersSound rest
    && known.all fun key => !hasKey rest key

section Payloads

variable {known : List String} {rest : List (String × Json)}

theorem hasKey_of_isPayload (h : isPayload known rest = true) {key : String} (hkey : key ∈ known) :
    hasKey rest key = false := by
  simp only [isPayload, Bool.and_eq_true, List.all_eq_true, Bool.not_eq_true'] at h
  exact h.2 key hkey

theorem membersSound_of_isPayload (h : isPayload known rest = true) : membersSound rest = true := by
  simp only [isPayload, Bool.and_eq_true] at h
  exact h.1.2

theorem isPayload_of_subset {known' : List String} (h : isPayload known rest = true)
    (hsub : known' ⊆ known) : isPayload known' rest = true := by
  simp only [isPayload, Bool.and_eq_true, List.all_eq_true] at h ⊢
  exact ⟨h.1, fun key hkey => h.2 key (hsub hkey)⟩

/-- A payload is what is kept of the members it was written among. -/
theorem restOf_payload (h : isPayload known rest = true) (ms : List (String × Json))
    (hms : ∀ m ∈ ms, m.1 ∈ known) : Opaque.restOf known (ms ++ rest) = some rest := by
  have hkeep := filter_without hms fun _ hkey => hasKey_of_isPayload h hkey
  have hread := membersReadable_of_membersSound (membersSound_of_isPayload h)
  simp only [isPayload, Bool.and_eq_true] at h
  simp only [Opaque.restOf, hkeep, hread, if_true, sameMembers_iff.mp h.1.1]

end Payloads

namespace Opaque

/-- A payload such as is read. -/
def isKept (o : Opaque) : Bool := isPayload ["span"] o.rest

@[simp] theorem ofMembers?_members {o : Opaque} (h : o.isKept = true) :
    ofMembers? o.members = some o := by
  have hspan := hasKey_of_isPayload h (List.mem_singleton.mpr rfl)
  have hrest := restOf_payload h [("span", o.span.toJson)] (by simp)
  rw [List.singleton_append] at hrest
  simp [ofMembers?, members, hspan, hrest]

@[simp] theorem ofJson?_toJson {o : Opaque} (h : o.isKept = true) : ofJson? o.toJson = some o := by
  rw [ofJson?, toJson, asMembers, asRecord, some_bind, ofMembers?_members h]

@[simp] theorem membersSound_members {o : Opaque} (h : o.isKept = true) :
    membersSound o.members = true := by
  simp [members, membersSound_of_isPayload h]

@[simp] theorem isSound_toJson {o : Opaque} (h : o.isKept = true) : o.toJson.isSound = true :=
  membersSound_members h

@[simp] theorem hasKey_members {o : Opaque} :
    hasKey o.members "type" = hasKey o.rest "type" := by
  simp [members]

end Opaque

section OptionalPayloads

variable {key : String} {payload : Option Opaque} {ms : List (String × Json)}

theorem isKept_of_mem {α : Type} {test : α → Bool} {value : Option α} (h : value.all test = true)
    {x : α} (hx : x ∈ value) : test x = true := by
  cases hx
  exact h

@[simp] theorem optional_payload_append (h : payload.all Opaque.isKept = true)
    (hms : hasKey ms key = false) :
    optional (memberIf key Opaque.toJson payload ++ ms) key Opaque.ofJson? = some payload :=
  optional_memberIf hms fun _ ho => nullable_obj (Opaque.ofJson?_toJson (isKept_of_mem h ho))

@[simp] theorem optional_payload (h : payload.all Opaque.isKept = true) :
    optional (memberIf key Opaque.toJson payload) key Opaque.ofJson? = some payload := by
  rw [← List.append_nil (memberIf _ _ _), optional_payload_append h hasKey_nil]

@[simp] theorem membersSound_payload (h : payload.all Opaque.isKept = true) :
    membersSound (memberIf key Opaque.toJson payload) = true :=
  membersSound_memberIf fun _ ho => Opaque.membersSound_members (isKept_of_mem h ho)

@[simp] theorem asList_payloads {payloads : List Opaque} (h : payloads.all Opaque.isKept = true) :
    asList Opaque.ofJson? (.arr (payloads.map Opaque.toJson)) = some payloads :=
  asList_map fun o ho => Opaque.ofJson?_toJson (List.all_eq_true.mp h o ho)

@[simp] theorem isSound_payloads {payloads : List Opaque} (h : payloads.all Opaque.isKept = true) :
    (Json.arr (payloads.map Opaque.toJson)).isSound = true :=
  isSound_arr fun j hj => by
    obtain ⟨o, ho, rfl⟩ := List.mem_map.mp hj
    exact Opaque.isSound_toJson (List.all_eq_true.mp h o ho)

end OptionalPayloads

/-! ### Names -/

namespace Ident

/-- A name whose type is such as is read. -/
def isKept (i : Ident) : Bool := i.typing.all Opaque.isKept

@[simp] theorem ofMembers?_members {i : Ident} (h : i.isKept = true) :
    ofMembers? i.members = some i := by
  unfold isKept at h
  simp [ofMembers?, members, asString, asBool, h]

@[simp] theorem ofJson?_toJson {i : Ident} (h : i.isKept = true) : ofJson? i.toJson = some i := by
  rw [ofJson?, toJson, asRecord, some_bind, ofMembers?_members h]

@[simp] theorem membersSound_members {i : Ident} (h : i.isKept = true) :
    membersSound i.members = true := by
  unfold isKept at h
  simp [members, h]

@[simp] theorem isSound_toJson {i : Ident} (h : i.isKept = true) : i.toJson.isSound = true :=
  membersSound_members h

@[simp] theorem hasKey_members {i : Ident} : hasKey i.members "type" = false := by
  simp [members]

section Optional

variable {key : String} {ms : List (String × Json)} {i : Option Ident}

@[simp] theorem optional_ofOption (h : i.all isKept = true) (hms : hasKey ms key = false) :
    optional ((key, ofOption toJson i) :: ms) key ofJson? = some i :=
  Json.optional_ofOption hms fun _ hx => nullable_obj (ofJson?_toJson (isKept_of_mem h hx))

@[simp] theorem isSound_ofOption (h : i.all isKept = true) : (ofOption toJson i).isSound = true :=
  EcmaPrinter.isSound_ofOption fun _ hx => isSound_toJson (isKept_of_mem h hx)

@[simp] theorem optional_memberIf (h : i.all isKept = true) (hms : hasKey ms key = false) :
    optional (memberIf key toJson i ++ ms) key ofJson? = some i :=
  Json.optional_memberIf hms fun _ hx => nullable_obj (ofJson?_toJson (isKept_of_mem h hx))

@[simp] theorem membersSound_memberIf (h : i.all isKept = true) :
    membersSound (memberIf key toJson i) = true :=
  EcmaPrinter.membersSound_memberIf fun _ hx => isSound_toJson (isKept_of_mem h hx)

end Optional

end Ident

namespace PrivateName

def isKept (p : PrivateName) : Bool := p.id.isKept

@[simp] theorem ofMembers?_members {p : PrivateName} (h : p.isKept = true) :
    ofMembers? p.members = some p := by
  simp [ofMembers?, members, Ident.ofJson?_toJson h]

@[simp] theorem ofJson?_toJson {p : PrivateName} (h : p.isKept = true) :
    ofJson? p.toJson = some p := by
  rw [ofJson?, toJson, asRecord, some_bind, ofMembers?_members h]

@[simp] theorem membersSound_members {p : PrivateName} (h : p.isKept = true) :
    membersSound p.members = true := by
  simp [members, Ident.isSound_toJson h]

@[simp] theorem isSound_toJson {p : PrivateName} (h : p.isKept = true) : p.toJson.isSound = true :=
  membersSound_members h

@[simp] theorem hasKey_members {p : PrivateName} : hasKey p.members "type" = false := by
  simp [members]

end PrivateName

/-! ### Literals -/

namespace StringLit

@[simp] theorem ofMembers?_members (s : StringLit) : ofMembers? s.members = some s := by
  simp [ofMembers?, members, asString, asBool]

@[simp] theorem ofJson?_toJson (s : StringLit) : ofJson? s.toJson = some s := by
  rw [ofJson?, toJson, asRecord, some_bind, ofMembers?_members]

@[simp] theorem membersSound_members (s : StringLit) : membersSound s.members = true := by
  simp [members]

@[simp] theorem isSound_toJson (s : StringLit) : s.toJson.isSound = true :=
  membersSound_members s

@[simp] theorem hasKey_members {s : StringLit} : hasKey s.members "type" = false := by
  simp [members]

@[simp] theorem optional_ofJson? {key : String} {ms : List (String × Json)} {s : Option StringLit}
    (h : hasKey ms key = false) :
    optional ((key, ofOption toJson s) :: ms) key ofJson? = some s :=
  optional_ofOption h fun x _ => nullable_obj (ofJson?_toJson x)

@[simp] theorem isSound_ofOption (s : Option StringLit) : (ofOption toJson s).isSound = true :=
  EcmaPrinter.isSound_ofOption fun x _ => membersSound_members x

end StringLit

namespace NumberLit

/-- A number that has a numeral. -/
def isKept (n : NumberLit) : Bool := n.value.isFinite

@[simp] theorem ofMembers?_members {n : NumberLit} (h : n.isKept = true) :
    ofMembers? n.members = some n := by
  unfold isKept at h
  simp [ofMembers?, members, ofDouble, asDouble, h]

@[simp] theorem membersSound_members {n : NumberLit} (h : n.isKept = true) :
    membersSound n.members = true := by
  unfold isKept at h
  have hvalue : (ofDouble n.value).isSound = true := by
    rw [ofDouble, if_pos h]
    exact Bool.and_eq_true_iff.mpr ⟨h, rfl⟩
  simp [members, hvalue]

@[simp] theorem hasKey_members {n : NumberLit} : hasKey n.members "type" = false := by
  simp [members]

end NumberLit

namespace RegexLit

@[simp] theorem ofMembers?_members (r : RegexLit) : ofMembers? r.members = some r := by
  simp [ofMembers?, members]

@[simp] theorem membersSound_members (r : RegexLit) : membersSound r.members = true := by
  simp [members]

@[simp] theorem hasKey_members {r : RegexLit} : hasKey r.members "type" = false := by
  simp [members]

end RegexLit

namespace Quasi

@[simp] theorem ofJson?_toJson (q : Quasi) : ofJson? q.toJson = some q := by
  simp [ofJson?, toJson, asRecord, ofMembers?, members, asBool]

@[simp] theorem isSound_toJson (q : Quasi) : q.toJson.isSound = true := by
  simp [toJson, members]

@[simp] theorem asList_toJson (qs : List Quasi) : asList ofJson? (.arr (qs.map toJson)) = some qs :=
  asList_map fun q _ => ofJson?_toJson q

@[simp] theorem isSound_map_toJson (qs : List Quasi) : (Json.arr (qs.map toJson)).isSound = true :=
  isSound_arr fun j hj => by
    obtain ⟨q, _, rfl⟩ := List.mem_map.mp hj
    exact isSound_toJson q

end Quasi

/-! ### JSX -/

namespace JsxNamespacedName

def isKept (n : JsxNamespacedName) : Bool := n.space.isKept && n.name.isKept

@[simp] theorem ofMembers?_members {n : JsxNamespacedName} (h : n.isKept = true) :
    ofMembers? n.members = some n := by
  obtain ⟨hspace, hname⟩ := Bool.and_eq_true_iff.mp h
  simp [ofMembers?, members, Ident.ofJson?_toJson hspace, Ident.ofJson?_toJson hname]

@[simp] theorem membersSound_members {n : JsxNamespacedName} (h : n.isKept = true) :
    membersSound n.members = true := by
  obtain ⟨hspace, hname⟩ := Bool.and_eq_true_iff.mp h
  simp [members, Ident.isSound_toJson hspace, Ident.isSound_toJson hname]

@[simp] theorem hasKey_members {n : JsxNamespacedName} : hasKey n.members "type" = false := by
  simp [members]

end JsxNamespacedName

namespace JsxText

@[simp] theorem ofMembers?_members (t : JsxText) : ofMembers? t.members = some t := by
  simp [ofMembers?, members, asString]

@[simp] theorem membersSound_members (t : JsxText) : membersSound t.members = true := by
  simp [members]

@[simp] theorem hasKey_members {t : JsxText} : hasKey t.members "type" = false := by
  simp [members]

end JsxText

namespace JsxFragmentTag

@[simp] theorem ofJson?_toJson (t : JsxFragmentTag) : ofJson? t.toJson = some t := by
  simp [ofJson?, toJson, asRecord, ofMembers?, members]

@[simp] theorem isSound_toJson (t : JsxFragmentTag) : t.toJson.isSound = true := by
  simp [toJson, members]

end JsxFragmentTag

/-! ### Kinds -/

namespace NodeKind

theorem mem_all (k : NodeKind) : k ∈ all := by
  have hplace : all[k.ctorIdx]? = some k := by cases k <;> rfl
  exact List.mem_of_getElem? hplace

/-- No two of some kinds have the same text. Most texts differ in their lengths already. -/
def haveOwnTexts : List NodeKind → Bool
  | [] => true
  | k :: ks =>
    (ks.all fun other =>
      !(Nat.beq k.text.utf8ByteSize other.text.utf8ByteSize && k.text == other.text)) &&
      haveOwnTexts ks

theorem find?_text {k : NodeKind} : ∀ {ks : List NodeKind}, haveOwnTexts ks = true → k ∈ ks →
    (ks.find? fun other => other.text == k.text) = some k
  | first :: ks, h, hk => by
    obtain ⟨hfirst, hrest⟩ := Bool.and_eq_true_iff.mp h
    rw [List.find?_cons]
    split
    · rename_i hsame
      rcases List.mem_cons.mp hk with rfl | hk
      · rfl
      · have hother := List.all_eq_true.mp hfirst k hk
        rw [beq_iff_eq.mp hsame] at hother
        simp at hother
    · rename_i hother
      rcases List.mem_cons.mp hk with rfl | hk
      · simp at hother
      · exact find?_text hrest hk

theorem ofText?_text (k : NodeKind) : ofText? k.text = some k :=
  find?_text (by decide +kernel) k.mem_all

end NodeKind

@[simp] theorem kindOf_text (stored : Bool) (kinds : List NodeKind) (k : NodeKind) :
    kindOf stored kinds (.str k.text) = some k :=
  k.ofText?_text

/-! ### Values that are read by their kind -/

section Tagged

variable {stored : Bool} {ms : List (String × Json)}

theorem storedMembers_of_membersSound (h : membersSound ms = true) :
    storedMembers stored (.obj ms) = some ms :=
  if_pos (Bool.or_eq_true_iff.mpr (.inr (membersReadable_of_membersSound h)))

theorem untagged_cons {value : Json} (h : hasKey ms "type" = false) :
    untagged (("type", value) :: ms) = ms := by
  have hkeep : ∀ m ∈ ms, (m.1 != "type") = true := fun m hm => by
    simpa using List.any_eq_false.mp h m hm
  rw [untagged, List.filter_cons_of_neg (by simp), List.filter_eq_self.mpr hkeep]

/-- An object with a kind is read from its members. -/
theorem readTagged_members {α : Type} (kindAt : Json → Option NodeKind)
    (read : NodeKind → List (String × Json) → Option α) : readTagged stored kindAt read (.obj ms) =
      storedMembers stored (.obj ms) >>= fun ms =>
        required ms "type" kindAt >>= fun kind => read kind (untagged ms) := by
  rw [readTagged]
  intro tag items h
  cases h

/-- A record that was written with its kind is read by its kind. -/
theorem readTagged_obj {α : Type} {kindAt : Json → Option NodeKind} {kind : NodeKind}
    {read : NodeKind → List (String × Json) → Option α} (htype : hasKey ms "type" = false)
    (hsound : membersSound ms = true) (hkind : kindAt (.str kind.text) = some kind) :
    readTagged stored kindAt read (.obj (("type", .str kind.text) :: ms)) = read kind ms := by
  have hall : membersSound (("type", Json.str kind.text) :: ms) = true := hsound
  have hrequired : required (("type", Json.str kind.text) :: ms) "type" kindAt = some kind := by
    rw [required_cons_self htype, hkind]
  rw [readTagged_members, storedMembers_of_membersSound hall, some_bind, hrequired, some_bind,
    untagged_cons htype]

/-- What is read by its kind is read from the members beside the kind, or from the placed
items behind it. -/
theorem readTagged_cases {α : Type} {kindAt : Json → Option NodeKind}
    {read : NodeKind → List (String × Json) → Option α} {json : Json} {x : α}
    (h : readTagged stored kindAt read json = some x) : ∃ kind ms, read kind ms = some x ∧
      ((∃ all, json = .obj all ∧ ms = untagged all) ∨
        ∃ tag items, json = .arr (tag :: items) ∧
          asRecord kind.slots (.arr items) = some ms) := by
  unfold readTagged at h
  split at h
  · rename_i tag items
    obtain ⟨kind, -, hitems⟩ := Option.bind_eq_some_iff.mp h
    obtain ⟨items', hstored, hplaced⟩ := Option.bind_eq_some_iff.mp hitems
    obtain ⟨ms, hms, hread⟩ := Option.bind_eq_some_iff.mp hplaced
    rw [storedItems, Option.ite_none_right_eq_some] at hstored
    have hsame : items = items' := Option.some.inj hstored.2
    rw [← hsame] at hms
    exact ⟨kind, ms, hread, .inr ⟨tag, items, rfl, hms⟩⟩
  · obtain ⟨all, hall, hmembers⟩ := Option.bind_eq_some_iff.mp h
    obtain ⟨kind, -, hread⟩ := Option.bind_eq_some_iff.mp hmembers
    unfold storedMembers at hall
    split at hall
    · rw [Option.ite_none_right_eq_some] at hall
      have hsame := Option.some.inj hall.2
      exact ⟨kind, untagged all, hread, .inl ⟨all, congrArg Json.obj hsame, rfl⟩⟩
    · cases hall

end Tagged

/-! ### Attribute names and traits -/

namespace JsxAttrName

def isKept : JsxAttrName → Bool
  | .ident name => name.isKept
  | .namespaced name => name.isKept

@[simp] theorem isSound_toJson {name : JsxAttrName} (h : name.isKept = true) :
    name.toJson.isSound = true := by
  cases name with
  | ident name =>
    have hname : name.isKept = true := h
    simp [toJson, Record.toJson, hname]
  | namespaced name =>
    have hname : name.isKept = true := h
    simp [toJson, Record.toJson, hname]

@[simp] theorem jsxAttrName_toJson {name : JsxAttrName} (h : name.isKept = true) (stored : Bool) :
    Read.jsxAttrName stored name.toJson = some name := by
  cases name with
  | ident name =>
    have hname : name.isKept = true := h
    have hread := Ident.ofMembers?_members hname
    apply (readTagged_obj Ident.hasKey_members (Ident.membersSound_members hname)
      (kindOf_text stored _ .identifier)).trans
    rw [Read.jsxAttrNameOf, hread, Option.map_some]
  | namespaced name =>
    have hname : name.isKept = true := h
    have hread := JsxNamespacedName.ofMembers?_members hname
    apply (readTagged_obj JsxNamespacedName.hasKey_members
      (JsxNamespacedName.membersSound_members hname)
      (kindOf_text stored _ .jsxNamespacedName)).trans
    rw [Read.jsxAttrNameOf, hread, Option.map_some]

end JsxAttrName

@[simp] theorem MethodTraits.membersSound_members (t : MethodTraits) :
    membersSound t.members = true := by
  simp [members]

@[simp] theorem MethodTraits.hasKey_members {t : MethodTraits} :
    hasKey t.members "type" = false := by
  simp [members]

@[simp] theorem PropertyTraits.membersSound_members {t : PropertyTraits}
    (h : t.typing.all Opaque.isKept = true) : membersSound t.members = true := by
  simp [members, h]

@[simp] theorem PropertyTraits.hasKey_members {t : PropertyTraits} :
    hasKey t.members "type" = false := by
  simp [members]

end EcmaPrinter
