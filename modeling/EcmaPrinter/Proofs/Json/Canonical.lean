/-
# Values in canonical form

Putting a value in canonical form twice is the same as doing it once. The members
of an object come out sorted, sorting leaves sorted members alone, and it goes
with any change of the values under the keys.

A value is sound if all of it can be written: nothing in it is unreadable, its
integers fit 64 bits and its doubles are finite. The canonical form of a value
has the scalars of the value, and so it is sound if the value is.

Key definitions: `IsSorted`, `everyScalar`, `isSound`.
Key theorems: `sortMembers_of_isSorted`, `canonicalMembers_sortMembers`,
`canonical_canonical`, `everyScalar_canonical`, `same_iff`.
-/
import EcmaPrinter.Json.Record

namespace EcmaPrinter.Json

/-! ### Sorted members -/

/-- Members in the order of their keys, of which none repeats. -/
def IsSorted (ms : List (String × Json)) : Prop := ms.Pairwise fun m m' => m.1 < m'.1

theorem mem_insertMember {key : String} {value : Json} {m : String × Json} :
    ∀ {ms : List (String × Json)}, m ∈ insertMember key value ms → m = (key, value) ∨ m ∈ ms
  | [], h => .inl (List.mem_singleton.mp h)
  | (k, v) :: ms, h => by
    rw [insertMember] at h
    split at h
    · exact List.mem_cons.mp h
    · split at h
      · rename_i hkey
        rcases List.mem_cons.mp h with rfl | h
        · exact .inl (by rw [hkey])
        · exact .inr (List.mem_cons_of_mem _ h)
      · rcases List.mem_cons.mp h with rfl | h
        · exact .inr List.mem_cons_self
        · exact (mem_insertMember h).imp_right (List.mem_cons_of_mem _)

theorem IsSorted.insertMember {key : String} {value : Json} :
    ∀ {ms : List (String × Json)}, IsSorted ms → IsSorted (insertMember key value ms)
  | [], _ => List.pairwise_singleton _ _
  | (k, v) :: ms, h => by
    obtain ⟨hfirst, hrest⟩ := List.pairwise_cons.mp h
    rw [Json.insertMember]
    split
    · rename_i hlt
      refine List.pairwise_cons.mpr ⟨fun m hm => ?_, h⟩
      rcases List.mem_cons.mp hm with rfl | hm
      · exact hlt
      · exact String.lt_trans hlt (hfirst m hm)
    · split
      · exact List.pairwise_cons.mpr ⟨hfirst, hrest⟩
      · rename_i hlt hne
        have hk : k < key := by
          by_cases hkey : k < key
          · exact hkey
          · exact absurd (String.le_antisymm (String.not_lt.mp hkey) (String.not_lt.mp hlt)) hne
        refine List.pairwise_cons.mpr ⟨fun m hm => ?_, IsSorted.insertMember hrest⟩
        rcases mem_insertMember hm with rfl | hm
        · exact hk
        · exact hfirst m hm

/-- A member with a key behind all others goes to the end. -/
theorem insertMember_of_lt {key : String} {value : Json} :
    ∀ {ms : List (String × Json)}, (∀ m ∈ ms, m.1 < key) →
      insertMember key value ms = ms ++ [(key, value)]
  | [], _ => rfl
  | (k, v) :: ms, h => by
    have hlt : k < key := h _ List.mem_cons_self
    have hne : ¬ key = k := by
      rintro rfl
      exact String.lt_irrefl _ hlt
    rw [insertMember, if_neg (String.lt_asymm hlt), if_neg hne,
      insertMember_of_lt fun m hm => h m (List.mem_cons_of_mem _ hm)]
    rfl

/-- Sorting on top of members that are sorted already. -/
theorem foldl_insertMember_of_isSorted : ∀ {ms sorted : List (String × Json)},
    IsSorted (sorted ++ ms) →
      ms.foldl (fun sorted m => insertMember m.1 m.2 sorted) sorted = sorted ++ ms
  | [], sorted, _ => (List.append_nil sorted).symm
  | m :: ms, sorted, h => by
    have hlt : ∀ m' ∈ sorted, m'.1 < m.1 := fun m' hm' =>
      (List.pairwise_append.mp h).2.2 m' hm' m List.mem_cons_self
    rw [List.foldl_cons, insertMember_of_lt hlt, foldl_insertMember_of_isSorted (by simpa using h)]
    simp

theorem sortMembers_of_isSorted {ms : List (String × Json)} (h : IsSorted ms) :
    sortMembers ms = ms :=
  foldl_insertMember_of_isSorted h

theorem isSorted_foldl : ∀ (ms : List (String × Json)) {sorted : List (String × Json)},
    IsSorted sorted → IsSorted (ms.foldl (fun sorted m => insertMember m.1 m.2 sorted) sorted)
  | [], _, h => h
  | _ :: ms, _, h => isSorted_foldl ms h.insertMember

theorem isSorted_sortMembers (ms : List (String × Json)) : IsSorted (sortMembers ms) :=
  isSorted_foldl ms List.Pairwise.nil

theorem mem_foldl_insertMember {m : String × Json} : ∀ (ms : List (String × Json))
    {sorted : List (String × Json)},
    m ∈ ms.foldl (fun sorted m => insertMember m.1 m.2 sorted) sorted → m ∈ ms ∨ m ∈ sorted
  | [], _, h => .inr h
  | m' :: ms, _, h => by
    rcases mem_foldl_insertMember ms h with h | h
    · exact .inl (List.mem_cons_of_mem _ h)
    · rcases mem_insertMember h with rfl | h
      · exact .inl List.mem_cons_self
      · exact .inr h

/-- Sorting makes no members up. -/
theorem mem_of_mem_sortMembers {m : String × Json} {ms : List (String × Json)}
    (h : m ∈ sortMembers ms) : m ∈ ms :=
  (mem_foldl_insertMember ms h).resolve_right List.not_mem_nil

/-! ### Changing the values under the keys -/

section Map

variable (f : Json → Json)

/-- Members with their values changed. -/
def mapValues (ms : List (String × Json)) : List (String × Json) := ms.map fun m => (m.1, f m.2)

theorem mapValues_insertMember (key : String) (value : Json) : ∀ ms : List (String × Json),
    mapValues f (insertMember key value ms) = insertMember key (f value) (mapValues f ms)
  | [] => rfl
  | (k, v) :: ms => by
    have ih := mapValues_insertMember key value ms
    unfold mapValues at ih ⊢
    rw [insertMember, List.map_cons, insertMember]
    split
    · rfl
    · split
      · rfl
      · rw [List.map_cons, ih]

theorem mapValues_foldl : ∀ ms sorted : List (String × Json),
    mapValues f (ms.foldl (fun sorted m => insertMember m.1 m.2 sorted) sorted) =
      (mapValues f ms).foldl (fun sorted m => insertMember m.1 m.2 sorted) (mapValues f sorted)
  | [], _ => rfl
  | m :: ms, sorted => by
    rw [List.foldl_cons, mapValues_foldl ms, mapValues_insertMember]
    rfl

/-- Sorting goes with changing values. -/
theorem mapValues_sortMembers (ms : List (String × Json)) :
    mapValues f (sortMembers ms) = sortMembers (mapValues f ms) :=
  mapValues_foldl f ms []

end Map

theorem canonicalMembers_eq : ∀ ms : List (String × Json),
    canonicalMembers ms = mapValues canonical ms
  | [] => rfl
  | (k, v) :: ms => by
    rw [canonicalMembers, canonicalMembers_eq ms]
    rfl

/-! ### Canonical forms -/

/-- Members that are canonical one by one are so after sorting. -/
theorem canonicalMembers_sortMembers {ms : List (String × Json)} (h : canonicalMembers ms = ms) :
    canonicalMembers (sortMembers ms) = sortMembers ms := by
  rw [canonicalMembers_eq, mapValues_sortMembers, ← canonicalMembers_eq, h]

mutual
/-- **A canonical form is its own.** -/
theorem canonical_canonical : ∀ json : Json, json.canonical.canonical = json.canonical
  | .null | .bool _ | .int _ | .float _ | .str _ | .unreadable => rfl
  | .arr items => by rw [canonical, canonical, canonicalItems_canonicalItems items]
  | .obj ms => by
    have h := canonicalMembers_sortMembers (canonicalMembers_canonicalMembers ms)
    rw [canonical, canonical, h, sortMembers_of_isSorted (isSorted_sortMembers _)]

theorem canonicalItems_canonicalItems : ∀ items : List Json,
    canonicalItems (canonicalItems items) = canonicalItems items
  | [] => rfl
  | item :: items => by
    rw [canonicalItems, canonicalItems, canonical_canonical item,
      canonicalItems_canonicalItems items]

theorem canonicalMembers_canonicalMembers : ∀ ms : List (String × Json),
    canonicalMembers (canonicalMembers ms) = canonicalMembers ms
  | [] => rfl
  | (k, v) :: ms => by
    rw [canonicalMembers, canonicalMembers, canonical_canonical v,
      canonicalMembers_canonicalMembers ms]
end

/-! ### What holds of all scalars of a value -/

mutual
/-- A test passes on everything in a value that is not an array or object. -/
def everyScalar (test : Json → Bool) : Json → Bool
  | .arr items => everyItem test items
  | .obj members => everyMember test members
  | scalar => test scalar

def everyItem (test : Json → Bool) : List Json → Bool
  | [] => true
  | item :: rest => item.everyScalar test && everyItem test rest

def everyMember (test : Json → Bool) : List (String × Json) → Bool
  | [] => true
  | (_, value) :: rest => value.everyScalar test && everyMember test rest
end

section Every

variable {test : Json → Bool}

theorem everyItem_iff : ∀ {items : List Json},
    everyItem test items = true ↔ ∀ i ∈ items, i.everyScalar test = true
  | [] => by simp [everyItem]
  | item :: items => by simp [everyItem, everyItem_iff]

theorem everyMember_iff : ∀ {ms : List (String × Json)},
    everyMember test ms = true ↔ ∀ m ∈ ms, m.2.everyScalar test = true
  | [] => by simp [everyMember]
  | m :: ms => by simp [everyMember, everyMember_iff]

mutual
/-- The canonical form of a value has no scalars of its own. -/
theorem everyScalar_canonical : ∀ json : Json, json.everyScalar test = true →
    json.canonical.everyScalar test = true
  | .null, h | .bool _, h | .int _, h | .float _, h | .str _, h | .unreadable, h => h
  | .arr items, h => everyItem_canonicalItems items h
  | .obj ms, h => everyMember_iff.mpr fun _ hm =>
    everyMember_iff.mp (everyMember_canonicalMembers ms h) _ (mem_of_mem_sortMembers hm)

theorem everyItem_canonicalItems : ∀ items : List Json, everyItem test items = true →
    everyItem test (canonicalItems items) = true
  | [], _ => rfl
  | item :: items, h => by
    obtain ⟨hitem, hitems⟩ := Bool.and_eq_true_iff.mp h
    exact Bool.and_eq_true_iff.mpr
      ⟨everyScalar_canonical item hitem, everyItem_canonicalItems items hitems⟩

theorem everyMember_canonicalMembers : ∀ ms : List (String × Json), everyMember test ms = true →
    everyMember test (canonicalMembers ms) = true
  | [], _ => rfl
  | (_, value) :: ms, h => by
    obtain ⟨hvalue, hms⟩ := Bool.and_eq_true_iff.mp h
    exact Bool.and_eq_true_iff.mpr
      ⟨everyScalar_canonical value hvalue, everyMember_canonicalMembers ms hms⟩
end

mutual
/-- Two tests of the scalars that give a third. -/
theorem everyScalar_of_and {test' test'' : Json → Bool}
    (himp : ∀ json, test json = true → test' json = true → test'' json = true) :
    ∀ json : Json, json.everyScalar test = true → json.everyScalar test' = true →
      json.everyScalar test'' = true
  | .null, h, h' | .bool _, h, h' | .int _, h, h' | .float _, h, h' | .str _, h, h'
  | .unreadable, h, h' => himp _ h h'
  | .arr items, h, h' => everyItem_of_and himp items h h'
  | .obj ms, h, h' => everyMember_of_and himp ms h h'

theorem everyItem_of_and {test' test'' : Json → Bool}
    (himp : ∀ json, test json = true → test' json = true → test'' json = true) :
    ∀ items : List Json, everyItem test items = true → everyItem test' items = true →
      everyItem test'' items = true
  | [], _, _ => rfl
  | item :: items, h, h' => by
    obtain ⟨hitem, hitems⟩ := Bool.and_eq_true_iff.mp h
    obtain ⟨hitem', hitems'⟩ := Bool.and_eq_true_iff.mp h'
    exact Bool.and_eq_true_iff.mpr
      ⟨everyScalar_of_and himp item hitem hitem', everyItem_of_and himp items hitems hitems'⟩

theorem everyMember_of_and {test' test'' : Json → Bool}
    (himp : ∀ json, test json = true → test' json = true → test'' json = true) :
    ∀ ms : List (String × Json), everyMember test ms = true → everyMember test' ms = true →
      everyMember test'' ms = true
  | [], _, _ => rfl
  | (_, value) :: ms, h, h' => by
    obtain ⟨hvalue, hms⟩ := Bool.and_eq_true_iff.mp h
    obtain ⟨hvalue', hms'⟩ := Bool.and_eq_true_iff.mp h'
    exact Bool.and_eq_true_iff.mpr
      ⟨everyScalar_of_and himp value hvalue hvalue', everyMember_of_and himp ms hms hms'⟩
end

end Every

/-! ### Values that can be written -/

/-- A scalar that the exchange format has: an integer of 64 bits, a finite
double. -/
def isFitting : Json → Bool
  | .int n => -2 ^ 63 ≤ n && n < 2 ^ 64
  | .float x => x.isFinite
  | _ => true

def isNotUnreadable : Json → Bool
  | .unreadable => false
  | _ => true

/-- Everything in the value is readable and fits the exchange format. -/
def isSound (json : Json) : Bool :=
  json.everyScalar fun scalar => isFitting scalar && isNotUnreadable scalar

def membersSound (ms : List (String × Json)) : Bool :=
  everyMember (fun scalar => isFitting scalar && isNotUnreadable scalar) ms

mutual
theorem isReadable_eq : ∀ json : Json, json.isReadable = json.everyScalar isNotUnreadable
  | .null | .bool _ | .int _ | .float _ | .str _ | .unreadable => rfl
  | .arr items => itemsReadable_eq items
  | .obj ms => membersReadable_eq ms

theorem itemsReadable_eq : ∀ items : List Json,
    itemsReadable items = everyItem isNotUnreadable items
  | [] => rfl
  | item :: items => by rw [itemsReadable, isReadable_eq item, itemsReadable_eq items, everyItem]

theorem membersReadable_eq : ∀ ms : List (String × Json),
    membersReadable ms = everyMember isNotUnreadable ms
  | [] => rfl
  | (_, value) :: ms => by
    rw [membersReadable, isReadable_eq value, membersReadable_eq ms, everyMember]
end

/-- What is sound is readable. -/
theorem isReadable_of_isSound {json : Json} (h : json.isSound = true) :
    json.isReadable = true := by
  rw [isReadable_eq]
  exact everyScalar_of_and (fun _ h _ => (Bool.and_eq_true_iff.mp h).2) json h h

theorem membersReadable_of_membersSound {ms : List (String × Json)} (h : membersSound ms = true) :
    membersReadable ms = true := by
  rw [membersReadable_eq]
  exact everyMember_of_and (fun _ h _ => (Bool.and_eq_true_iff.mp h).2) ms h h

/-! ### Equality -/

mutual
theorem same_iff : ∀ {a b : Json}, a.same b = true ↔ a = b
  | .arr as, b => by cases b <;> simp [same, sameItems_iff]
  | .obj as, b => by cases b <;> simp [same, sameMembers_iff]
  | .null, b | .bool _, b | .int _, b | .float _, b | .str _, b | .unreadable, b => by
    cases b <;> simp [same]

theorem sameItems_iff : ∀ {as bs : List Json}, sameItems as bs = true ↔ as = bs
  | [], bs => by cases bs <;> simp [sameItems]
  | a :: as, bs => by cases bs <;> simp [sameItems, same_iff, sameItems_iff]

theorem sameMembers_iff : ∀ {as bs : List (String × Json)}, sameMembers as bs = true ↔ as = bs
  | [], bs => by cases bs <;> simp [sameMembers]
  | (k, a) :: as, bs => by
    cases bs with
    | nil => simp [sameMembers]
    | cons m bs => simp [sameMembers, same_iff, sameMembers_iff, Prod.ext_iff]
end

instance : DecidableEq Json := fun a b => decidable_of_iff (a.same b = true) same_iff

end EcmaPrinter.Json
