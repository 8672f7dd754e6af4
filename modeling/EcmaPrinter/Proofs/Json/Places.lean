/-
# Records that are given as arrays

The items of an array stand under the keys of their places, and nothing else happens to
them: what is placed is the list of the keys beside the list of the items
(`place_eq_some`). So whatever holds of the items holds of the members, what is done to
the items may be done to the members, and an item with another value is a member with
another value.

Key theorems: `place_eq_some`, `place_map`, `place_replace`, `everyMember_of_asRecord`.
-/
import EcmaPrinter.Proofs.Json.Canonical

namespace EcmaPrinter.Json

section Place

variable {α β : Type}

/-- **What is placed**: every item under the key of its place, if there are places for all
of them and the other fields have defaults. -/
theorem place_eq_some : ∀ {slots : List Slot} {items : List α} {ms : List (String × α)},
    place slots items = some ms ↔
      items.length ≤ slots.length ∧ (slots.drop items.length).all Slot.hasDefault = true ∧
        ms = (slots.map Slot.key).zip items
  | [], [], ms => by simp [place, eq_comm]
  | slot :: slots, [], ms => by
    rw [place]
    by_cases h : (slot :: slots).all Slot.hasDefault = true
    · simp [h, eq_comm]
    · simp [h]
  | [], item :: items, ms => by simp [place]
  | slot :: slots, item :: items, ms => by
    have ih : ∀ {ms}, place slots items = some ms ↔ _ := place_eq_some
    rw [place]
    constructor
    · intro h
      obtain ⟨rest, hrest, rfl⟩ := Option.map_eq_some_iff.mp h
      obtain ⟨hlength, hdefaults, rfl⟩ := ih.mp hrest
      exact ⟨Nat.succ_le_succ hlength, hdefaults, rfl⟩
    · rintro ⟨hlength, hdefaults, rfl⟩
      have hrest := ih.mpr ⟨Nat.le_of_succ_le_succ hlength, hdefaults, rfl⟩
      rw [hrest]
      rfl

variable {slots : List Slot} {items : List α} {ms : List (String × α)}

/-- All items are placed, in their order. -/
theorem map_snd_place (h : place slots items = some ms) : ms.map Prod.snd = items := by
  obtain ⟨hlength, -, rfl⟩ := place_eq_some.mp h
  apply List.map_snd_zip
  rw [List.length_map]
  exact hlength

/-- An item stands under the key of a field. -/
theorem mem_keys_of_place (h : place slots items = some ms) {m : String × α} (hm : m ∈ ms) :
    m.1 ∈ slots.map Slot.key := by
  obtain ⟨-, -, rfl⟩ := place_eq_some.mp h
  exact (List.of_mem_zip hm).1

theorem mem_items_of_place (h : place slots items = some ms) {m : String × α} (hm : m ∈ ms) :
    m.2 ∈ items := by
  rw [← map_snd_place h]
  exact List.mem_map_of_mem hm

/-- What is done to all items is done to all members. -/
theorem place_map (f : α → β) (slots : List Slot) (items : List α) :
    place slots (items.map f) = (place slots items).map fun ms => ms.map fun m => (m.1, f m.2) := by
  induction items generalizing slots with
  | nil =>
    rw [List.map_nil, place, place]
    split <;> rfl
  | cons item items ih =>
    cases slots with
    | nil => rfl
    | cons slot slots =>
      rw [List.map_cons, place, place, ih]
      cases place slots items <;> rfl

/-- **An item with another value** is a member with another value, under the key of its
place. -/
theorem place_replace {front back : List α} {a : α} (h : place slots (front ++ a :: back) = some ms) :
    ∃ key before after, (slots.map Slot.key)[front.length]? = some key ∧
      ms = before ++ (key, a) :: after ∧
      ∀ b, place slots (front ++ b :: back) = some (before ++ (key, b) :: after) := by
  induction front generalizing slots ms with
  | nil =>
    cases slots with
    | nil => cases h
    | cons slot slots =>
      obtain ⟨rest, hrest, rfl⟩ := Option.map_eq_some_iff.mp h
      refine ⟨slot.key, [], rest, rfl, rfl, fun b => ?_⟩
      rw [List.nil_append, place, hrest]
      rfl
  | cons item front ih =>
    cases slots with
    | nil => cases h
    | cons slot slots =>
      obtain ⟨rest, hrest, rfl⟩ := Option.map_eq_some_iff.mp h
      obtain ⟨key, before, after, hkey, rfl, hother⟩ := ih hrest
      refine ⟨key, (slot.key, item) :: before, after, hkey, rfl, fun b => ?_⟩
      rw [List.cons_append, place, hother b]
      rfl

end Place

/-! ### Members of records -/

section Members

variable {slots : Option (List Slot)} {json : Json} {ms : List (String × Json)}

/-- What a record is made of: the members of an object, or placed items. -/
theorem asRecord_cases (h : asRecord slots json = some ms) :
    json = .obj ms ∨ ∃ items fields, json = .arr items ∧ slots = some fields ∧
      place fields items = some ms := by
  cases json with
  | obj members => exact .inl (congrArg Json.obj (Option.some.inj h))
  | arr items =>
    obtain ⟨fields, hslots, hplace⟩ := Option.bind_eq_some_iff.mp h
    exact .inr ⟨items, fields, rfl, hslots, hplace⟩
  | _ => cases h

/-- What holds of all scalars of a record holds of those of its members. -/
theorem everyMember_of_asRecord {test : Json → Bool} (h : asRecord slots json = some ms)
    (hjson : json.everyScalar test = true) : everyMember test ms = true := by
  rcases asRecord_cases h with rfl | ⟨items, fields, rfl, -, hplace⟩
  · exact hjson
  · refine everyMember_iff.mpr fun m hm => ?_
    exact everyItem_iff.mp hjson m.2 (mem_items_of_place hplace hm)

/-- As much is readable of the members as of the items. -/
theorem membersReadable_of_place {fields : List Slot} {items : List Json}
    (h : place fields items = some ms) : membersReadable ms = itemsReadable items := by
  rw [← map_snd_place h]
  clear h
  induction ms with
  | nil => rfl
  | cons m ms ih => rw [membersReadable, List.map_cons, itemsReadable, ih]

end Members

end EcmaPrinter.Json
