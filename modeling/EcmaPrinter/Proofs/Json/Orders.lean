/-
# Members in another order

Where no key repeats, the members of an object may be put in another order: what is found under a
key, what is readable and the canonical form stay the same.

Key definitions: `hasDistinctKeys`, `Reordered`.
Key theorems: `find_eq_of_perm`, `sortMembers_eq_of_perm`.
-/
import EcmaPrinter.Proofs.Json.Canonical

namespace EcmaPrinter.Json

/-! ### Values in which no key repeats -/

mutual
/-- No object in a value has two members with one key. -/
def hasDistinctKeys : Json → Bool
  | .arr items => itemsDistinct items
  | .obj ms => decide (ms.map Prod.fst).Nodup && membersDistinct ms
  | _ => true

def itemsDistinct : List Json → Bool
  | [] => true
  | item :: rest => item.hasDistinctKeys && itemsDistinct rest

def membersDistinct : List (String × Json) → Bool
  | [] => true
  | (_, value) :: rest => value.hasDistinctKeys && membersDistinct rest
end

section Distinct

variable {ms : List (String × Json)} {items : List Json}

theorem membersDistinct_iff :
    membersDistinct ms = true ↔ ∀ m ∈ ms, m.2.hasDistinctKeys = true := by
  induction ms with
  | nil => simp [membersDistinct]
  | cons m ms ih => simp [membersDistinct, ih]

theorem itemsDistinct_iff :
    itemsDistinct items = true ↔ ∀ item ∈ items, item.hasDistinctKeys = true := by
  induction items with
  | nil => simp [itemsDistinct]
  | cons item items ih => simp [itemsDistinct, ih]

theorem nodup_of_hasDistinctKeys (h : (Json.obj ms).hasDistinctKeys = true) :
    (ms.map Prod.fst).Nodup :=
  of_decide_eq_true (Bool.and_eq_true_iff.mp h).1

theorem hasDistinctKeys_of_mem {m : String × Json} (h : (Json.obj ms).hasDistinctKeys = true)
    (hm : m ∈ ms) : m.2.hasDistinctKeys = true :=
  membersDistinct_iff.mp (Bool.and_eq_true_iff.mp h).2 m hm

end Distinct

/-! ### Other orders -/

/-- Members of objects in a value, at any depth, are put in another order. -/
inductive Reordered : Json → Json → Prop where
  | members {ms ms' : List (String × Json)} : ms.Perm ms' → Reordered (.obj ms) (.obj ms')
  | member {front back : List (String × Json)} {key : String} {a b : Json} : Reordered a b →
      Reordered (.obj (front ++ (key, a) :: back)) (.obj (front ++ (key, b) :: back))
  | item {front back : List Json} {a b : Json} : Reordered a b →
      Reordered (.arr (front ++ a :: back)) (.arr (front ++ b :: back))

/-! ### Sorting members that are in another order -/

theorem perm_insertMember {key : String} {value : Json} : ∀ {ms : List (String × Json)},
    key ∉ ms.map Prod.fst → (insertMember key value ms).Perm ((key, value) :: ms)
  | [], _ => .refl _
  | (k, v) :: ms, h => by
    have hne : ¬ key = k := fun hkey => h (hkey ▸ List.mem_cons_self)
    rw [insertMember, if_neg hne]
    split
    · exact .refl _
    · exact ((perm_insertMember fun hmem => h (List.mem_cons_of_mem _ hmem)).cons _).trans
        (.swap _ _ _)

theorem perm_foldl_insertMember : ∀ (ms : List (String × Json)) {sorted : List (String × Json)},
    ((sorted ++ ms).map Prod.fst).Nodup →
      (ms.foldl (fun sorted m => insertMember m.1 m.2 sorted) sorted).Perm (sorted ++ ms)
  | [], _, _ => by rw [List.append_nil]; exact .refl _
  | m :: ms, sorted, h => by
    have hmiddle : (m :: (sorted ++ ms)).Perm (sorted ++ m :: ms) := List.perm_middle.symm
    have hdistinct := (hmiddle.map Prod.fst).nodup_iff.mpr h
    have hnew : m.1 ∉ sorted.map Prod.fst := fun hmem =>
      (List.nodup_cons.mp hdistinct).1 (by
        rw [List.map_append]
        exact List.mem_append_left _ hmem)
    have hinsert : (insertMember m.1 m.2 sorted ++ ms).Perm (m :: (sorted ++ ms)) :=
      (perm_insertMember hnew).append_right ms
    exact (perm_foldl_insertMember ms ((hinsert.map Prod.fst).nodup_iff.mpr hdistinct)).trans
      (hinsert.trans hmiddle)

/-- Sorting drops no members if no key repeats. -/
theorem perm_sortMembers {ms : List (String × Json)} (h : (ms.map Prod.fst).Nodup) :
    (sortMembers ms).Perm ms :=
  perm_foldl_insertMember ms h

/-- **Sorting forgets the order of the members.** -/
theorem sortMembers_eq_of_perm {ms ms' : List (String × Json)} (hperm : ms.Perm ms')
    (h : (ms.map Prod.fst).Nodup) : sortMembers ms = sortMembers ms' := by
  have h' := (hperm.map Prod.fst).nodup_iff.mp h
  refine List.Perm.eq_of_pairwise (fun a b _ _ hab hba => ?_) (isSorted_sortMembers ms)
    (isSorted_sortMembers ms') ((perm_sortMembers h).trans (hperm.trans (perm_sortMembers h').symm))
  exact absurd (String.lt_trans hab hba) (String.lt_irrefl _)

theorem insertMember_ne_nil (key : String) (value : Json) (ms : List (String × Json)) :
    insertMember key value ms ≠ [] := by
  cases ms with
  | nil => exact List.cons_ne_nil _ _
  | cons m ms =>
    rw [insertMember]
    split
    · exact List.cons_ne_nil _ _
    · split <;> exact List.cons_ne_nil _ _

theorem sortMembers_eq_nil {ms : List (String × Json)} (h : sortMembers ms = []) : ms = [] := by
  rcases List.eq_nil_or_concat ms with rfl | ⟨init, m, rfl⟩
  · rfl
  · rw [sortMembers, List.concat_eq_append, List.foldl_append] at h
    exact absurd h (insertMember_ne_nil _ _ _)

/-- Only the empty object has the canonical form of the empty object. -/
theorem canonical_eq_nil {json : Json} (h : json.canonical = .obj []) : json = .obj [] := by
  cases json with
  | obj ms =>
    have hnil := sortMembers_eq_nil (Json.obj.inj h)
    cases ms with
    | nil => rfl
    | cons m ms => cases hnil
  | _ => cases h

/-! ### Readable members -/

section Readable

variable {ms ms' : List (String × Json)}

theorem membersReadable_append :
    membersReadable (ms ++ ms') = (membersReadable ms && membersReadable ms') := by
  rw [membersReadable_eq, membersReadable_eq, membersReadable_eq, Bool.eq_iff_iff,
    Bool.and_eq_true_iff, everyMember_iff, everyMember_iff, everyMember_iff, List.forall_mem_append]

theorem membersReadable_of_perm (h : ms.Perm ms') : membersReadable ms = membersReadable ms' := by
  rw [membersReadable_eq, membersReadable_eq, Bool.eq_iff_iff, everyMember_iff, everyMember_iff]
  exact ⟨fun hms m hm => hms m (h.mem_iff.mpr hm), fun hms m hm => hms m (h.mem_iff.mp hm)⟩

theorem itemsReadable_append {items items' : List Json} :
    itemsReadable (items ++ items') = (itemsReadable items && itemsReadable items') := by
  rw [itemsReadable_eq, itemsReadable_eq, itemsReadable_eq, Bool.eq_iff_iff,
    Bool.and_eq_true_iff, everyItem_iff, everyItem_iff, everyItem_iff, List.forall_mem_append]

end Readable

/-! ### Members under certain keys -/

section Members

variable {ms ms' front back : List (String × Json)} {key : String} {value : Json}

theorem filter_of_pos (test : String → Bool) (h : test key = true) :
    ((front ++ (key, value) :: back).filter fun m => test m.1) =
      (front.filter fun m => test m.1) ++ (key, value) :: back.filter fun m => test m.1 := by
  simp [List.filter_append, h]

theorem filter_of_neg (test : String → Bool) (h : test key = false) :
    ((front ++ (key, value) :: back).filter fun m => test m.1) =
      (front ++ back).filter fun m => test m.1 := by
  simp [List.filter_append, h]

/-- Members in another order are the same if there are fewer than two. -/
theorem eq_or_two_of_perm (h : ms.Perm ms') :
    ms = ms' ∨ (∃ m n rest, ms = m :: n :: rest) ∧ ∃ m n rest, ms' = m :: n :: rest := by
  rcases ms with _ | ⟨m, _ | ⟨n, rest⟩⟩
  · exact .inl h.nil_eq
  · exact .inl (List.singleton_perm.mp h)
  · rcases ms' with _ | ⟨m', _ | ⟨n', rest'⟩⟩
    · exact absurd h.length_eq (by simp)
    · exact absurd h.length_eq (by simp)
    · exact .inr ⟨⟨m, n, rest, rfl⟩, m', n', rest', rfl⟩

/-- The order of the members does not show in what is found. -/
theorem find_eq_of_perm (hperm : ms.Perm ms') (keys : List String) :
    find keys ms = find keys ms' := by
  have hfound := hperm.filter fun m => keys.contains m.1
  rw [find, find]
  rcases eq_or_two_of_perm hfound with h | ⟨⟨_, _, _, h⟩, _, _, _, h'⟩
  · rw [h]
  · rw [h, h']

end Members

end EcmaPrinter.Json
