/-
# Looking up members that were written

An object is written as a list of members with different keys, some of which are
left out. Looking up a key in such a list finds the member that was written under
it: members with other keys are passed over one by one.

Key definitions: `hasKey`.
Key theorems: `required_cons_self`, `defaulted_cons_self`, `optional_memberIf`,
`asList_map`.
-/
import EcmaPrinter.Json.Record

namespace EcmaPrinter.Json

/-- The next step of a reading that went well so far. It is a rewrite rule with a
proof, for the rules by computation make the kernel run the steps behind it. -/
@[simp high] theorem some_bind {α β : Type} (a : α) (f : α → Option β) : (some a >>= f) = f a := by
  rw [Option.bind_eq_bind, Option.bind_some]

/-- Some member has the given key. -/
def hasKey {α : Type} (ms : List (String × α)) (key : String) : Bool := ms.any fun m => m.1 == key

section Lookup

variable {α β γ : Type} {k key : String} {v : α} {ms ms' : List (String × α)}
  {read : α → Option β} {default : β}

@[simp] theorem hasKey_nil : hasKey ([] : List (String × α)) key = false := by
  simp [hasKey]

@[simp] theorem hasKey_cons : hasKey ((k, v) :: ms) key = (k == key || hasKey ms key) := by
  simp [hasKey]

@[simp] theorem hasKey_append : hasKey (ms ++ ms') key = (hasKey ms key || hasKey ms' key) :=
  List.any_append

theorem filter_of_hasKey (h : hasKey ms key = false) :
    ms.filter (fun m => [key].contains m.1) = [] := by
  rw [List.filter_eq_nil_iff]
  intro m hm
  simpa using List.any_eq_false.mp h m hm

theorem find_of_hasKey (h : hasKey ms key = false) : find [key] ms = .absent := by
  rw [find, filter_of_hasKey h]

theorem find_cons_self (h : hasKey ms key = false) : find [key] ((key, v) :: ms) = .once v := by
  rw [find, List.filter_cons_of_pos (by simp), filter_of_hasKey h]

theorem find_append (h : hasKey ms key = false) : find [key] (ms ++ ms') = find [key] ms' := by
  rw [find, List.filter_append, filter_of_hasKey h]
  rfl

theorem find_cons_ne (h : k ≠ key) : find [key] ((k, v) :: ms) = find [key] ms := by
  have hne : hasKey [(k, v)] key = false := by simpa using h
  exact find_append hne

/-- Without the members in front of them, the others are left. -/
theorem filter_without {keys : List String} (hfront : ∀ m ∈ ms, m.1 ∈ keys)
    (hkeys : ∀ key ∈ keys, hasKey ms' key = false) :
    (ms ++ ms').filter (fun m => !keys.contains m.1) = ms' := by
  have hdrop : ms.filter (fun m => !keys.contains m.1) = [] := by
    rw [List.filter_eq_nil_iff]
    intro m hm
    simpa using hfront m hm
  have hkeep : ms'.filter (fun m => !keys.contains m.1) = ms' := by
    rw [List.filter_eq_self]
    intro m hm
    rw [Bool.not_eq_true', List.contains_eq_mem, decide_eq_false_iff_not]
    intro hkey
    exact List.any_eq_false.mp (hkeys _ hkey) m hm (by simp)
  rw [List.filter_append, hdrop, hkeep, List.nil_append]

/-! ### Members that must be there, and members that have a default -/

@[simp] theorem required_cons_self (h : hasKey ms key = false) :
    required ((key, v) :: ms) key read = read v := by
  rw [required, find_cons_self h]

@[simp] theorem required_cons_ne (h : k ≠ key) :
    required ((k, v) :: ms) key read = required ms key read := by
  rw [required, find_cons_ne h, required]

@[simp] theorem defaulted_cons_self (h : hasKey ms key = false) :
    defaulted ((key, v) :: ms) key default read = read v := by
  rw [defaulted, defaultedAny, find_cons_self h]

@[simp] theorem defaulted_cons_ne (h : k ≠ key) :
    defaulted ((k, v) :: ms) key default read = defaulted ms key default read := by
  rw [defaulted, defaultedAny, find_cons_ne h, defaulted, defaultedAny]

theorem defaulted_of_hasKey (h : hasKey ms key = false) :
    defaulted ms key default read = some default := by
  rw [defaulted, defaultedAny, find_of_hasKey h]

end Lookup

/-! ### Members that may be left out -/

section LeftOut

variable {β γ : Type} {k key : String} {v : Json} {ms : List (String × Json)}
  {write : β → Json} {value : Option β} {read : Json → Option γ} {default : γ}

@[simp] theorem hasKey_memberIf :
    hasKey (memberIf k write value) key = (k == key && value.isSome) := by
  cases value <;> simp [memberIf]

@[simp] theorem defaulted_memberIf_append (h : k ≠ key) :
    defaulted (memberIf k write value ++ ms) key default read = defaulted ms key default read := by
  cases value with
  | none => rfl
  | some x => exact defaulted_cons_ne h

@[simp] theorem optional_cons_ne (h : k ≠ key) :
    optional ((k, v) :: ms) key read = optional ms key read :=
  defaulted_cons_ne h

@[simp] theorem optional_memberIf_append_ne (h : k ≠ key) :
    optional (memberIf k write value ++ ms) key read = optional ms key read :=
  defaulted_memberIf_append h

/-- A member that was written if it was there is read as it was. -/
theorem optional_memberIf {read : Json → Option β} (hms : hasKey ms key = false)
    (h : ∀ x ∈ value, nullable read (write x) = some (some x)) :
    optional (memberIf key write value ++ ms) key read = some value := by
  cases value with
  | none => exact defaulted_of_hasKey hms
  | some x => exact (defaulted_cons_self hms).trans (h x rfl)

theorem nullable_obj {read : Json → Option β} {x : β} (h : read (.obj ms) = some x) :
    nullable read (.obj ms) = some (some x) :=
  congrArg (Option.map some) h

/-- A value that was written as `null` if it was absent is read as it was. -/
theorem optional_ofOption {read : Json → Option β} (hms : hasKey ms key = false)
    (h : ∀ x ∈ value, nullable read (write x) = some (some x)) :
    optional ((key, ofOption write value) :: ms) key read = some value := by
  refine (defaulted_cons_self hms).trans ?_
  cases value with
  | none => rfl
  | some x => exact h x rfl

/-- A list that was written item by item is read as it was. -/
theorem asList_map {read : Json → Option β} {items : List β}
    (h : ∀ x ∈ items, read (write x) = some x) :
    asList read (.arr (items.map write)) = some items := by
  rw [asList]
  induction items with
  | nil => rfl
  | cons x items ih =>
    rw [List.map_cons, List.mapM_cons, h x List.mem_cons_self,
      ih fun y hy => h y (List.mem_cons_of_mem _ hy)]
    rfl

end LeftOut

end EcmaPrinter.Json
