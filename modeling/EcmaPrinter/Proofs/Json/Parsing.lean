/-
# Written values are read back

The parser makes of the lexemes of a value the value, as long as it is not nested too
deep. What it reads of an array or object goes behind what it has read of it, so the
induction is over the items or members that are left.

Key definitions: `Parser.Takes`.
Key theorems: `takes_lexemesOf`, `parse?_text`.
-/
import EcmaPrinter.Json.Parse
import EcmaPrinter.Proofs.Json.Lexing

open EcmaPrinter.Json.Parser

namespace EcmaPrinter.Json

/-! ### Reading lexemes in parts -/

/-- The parser gets from one state to another by these lexemes. -/
def Parser.Takes (p : Parser) (ls : List Lexeme) (q : Parser) : Prop := ls.foldlM step p = some q

namespace Parser.Takes

variable {p q r : Parser} {l : Lexeme} {ls ms : List Lexeme}

theorem cons (h : step p l = some q) (h' : Takes q ls r) : Takes p (l :: ls) r := by
  rw [Takes, List.foldlM_cons, h]
  exact h'

theorem append (h : Takes p ls q) (h' : Takes q ms r) : Takes p (ls ++ ms) r := by
  rw [Takes, List.foldlM_append, h]
  exact h'

theorem last (h : Takes p ls q) (h' : step q l = some r) : Takes p (ls ++ [l]) r :=
  h.append (.cons h' rfl)

end Parser.Takes

/-! ### Reading the lexemes of a value -/

theorem nested_of_lt {stack : List Frame} {json : Json} (h : stack.length < maxDepth) :
    nested stack json = json :=
  if_pos h

/-- The first item of an array is read like any other, for no value starts with a closing
bracket. -/
theorem takes_itemOrClose {item : Json} {items : List Json} {stack : List Frame} {q : Parser}
    (h : Takes (.going .value stack) (joined (itemLexemes (item :: items))) q) :
    Takes (.going .itemOrClose stack) (joined (itemLexemes (item :: items))) q := by
  cases items <;> cases item <;> exact h

/-- The first key of an object is read like any other. -/
theorem takes_keyOrClose {m : String × Json} {members : List (String × Json)}
    {stack : List Frame} {q : Parser}
    (h : Takes (.going .key stack) (joined (memberLexemes (m :: members))) q) :
    Takes (.going .keyOrClose stack) (joined (memberLexemes (m :: members))) q := by
  cases members <;> exact h

theorem ofMembers_map (members : List (String × Json)) :
    ofMembers (members.map fun m => (some m.1, m.2)) = .obj members := by
  have hkeys : (members.map fun m => (some m.1, m.2)).mapM
      (fun m => m.1.map fun key => (key, m.2)) = some members := by
    induction members with
    | nil => rfl
    | cons m members ih =>
      rw [List.map_cons, List.mapM_cons, ih]
      rfl
  rw [ofMembers, hkeys]

/-- The state in which an array is read, with the items read so far. -/
def inArray (expect : Expect) (read : List Json) (stack : List Frame) : Parser :=
  .going expect (.items read.reverse :: stack)

/-- The state in which an object is read, with the members read so far. -/
def inObject (expect : Expect) (read : List (String × Json)) (key : Option String)
    (stack : List Frame) : Parser :=
  .going expect (.members (read.map fun m => (some m.1, m.2)).reverse key :: stack)

/-- Closing an array that is not too deep. -/
theorem close_array (items : List Json) {stack : List Frame} (h : stack.length < maxDepth) :
    close (.items items.reverse :: stack) .closeBracket = some (deliver (.arr items) stack) := by
  rw [close, List.reverse_reverse, nested_of_lt h]

/-- Closing an object that is not too deep. -/
theorem close_object (members : List (String × Json)) (key : Option String) {stack : List Frame}
    (h : stack.length < maxDepth) :
    close (.members (members.map fun m => (some m.1, m.2)).reverse key :: stack) .closeBrace =
      some (deliver (.obj members) stack) := by
  rw [close, List.reverse_reverse, nested_of_lt h, ofMembers_map]

mutual
/-- **The lexemes of a value are read as it.** -/
theorem takes_lexemesOf : ∀ (json : Json) {stack : List Frame}, json.isSound = true →
    json.depth + stack.length ≤ maxDepth →
    Takes (.going .value stack) json.lexemesOf (deliver json stack)
  | .null, _, _, _ | .bool _, _, _, _ | .int _, _, _, _ | .float _, _, _, _ | .str _, _, _, _ => rfl
  | .unreadable, _, h, _ => by cases h
  | .arr [], stack, _, hdepth => by
    rw [depth] at hdepth
    exact .cons rfl (.cons (close_array [] (by omega)) rfl)
  | .arr (item :: items), stack, h, hdepth => by
    rw [depth] at hdepth
    have hitems := takes_items (item :: items) [] stack (by simp) h (by omega)
    exact .cons rfl ((takes_itemOrClose hitems).last (close_array _ (by omega)))
  | .obj [], stack, _, hdepth => by
    rw [depth] at hdepth
    exact .cons rfl (.cons (close_object [] none (by omega)) rfl)
  | .obj (m :: members), stack, h, hdepth => by
    rw [depth] at hdepth
    obtain ⟨key, hmembers⟩ := takes_members (m :: members) [] none stack (by simp) h (by omega)
    exact .cons rfl ((takes_keyOrClose hmembers).last (close_object _ key (by omega)))

/-- The items of an array, behind those that were read. -/
theorem takes_items : ∀ (items before : List Json) (stack : List Frame), items ≠ [] →
    (Json.arr items).isSound = true → itemsDepth items + (stack.length + 1) ≤ maxDepth →
    Takes (inArray .value before stack) (joined (itemLexemes items))
      (inArray .commaOrClose (before ++ items) stack)
  | [], _, _, hne, _, _ => absurd rfl hne
  | item :: items, before, stack, _, h, hdepth => by
    obtain ⟨hitem, hitems⟩ := Bool.and_eq_true_iff.mp h
    rw [itemsDepth] at hdepth
    have hdeliver : deliver item (.items before.reverse :: stack) =
        inArray .commaOrClose (before ++ [item]) stack := by
      simp [deliver, inArray]
    have hfirst : Takes (inArray .value before stack) item.lexemesOf
        (inArray .commaOrClose (before ++ [item]) stack) := by
      rw [← hdeliver]
      exact takes_lexemesOf item hitem (by rw [List.length_cons]; omega)
    match items with
    | [] => exact hfirst
    | next :: items =>
      have hrest := takes_items (next :: items) (before ++ [item]) stack (by simp) hitems (by omega)
      rw [List.append_assoc] at hrest
      exact hfirst.append (.cons rfl hrest)

/-- The members of an object, behind those that were read. -/
theorem takes_members : ∀ (members before : List (String × Json)) (key : Option String)
    (stack : List Frame), members ≠ [] → membersSound members = true →
    membersDepth members + (stack.length + 1) ≤ maxDepth →
    ∃ last, Takes (inObject .key before key stack) (joined (memberLexemes members))
      (inObject .commaOrClose (before ++ members) last stack)
  | [], _, _, _, hne, _, _ => absurd rfl hne
  | (name, value) :: members, before, key, stack, _, h, hdepth => by
    obtain ⟨hvalue, hmembers⟩ := Bool.and_eq_true_iff.mp h
    rw [membersDepth] at hdepth
    have hdeliver : deliver value
        (.members (before.map fun m => (some m.1, m.2)).reverse (some name) :: stack) =
        inObject .commaOrClose (before ++ [(name, value)]) (some name) stack := by
      simp [deliver, inObject]
    have hfirst : Takes (inObject .key before key stack)
        (.str (some name) :: .colon :: value.lexemesOf)
        (inObject .commaOrClose (before ++ [(name, value)]) (some name) stack) := by
      rw [← hdeliver]
      exact .cons rfl (.cons rfl (takes_lexemesOf value hvalue (by rw [List.length_cons]; omega)))
    match members with
    | [] => exact ⟨some name, hfirst⟩
    | next :: members =>
      obtain ⟨last, hrest⟩ := takes_members (next :: members) (before ++ [(name, value)])
        (some name) stack (by simp) hmembers (by omega)
      rw [List.append_assoc] at hrest
      exact ⟨last, hfirst.append (.cons rfl hrest)⟩
end

theorem toList_text (json : Json) : json.text.toList = json.chars := String.toList_ofList

/-- **The text of a value is read as the value**, if all of it can be written, its doubles
are read back and it is not nested too deep. -/
theorem parse?_text {json : Json} (hsound : json.isSound = true)
    (hdoubles : json.everyScalar isReread = true) (hdepth : json.depth ≤ maxDepth) :
    parse? json.text = some json := by
  have htakes : Takes (.going .value []) json.lexemesOf (deliver json []) :=
    takes_lexemesOf json hsound hdepth
  rw [parse?, toList_text, lexemes_chars hsound hdoubles]
  change (json.lexemesOf.foldlM step (.going .value []) >>= _) = _
  rw [htakes]
  rfl

end EcmaPrinter.Json
