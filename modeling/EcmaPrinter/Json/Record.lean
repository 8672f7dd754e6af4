/-
# Reading objects

An object is read by looking up the members it is known to have. A member that
repeats makes the reading fail; a member that nobody asks for is ignored, however
often it repeats and whatever it holds. A member may be required, or have a
default that is taken when it is absent. Only where `null` means something is it
accepted.

A record may be given as an array too: the values of its fields in their order, from
which fields with a default may be left out at the end. Its items become members under
the keys of their places, which is all that is different about it.

A value whose parts decide how it is read is first stored as a whole. Then nothing in it
may be unreadable, asked for or not.

Members are pairs of a key and something that was made of the value, so that the
same rules serve values that are read at once and values that are read later.

Key definitions: `Found`, `find`, `required`, `defaulted`, `nullable`, `Slot`,
`place`, `asRecord`, `asMembers`, `storedMembers`.
-/
import EcmaPrinter.Json.Parse

namespace EcmaPrinter.Json

/-- What looking for a member finds. -/
inductive Found (α : Type) where
  | absent
  | once (value : α)
  | repeated

/-- The member under one of the given keys. -/
def find {α : Type} (keys : List String) (members : List (String × α)) : Found α :=
  match members.filter fun m => keys.contains m.1 with
  | [] => .absent
  | [m] => .once m.2
  | _ => .repeated

/-- A member that must be there. -/
def required {α β : Type} (members : List (String × α)) (key : String)
    (read : α → Option β) : Option β :=
  match find [key] members with
  | .once value => read value
  | _ => none

/-- A member, under one of several keys, that has a default. -/
def defaultedAny {α β : Type} (members : List (String × α)) (keys : List String)
    (default : β) (read : α → Option β) : Option β :=
  match find keys members with
  | .absent => some default
  | .once value => read value
  | .repeated => none

/-- A member that has a default. -/
def defaulted {α β : Type} (members : List (String × α)) (key : String)
    (default : β) (read : α → Option β) : Option β :=
  defaultedAny members [key] default read

/-- Reads `null` as nothing. -/
def nullable {β : Type} (read : Json → Option β) : Json → Option (Option β)
  | .null => some none
  | value => (read value).map some

/-- A member that may be absent or `null`. -/
def optional {β : Type} (members : List (String × Json)) (key : String)
    (read : Json → Option β) : Option (Option β) :=
  defaulted members key none (nullable read)

/-! ## Scalars -/

def asString : Json → Option String
  | .str s => some s
  | _ => none

def asBool : Json → Option Bool
  | .bool b => some b
  | _ => none

/-- A 32-bit word, which must be written as an integer. -/
def asWord : Json → Option UInt32
  | .int n => if 0 ≤ n ∧ n < 2 ^ 32 then some (UInt32.ofNat n.toNat) else none
  | _ => none

/-- A double, which may be written as an integer. -/
def asDouble : Json → Option Binary64
  | .int n => some (Binary64.ofInt n)
  | .float x => some x
  | _ => none

/-- A list read item by item. -/
def asList {β : Type} (read : Json → Option β) : Json → Option (List β)
  | .arr items => items.mapM read
  | _ => none

/-! ## Records -/

/-- A field of a record that is given as an array. -/
structure Slot where
  key : String
  /-- Whether the array may end in front of the field. -/
  hasDefault : Bool
deriving DecidableEq

/-- A field that an array must have. -/
def must (key : String) : Slot := ⟨key, false⟩

/-- A field that an array may end in front of. -/
def may (key : String) : Slot := ⟨key, true⟩

/-- The fields of a record with a span, which comes first. -/
def spanned (slots : List Slot) : List Slot := may "span" :: slots

/-- The items of an array under the keys of their places. No item may be left over, and
no field without a default may be left out. -/
def place {α : Type} : List Slot → List α → Option (List (String × α))
  | slots, [] => if slots.all Slot.hasDefault then some [] else none
  | [], _ :: _ => none
  | slot :: slots, item :: items =>
    (place slots items).map fun members => (slot.key, item) :: members

/-- The members of a record: those of an object, or the items of an array in their
places. Some records are not given as arrays. -/
def asRecord (slots : Option (List Slot)) : Json → Option (List (String × Json))
  | .obj members => some members
  | .arr items => do
    let slots ← slots
    place slots items
  | _ => none

/-- The members of a record that is never given as an array. -/
def asMembers : Json → Option (List (String × Json)) := asRecord none

/-- The members of an object that is stored as a whole, or is part of one that is
stored already. -/
def storedMembers (stored : Bool) : Json → Option (List (String × Json))
  | .obj members => if stored || membersReadable members then some members else none
  | _ => none

/-- The items of an array that is stored as a whole, or is part of one that is stored
already. -/
def storedItems (stored : Bool) (items : List Json) : Option (List Json) :=
  if stored || itemsReadable items then some items else none

def ofWord (n : UInt32) : Json := .int n.toNat

/-- A double as a number. What is not finite has no numeral and becomes `null`. -/
def ofDouble (x : Binary64) : Json := if x.isFinite then .float x else .null

/-- A value that may be absent, `null` if it is. -/
def ofOption {β : Type} (write : β → Json) (value : Option β) : Json :=
  (value.map write).getD .null

/-- A member that is left out where its value is absent. -/
def memberIf {β : Type} (key : String) (write : β → Json) (value : Option β) :
    List (String × Json) :=
  match value with
  | some v => [(key, write v)]
  | none => []

end EcmaPrinter.Json
