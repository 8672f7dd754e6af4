/-
# Leaves of a tree

The parts of a tree that hold no further nodes: names, literals, template texts,
and TypeScript payloads. The last are never printed and kept as the JSON they
came as, in canonical form, with only their span understood.

Each leaf is written as the members of an object and read back from them. The
reader takes the members in any order, ignores those it does not know, and fills
in defaults; the writer writes every member. A leaf that is not a payload is also
read from an array, by the places of its fields.

Key definitions: `Opaque`, `Ident`, `StringLit`, `NumberLit`, `RegexLit`,
`Quasi`, `PrivateName`, and `members`, `ofMembers?` and `slots` of each.
-/
import EcmaPrinter.Json.Record
import EcmaPrinter.Source.Span
import EcmaPrinter.Tree.Operator

namespace EcmaPrinter

open Json

/-! ## Positions -/

def LineCol.toJson (p : LineCol) : Json :=
  .obj [("line", ofWord p.line), ("column", ofWord p.column)]

def LineCol.slots : List Slot := [must "line", must "column"]

def LineCol.ofJson? (json : Json) : Option LineCol := do
  let ms ← asRecord LineCol.slots json
  let line ← required ms "line" asWord
  let column ← required ms "column" asWord
  return ⟨line, column⟩

def Loc.toJson (l : Loc) : Json :=
  .obj [("start", l.start.toJson), ("end", l.stop.toJson)]

def Loc.slots : List Slot := [must "start", must "end"]

def Loc.ofJson? (json : Json) : Option Loc := do
  let ms ← asRecord Loc.slots json
  let start ← required ms "start" LineCol.ofJson?
  let stop ← required ms "end" LineCol.ofJson?
  return ⟨start, stop⟩

def Span.toJson (s : Span) : Json :=
  .obj [("start", ofWord s.start), ("end", ofWord s.stop), ("loc", s.loc.toJson),
    ("ctxt", ofWord s.context)]

def Span.slots : List Slot := [must "start", must "end", may "loc", may "ctxt"]

/-- A span needs its offsets. The context may go by either of two names. -/
def Span.ofJson? (json : Json) : Option Span := do
  let ms ← asRecord Span.slots json
  let start ← required ms "start" asWord
  let stop ← required ms "end" asWord
  let loc ← defaulted ms "loc" Span.dummy.loc Loc.ofJson?
  let context ← defaultedAny ms ["ctxt", "context"] 0 asWord
  return ⟨start, stop, loc, context⟩

/-- The member `span`, dummy if absent. -/
def spanOf (ms : List (String × Json)) : Option Span :=
  defaulted ms "span" Span.dummy Span.ofJson?

/-! ## Tokens -/

/-- A token is written as its text. It is also read from an object whose only
member has that text as its key and no value: `null`, or in a stored object an
empty object. -/
def asToken {α : Type} [Token α] (stored : Bool) : Json → Option α
  | .str s => Token.ofText? s
  | .obj [(s, .null)] => Token.ofText? s
  | .obj [(s, .obj [])] => if stored then Token.ofText? s else none
  | _ => none

def ofToken {α : Type} [Token α] (t : α) : Json := .str (Token.text t)

/-! ## TypeScript payloads -/

/-- A part of a tree that is kept without being understood. -/
structure Opaque where
  span : Span
  rest : List (String × Json)

namespace Opaque

/-- The members other than the given ones, in canonical form. They are kept, so they
must be readable. -/
def restOf (known : List String) (ms : List (String × Json)) : Option (List (String × Json)) :=
  let rest := ms.filter fun m => !known.contains m.1
  if membersReadable rest then some (sortMembers (canonicalMembers rest)) else none

def members (o : Opaque) : List (String × Json) := ("span", o.span.toJson) :: o.rest

def ofMembers? (ms : List (String × Json)) : Option Opaque := do
  let span ← spanOf ms
  let rest ← restOf ["span"] ms
  return ⟨span, rest⟩

def toJson (o : Opaque) : Json := .obj o.members

/-- The members that are kept have no places, so a payload is no array. -/
def ofJson? (json : Json) : Option Opaque := asMembers json >>= ofMembers?

end Opaque

/-! ## Names -/

structure Ident where
  span : Span
  name : String
  isOptional : Bool
  typing : Option Opaque

namespace Ident

def ofName (name : String) : Ident := ⟨Span.dummy, name, false, none⟩

def members (i : Ident) : List (String × Json) :=
  [("span", i.span.toJson), ("value", .str i.name), ("optional", .bool i.isOptional)] ++
    memberIf "typeAnnotation" Opaque.toJson i.typing

def slots : List Slot := spanned [must "value", may "optional", may "typeAnnotation"]

def ofMembers? (ms : List (String × Json)) : Option Ident := do
  let span ← spanOf ms
  let name ← required ms "value" asString
  let isOptional ← defaulted ms "optional" false asBool
  let typing ← optional ms "typeAnnotation" Opaque.ofJson?
  return ⟨span, name, isOptional, typing⟩

def toJson (i : Ident) : Json := .obj i.members

def ofJson? (json : Json) : Option Ident := asRecord slots json >>= ofMembers?

end Ident

/-- A name with a hash in front, private to a class. -/
structure PrivateName where
  span : Span
  id : Ident

namespace PrivateName

def members (p : PrivateName) : List (String × Json) :=
  [("span", p.span.toJson), ("id", p.id.toJson)]

def slots : List Slot := spanned [must "id"]

def ofMembers? (ms : List (String × Json)) : Option PrivateName := do
  let span ← spanOf ms
  let id ← required ms "id" Ident.ofJson?
  return ⟨span, id⟩

def toJson (p : PrivateName) : Json := .obj p.members

def ofJson? (json : Json) : Option PrivateName := asRecord slots json >>= ofMembers?

end PrivateName

/-! ## Literals -/

/-- A string, with its escapes already resolved. -/
structure StringLit where
  span : Span
  value : String
  hasEscape : Bool

namespace StringLit

def ofValue (value : String) : StringLit := ⟨Span.dummy, value, false⟩

def members (s : StringLit) : List (String × Json) :=
  [("span", s.span.toJson), ("value", .str s.value), ("has_escape", .bool s.hasEscape)]

def slots : List Slot := spanned [must "value", may "has_escape"]

def ofMembers? (ms : List (String × Json)) : Option StringLit := do
  let span ← spanOf ms
  let value ← required ms "value" asString
  let hasEscape ← defaulted ms "has_escape" false asBool
  return ⟨span, value, hasEscape⟩

def toJson (s : StringLit) : Json := .obj s.members

def ofJson? (json : Json) : Option StringLit := asRecord slots json >>= ofMembers?

end StringLit

structure NumberLit where
  span : Span
  value : Binary64

namespace NumberLit

def ofValue (value : Binary64) : NumberLit := ⟨Span.dummy, value⟩

def members (n : NumberLit) : List (String × Json) :=
  [("span", n.span.toJson), ("value", ofDouble n.value)]

def slots : List Slot := spanned [must "value"]

def ofMembers? (ms : List (String × Json)) : Option NumberLit := do
  let span ← spanOf ms
  let value ← required ms "value" asDouble
  return ⟨span, value⟩

def toJson (n : NumberLit) : Json := .obj n.members

def ofJson? (json : Json) : Option NumberLit := asRecord slots json >>= ofMembers?

end NumberLit

/-- A regular expression. Both parts are source text. -/
structure RegexLit where
  span : Span
  pattern : StringLit
  flags : Option StringLit

namespace RegexLit

def members (r : RegexLit) : List (String × Json) :=
  [("span", r.span.toJson), ("pattern", r.pattern.toJson),
    ("flags", ofOption StringLit.toJson r.flags)]

def slots : List Slot := spanned [must "pattern", may "flags"]

def ofMembers? (ms : List (String × Json)) : Option RegexLit := do
  let span ← spanOf ms
  let pattern ← required ms "pattern" StringLit.ofJson?
  let flags ← optional ms "flags" StringLit.ofJson?
  return ⟨span, pattern, flags⟩

end RegexLit

/-- A piece of text of a template. The raw text is what is printed. -/
structure Quasi where
  span : Span
  isTail : Bool
  cooked : Option StringLit
  raw : StringLit

namespace Quasi

def ofRaw (raw : String) : Quasi := ⟨Span.dummy, false, none, StringLit.ofValue raw⟩

def members (q : Quasi) : List (String × Json) :=
  [("span", q.span.toJson), ("tail", .bool q.isTail),
    ("cooked", ofOption StringLit.toJson q.cooked), ("raw", q.raw.toJson)]

def slots : List Slot := spanned [may "tail", may "cooked", must "raw"]

def ofMembers? (ms : List (String × Json)) : Option Quasi := do
  let span ← spanOf ms
  let isTail ← defaulted ms "tail" false asBool
  let cooked ← optional ms "cooked" StringLit.ofJson?
  let raw ← required ms "raw" StringLit.ofJson?
  return ⟨span, isTail, cooked, raw⟩

def toJson (q : Quasi) : Json := .obj q.members

def ofJson? (json : Json) : Option Quasi := asRecord slots json >>= ofMembers?

end Quasi

/-! ## JSX leaves -/

/-- `namespace:name`. -/
structure JsxNamespacedName where
  span : Span
  space : Ident
  name : Ident

namespace JsxNamespacedName

def members (n : JsxNamespacedName) : List (String × Json) :=
  [("span", n.span.toJson), ("namespace", n.space.toJson), ("name", n.name.toJson)]

def slots : List Slot := spanned [must "namespace", must "name"]

def ofMembers? (ms : List (String × Json)) : Option JsxNamespacedName := do
  let span ← spanOf ms
  let space ← required ms "namespace" Ident.ofJson?
  let name ← required ms "name" Ident.ofJson?
  return ⟨span, space, name⟩

end JsxNamespacedName

structure JsxText where
  span : Span
  value : String
  raw : String

namespace JsxText

def members (t : JsxText) : List (String × Json) :=
  [("span", t.span.toJson), ("value", .str t.value), ("raw", .str t.raw)]

def slots : List Slot := spanned [must "value", must "raw"]

def ofMembers? (ms : List (String × Json)) : Option JsxText := do
  let span ← spanOf ms
  let value ← required ms "value" asString
  let raw ← required ms "raw" asString
  return ⟨span, value, raw⟩

end JsxText

/-- One end of a JSX fragment: `<>` or `</>`. -/
structure JsxFragmentTag where
  span : Span

namespace JsxFragmentTag

def members (t : JsxFragmentTag) : List (String × Json) := [("span", t.span.toJson)]

def slots : List Slot := spanned []

def ofMembers? (ms : List (String × Json)) : Option JsxFragmentTag := do
  let span ← spanOf ms
  return ⟨span⟩

def toJson (t : JsxFragmentTag) : Json := .obj t.members

def ofJson? (json : Json) : Option JsxFragmentTag := asRecord slots json >>= ofMembers?

end JsxFragmentTag

end EcmaPrinter
