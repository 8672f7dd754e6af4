/-
# JSON values

Trees are exchanged as JSON. Members of an object keep the order and the
repetitions of the text they were read from; whoever reads an object decides
what a repetition means. A number is an integer if it was written without point
and exponent and fits 64 bits, and a double otherwise.

A text may write a value that cannot be represented: a number beyond the largest
double, a string with half a surrogate pair, something nested too deep. Such a
value is unreadable. It does no harm where nobody asks for it.

Parts of a tree that are kept but not understood are put in a canonical form:
members in the order of their keys, the last of several members with one key.

Key definitions: `Json`, `Json.isReadable`, `Json.canonical`, `Json.depth`.
-/
import EcmaPrinter.Numeral.Binary64

namespace EcmaPrinter

inductive Json where
  | null
  | bool (value : Bool)
  | int (value : Int)
  | float (value : Binary64)
  | str (value : String)
  | arr (items : List Json)
  | obj (members : List (String × Json))
  | unreadable

namespace Json

mutual
/-- Nothing in the value is unreadable. -/
def isReadable : Json → Bool
  | .arr items => itemsReadable items
  | .obj members => membersReadable members
  | .unreadable => false
  | _ => true

def itemsReadable : List Json → Bool
  | [] => true
  | item :: rest => item.isReadable && itemsReadable rest

def membersReadable : List (String × Json) → Bool
  | [] => true
  | (_, value) :: rest => value.isReadable && membersReadable rest
end

/-- Puts a member into a list in the order of keys, in place of one with the same
key. -/
def insertMember (key : String) (value : Json) : List (String × Json) → List (String × Json)
  | [] => [(key, value)]
  | (k, v) :: rest =>
    if key < k then (key, value) :: (k, v) :: rest
    else if key = k then (k, value) :: rest
    else (k, v) :: insertMember key value rest

/-- Members in the order of their keys, the last one winning where a key repeats. -/
def sortMembers (members : List (String × Json)) : List (String × Json) :=
  members.foldl (fun sorted m => insertMember m.1 m.2 sorted) []

mutual
/-- The value with the members of all its objects in canonical form. -/
def canonical : Json → Json
  | .arr items => .arr (canonicalItems items)
  | .obj members => .obj (sortMembers (canonicalMembers members))
  | scalar => scalar

def canonicalItems : List Json → List Json
  | [] => []
  | item :: rest => item.canonical :: canonicalItems rest

def canonicalMembers : List (String × Json) → List (String × Json)
  | [] => []
  | (key, value) :: rest => (key, value.canonical) :: canonicalMembers rest
end

mutual
/-- How many arrays and objects are nested in each other. -/
def depth : Json → Nat
  | .arr items => itemsDepth items + 1
  | .obj members => membersDepth members + 1
  | _ => 0

def itemsDepth : List Json → Nat
  | [] => 0
  | item :: rest => max item.depth (itemsDepth rest)

def membersDepth : List (String × Json) → Nat
  | [] => 0
  | (_, value) :: rest => max value.depth (membersDepth rest)
end

mutual
/-- Equality of values, members taken in order. -/
def same : Json → Json → Bool
  | .null, .null => true
  | .bool a, .bool b => a == b
  | .int a, .int b => a == b
  | .float a, .float b => a == b
  | .str a, .str b => a == b
  | .arr as, .arr bs => sameItems as bs
  | .obj as, .obj bs => sameMembers as bs
  | .unreadable, .unreadable => true
  | _, _ => false

def sameItems : List Json → List Json → Bool
  | [], [] => true
  | a :: as, b :: bs => a.same b && sameItems as bs
  | _, _ => false

def sameMembers : List (String × Json) → List (String × Json) → Bool
  | [], [] => true
  | (k, a) :: as, (l, b) :: bs => k == l && a.same b && sameMembers as bs
  | _, _ => false
end

instance : BEq Json := ⟨same⟩

end Json

end EcmaPrinter
