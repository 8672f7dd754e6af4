/-
# Comment tables

Comments are no part of a syntax tree. They travel beside it in a table that
files each comment under the offset of the token it stands in front of; the
printer looks there before it prints a list item that starts at that offset.

A table is a list of entries in the order of their offsets, one entry per
offset, with the comments of an entry in the order they were added.

Key definitions: `CommentTable`, `CommentTable.add`, `CommentTable.leading`,
`CommentTable.seekToken`, `CommentTable.ofSource`.
-/
import EcmaPrinter.Source.Comment

namespace EcmaPrinter

/-- Comments filed under the offset of the token they precede. -/
structure CommentTable where
  entries : List (Nat × List Comment)
deriving DecidableEq

namespace CommentTable

def empty : CommentTable := ⟨[]⟩

/-- Files a comment under `pos`, behind those already there. -/
def insertEntry (pos : Nat) (comment : Comment) :
    List (Nat × List Comment) → List (Nat × List Comment)
  | [] => [(pos, [comment])]
  | (p, cs) :: rest =>
    if pos < p then (pos, [comment]) :: (p, cs) :: rest
    else if pos = p then (p, cs ++ [comment]) :: rest
    else (p, cs) :: insertEntry pos comment rest

/-- Adds a comment in front of the token at `pos`. -/
def add (t : CommentTable) (pos : Nat) (comment : Comment) : CommentTable :=
  ⟨insertEntry pos comment t.entries⟩

/-- The comments in front of the token at `pos`. -/
def leading (t : CommentTable) (pos : Nat) : List Comment :=
  (t.entries.lookup pos).getD []

/-- Some comment stands in front of the token at `pos`. -/
def hasLeading (t : CommentTable) (pos : Nat) : Bool :=
  (t.entries.lookup pos).isSome

def isEmpty (t : CommentTable) : Bool := t.entries.isEmpty

/-- The number of comments in the table. -/
def size (t : CommentTable) : Nat := (t.entries.map (·.2.length)).foldr (· + ·) 0

/-- The bytes of blanks at the front of a text. -/
def blankBytes : List Char → Nat
  | [] => 0
  | c :: cs => if isBlank c then c.utf8Size + blankBytes cs else 0

/-- The offset of the first character at or after `pos` that is not blank. -/
def skipBlanks (source : List Char) (pos : Nat) : Nat :=
  pos + ((dropBytes pos source).map blankBytes).getD 0

/-- The last offset at which one of some comments ends. -/
def lastStop : List CommentRange → Nat
  | [] => 0
  | r :: rs => max r.stop (lastStop rs)

theorem stop_le_lastStop {r : CommentRange} : ∀ {rs : List CommentRange}, r ∈ rs →
    r.stop ≤ lastStop rs
  | [], h => by cases h
  | r' :: rs, h => by
    rw [lastStop]
    rcases List.mem_cons.mp h with rfl | h
    · exact Nat.le_max_left _ _
    · exact Nat.le_trans (stop_le_lastStop h) (Nat.le_max_right _ _)

/-- Where the search for the token behind `pos` ends. Blanks are skipped, and if one of the
later comments starts behind them, the search goes on behind that comment. -/
def seekToken (source : List Char) (later : List CommentRange) (pos : Nat) : Nat :=
  let next := skipBlanks source pos
  match _hfound : later.find? fun r => r.start == next with
  | some following =>
    -- no comment is empty, so the search gets further
    if next < following.stop then seekToken source later following.stop else next
  | none => next
termination_by lastStop later - pos
decreasing_by
  have hlast := stop_le_lastStop (List.mem_of_find?_eq_some _hfound)
  have hle : pos ≤ skipBlanks source pos := Nat.le_add_right pos _
  omega

/-- One step of a search: blanks are skipped, and a comment that starts behind them. -/
theorem seekToken_eq (source : List Char) (later : List CommentRange) (pos : Nat) :
    seekToken source later pos =
      match later.find? fun r => r.start == skipBlanks source pos with
      | some following =>
        if skipBlanks source pos < following.stop then seekToken source later following.stop
        else skipBlanks source pos
      | none => skipBlanks source pos := by
  rw [seekToken]
  split
  · rename_i following hfound
    rw [hfound]
  · rename_i hnone
    rw [hnone]

/-- For each of the ranges, in order, the offset of the first character behind
it that is neither blank nor part of a comment. A range directly followed by
another shares its anchor. -/
def anchors (source : List Char) : List CommentRange → List Nat
  | [] => []
  | r :: later => seekToken source later r.stop :: anchors source later

/-- The table of a source text: each of its comments, filed under the token that
follows it. -/
def ofSource (source : String) : CommentTable :=
  let ranges := commentRanges source
  ((anchors source.toList ranges).zip ranges).foldl
    (fun t entry => t.add entry.1 (entry.2.comment source)) empty

end CommentTable

end EcmaPrinter
