/-
# Comments found in a source text

The scan of a source text walks over its characters and counts their bytes, so
that a comment range always starts and ends between two characters, and holds at
least the two characters that open it (`CommentRange.scan_fits`). Hence no comment
in the table of a source text is empty (`CommentTable.isInked_ofSource`).

Key definitions: `byteLength`, `CommentRange.Fits`, `CommentRange.Mode.IsAt`,
`CommentTable.IsInked`.
Key theorems: `CommentRange.scan_fits`, `CommentTable.isInked_ofSource`.
-/
import EcmaPrinter.Source.CommentTable

namespace EcmaPrinter

/-! ### Bytes -/

/-- The number of bytes of some characters. -/
def byteLength : List Char → Nat
  | [] => 0
  | c :: cs => c.utf8Size + byteLength cs

@[simp] theorem byteLength_nil : byteLength [] = 0 := rfl

@[simp] theorem byteLength_cons (c : Char) (cs : List Char) :
    byteLength (c :: cs) = c.utf8Size + byteLength cs := rfl

@[simp] theorem byteLength_append : ∀ cs ds : List Char,
    byteLength (cs ++ ds) = byteLength cs + byteLength ds
  | [], ds => by simp
  | c :: cs, ds => by
    rw [List.cons_append, byteLength_cons, byteLength_append cs ds, byteLength_cons]
    omega

theorem byteLength_ofList : ∀ cs : List Char, (String.ofList cs).utf8ByteSize = byteLength cs
  | [] => by simp
  | c :: cs => by
    have hsplit : String.ofList (c :: cs) = String.singleton c ++ String.ofList cs := by
      rw [← String.toList_inj]
      simp
    rw [hsplit, String.utf8ByteSize_append, byteLength_ofList cs, byteLength_cons]
    simp

theorem byteLength_toList (s : String) : byteLength s.toList = s.utf8ByteSize := by
  rw [← byteLength_ofList, String.ofList_toList]

theorem byteLength_pos {cs : List Char} (h : cs ≠ []) : 0 < byteLength cs := by
  cases cs with
  | nil => exact absurd rfl h
  | cons c cs =>
    have := c.utf8Size_pos
    rw [byteLength_cons]
    omega

theorem length_le_byteLength : ∀ cs : List Char, cs.length ≤ byteLength cs
  | [] => Nat.le_refl _
  | c :: cs => by
    have hpos := c.utf8Size_pos
    have ih := length_le_byteLength cs
    rw [List.length_cons, byteLength_cons]
    omega

theorem byteLength_blanks (n : Nat) : byteLength (List.replicate n ' ') = n := by
  induction n with
  | zero => rfl
  | succ n ih =>
    rw [List.replicate_succ, byteLength_cons, ih, Nat.add_comm]
    rfl

theorem dropBytes_append : ∀ cs ds : List Char, dropBytes (byteLength cs) (cs ++ ds) = some ds
  | [], ds => by simp [dropBytes]
  | c :: cs, ds => by
    have hpos := c.utf8Size_pos
    obtain ⟨n, hn⟩ : ∃ n, byteLength (c :: cs) = n + 1 :=
      ⟨_, (Nat.succ_pred_eq_of_pos (byteLength_pos (List.cons_ne_nil c cs))).symm⟩
    rw [byteLength_cons] at hn
    rw [byteLength_cons, hn, List.cons_append, dropBytes, if_pos (by omega),
      show n + 1 - c.utf8Size = byteLength cs by omega]
    exact dropBytes_append cs ds

theorem takeBytes_append : ∀ cs ds : List Char, takeBytes (byteLength cs) (cs ++ ds) = some cs
  | [], ds => by simp [takeBytes]
  | c :: cs, ds => by
    have hpos := c.utf8Size_pos
    obtain ⟨n, hn⟩ : ∃ n, byteLength (c :: cs) = n + 1 :=
      ⟨_, (Nat.succ_pred_eq_of_pos (byteLength_pos (List.cons_ne_nil c cs))).symm⟩
    rw [byteLength_cons] at hn
    rw [byteLength_cons, hn, List.cons_append, takeBytes, if_pos (by omega),
      show n + 1 - c.utf8Size = byteLength cs by omega, takeBytes_append cs ds]
    rfl

theorem sliceBytes_append (before cs after : List Char) :
    sliceBytes (before ++ cs ++ after) (byteLength before) (byteLength (before ++ cs)) =
      some cs := by
  rw [byteLength_append, sliceBytes, if_pos (by omega), List.append_assoc, dropBytes_append,
    Option.bind_some, Nat.add_sub_cancel_left]
  exact takeBytes_append cs after

theorem utf8Size_of_isBlank {c : Char} (h : isBlank c = true) : c.utf8Size = 1 := by
  simp only [isBlank, Bool.or_eq_true, beq_iff_eq] at h
  rcases h with (((rfl | rfl) | rfl) | rfl) | rfl <;> rfl

/-! ### Ranges -/

namespace CommentRange

/-- The range holds some characters of a text, at least one. -/
def Fits (source : List Char) (r : CommentRange) : Prop :=
  ∃ before comment after, source = before ++ comment ++ after ∧ comment ≠ [] ∧
    r.start = byteLength before ∧ r.stop = byteLength (before ++ comment)

/-- The text of a range that holds some characters of a source. -/
theorem text_eq {source : String} {r : CommentRange} {before comment after : List Char}
    (hsource : source.toList = before ++ comment ++ after) (hstart : r.start = byteLength before)
    (hstop : r.stop = byteLength (before ++ comment)) : r.text source = String.ofList comment := by
  rw [text, hsource, hstart, hstop, sliceBytes_append]
  rfl

/-- A range that fits a source has a text that is not empty. -/
theorem Fits.text_ne {source : String} {r : CommentRange} (h : r.Fits source.toList) :
    r.text source ≠ "" := by
  obtain ⟨before, comment, after, hsource, hne, hstart, hstop⟩ := h
  rw [text_eq hsource hstart hstop]
  simpa using hne

namespace Mode

/-- Where the comment starts that the scan is inside of. -/
def start? : Mode → Option Nat
  | .lineComment start | .blockComment start => some start
  | .code | .quoted _ | .regex _ => none

/-- The scan has read the characters `done`, up to the offset `pos`, and is inside of a
comment that it has read some characters of, if it is in one. -/
structure IsAt (mode : Mode) (done : List Char) (pos : Nat) : Prop where
  pos_eq : pos = byteLength done
  comment : ∀ start, mode.start? = some start →
    ∃ before comment, done = before ++ comment ∧ comment ≠ [] ∧ start = byteLength before

namespace IsAt

variable {mode : Mode} {done : List Char} {pos n : Nat}

/-- The scan reads on. -/
theorem read (h : mode.IsAt done pos) (cs : List Char) (hn : n = byteLength cs) :
    mode.IsAt (done ++ cs) (pos + n) where
  pos_eq := by rw [byteLength_append, ← h.pos_eq, hn]
  comment start hstart := by
    obtain ⟨before, comment, hdone, hne, hbefore⟩ := h.comment start hstart
    exact ⟨before, comment ++ cs, by rw [hdone, List.append_assoc], by simp [hne], hbefore⟩

/-- The scan goes on outside of comments. -/
theorem leave (h : mode.IsAt done pos) {next : Mode} (hnext : next.start? = none) :
    next.IsAt done pos where
  pos_eq := h.pos_eq
  comment start hstart := by
    rw [hnext] at hstart
    cases hstart

/-- The scan reads the opening of a comment. -/
theorem opening (h : mode.IsAt done pos) {next : Mode} (hnext : next.start? = some pos)
    (c d : Char) (hsize : c.utf8Size + d.utf8Size = 2) :
    next.IsAt (done ++ [c, d]) (pos + 2) where
  pos_eq := by
    rw [byteLength_append, ← h.pos_eq, byteLength_cons, byteLength_cons, byteLength_nil]
    omega
  comment start hstart := by
    rw [hnext] at hstart
    exact ⟨done, [c, d], rfl, List.cons_ne_nil _ _, (Option.some.inj hstart).symm.trans h.pos_eq⟩

/-- The comment that the scan is inside of ends here. -/
theorem fits {start : Nat} (h : mode.IsAt done pos) (hstart : mode.start? = some start)
    (isBlock endsLine : Bool) (rest : List Char) :
    Fits (done ++ rest) ⟨start, pos, isBlock, endsLine⟩ := by
  obtain ⟨before, comment, hdone, hne, hbefore⟩ := h.comment start hstart
  exact ⟨before, comment, rest, by rw [hdone], hne, hbefore, by rw [← hdone]; exact h.pos_eq⟩

end IsAt

end Mode

theorem utf8Size_of_isLineEnd {c : Char} (h : isLineEnd c = true) : c.utf8Size = 1 := by
  simp only [isLineEnd, Bool.or_eq_true, beq_iff_eq] at h
  rcases h with rfl | rfl <;> rfl

theorem utf8Size_of_isQuote {c : Char} (h : isQuote c = true) : c.utf8Size = 1 := by
  simp only [isQuote, Bool.or_eq_true, beq_iff_eq] at h
  rcases h with (rfl | rfl) | rfl <;> rfl

/-- **Every range that the scan finds fits the text.** -/
theorem scan_fits (mode : Mode) (pos : Nat) (prev : Option Char) (rest : List Char) :
    ∀ done, mode.IsAt done pos → ∀ r ∈ scan mode pos prev rest, r.Fits (done ++ rest) := by
  fun_induction scan mode pos prev rest with
  | case1 | case8 | case12 => exact fun _ _ _ hr => nomatch hr
  -- a comment opens
  | case2 prev pos rest ih =>
    intro done h
    simpa using ih (done ++ ['/', '/']) (h.opening rfl '/' '/' rfl)
  | case3 prev pos rest ih =>
    intro done h
    simpa using ih (done ++ ['/', '*']) (h.opening rfl '/' '*' rfl)
  -- a character is read, and the mode stays
  | case5 pos prev rest _ _ _ ih =>
    intro done h
    simpa using ih (done ++ ['/']) (h.read ['/'] rfl)
  | case7 _ _ c rest _ _ _ _ ih | case11 _ _ _ c rest _ _ ih | case18 _ _ _ c rest _ _ _ _ _ ih
  | case21 _ _ _ c rest _ ih | case24 _ _ _ c rest _ ih =>
    intro done h
    simpa using ih (done ++ [c]) (h.read [c] rfl)
  | case9 _ _ _ c rest ih | case13 _ _ _ c rest ih =>
    intro done h
    have hread := (h.read ['\\'] rfl).read [c] rfl
    simpa using ih (done ++ ['\\'] ++ [c]) hread
  -- a string or a regular expression opens or closes
  | case4 _ _ rest _ _ _ ih =>
    intro done h
    simpa using ih (done ++ ['/']) ((h.read ['/'] rfl).leave rfl)
  | case6 _ _ c rest _ _ _ hquote ih =>
    intro done h
    have hsize := utf8Size_of_isQuote hquote
    simpa using ih (done ++ [c]) ((h.read [c] (by simp [hsize])).leave rfl)
  | case10 _ _ c rest _ ih =>
    intro done h
    simpa using ih (done ++ [c]) ((h.read [c] rfl).leave rfl)
  | case14 _ _ _ c rest _ hend ih =>
    intro done h
    have hsize := utf8Size_of_isLineEnd hend
    simpa using ih (done ++ [c]) ((h.read [c] (by simp [hsize])).leave rfl)
  | case15 _ _ _ rest _ _ ih =>
    intro done h
    simpa using ih (done ++ ['[']) ((h.read ['['] rfl).leave rfl)
  | case16 _ _ _ rest _ _ _ ih =>
    intro done h
    simpa using ih (done ++ [']']) ((h.read [']'] rfl).leave rfl)
  | case17 _ _ _ c rest _ _ _ _ hslash ih =>
    intro done h
    obtain rfl : c = '/' := by simpa using (Bool.and_eq_true_iff.mp hslash).1
    simpa using ih (done ++ ['/']) ((h.read ['/'] rfl).leave rfl)
  -- a comment ends
  | case19 _ start pos =>
    intro done h
    simpa using h.fits rfl false false []
  | case20 start pos _ c rest hend ih =>
    intro done h
    have hsize := utf8Size_of_isLineEnd hend
    refine List.forall_mem_cons.mpr ⟨h.fits rfl false true (c :: rest), ?_⟩
    simpa using ih (done ++ [c]) ((h.read [c] (by simp [hsize])).leave rfl)
  | case22 _ start pos =>
    intro done h
    simpa using h.fits rfl true false []
  | case23 _ start pos rest ih =>
    intro done h
    have hread := h.read ['*', '/'] (n := 2) rfl
    refine List.forall_mem_cons.mpr ⟨?_, ?_⟩
    · simpa using hread.fits rfl true _ rest
    · simpa using ih (done ++ ['*', '/']) (hread.leave rfl)

end CommentRange

theorem commentRanges_fits (source : String) :
    ∀ r ∈ commentRanges source, r.Fits source.toList :=
  CommentRange.scan_fits .code 0 none source.toList [] ⟨rfl, nofun⟩

/-! ### Tables -/

namespace CommentTable

/-- No comment of the table is empty. -/
def IsInked (t : CommentTable) : Prop := ∀ entry ∈ t.entries, ∀ c ∈ entry.2, c.text ≠ ""

theorem IsInked.add {t : CommentTable} (h : t.IsInked) (pos : Nat) {comment : Comment}
    (hcomment : comment.text ≠ "") : (t.add pos comment).IsInked := by
  obtain ⟨entries⟩ := t
  have hone : ∀ c ∈ [comment], c.text ≠ "" := by simpa using hcomment
  unfold IsInked CommentTable.add at *
  dsimp only at *
  fun_induction insertEntry pos comment entries with
  | case1 => simpa using hcomment
  | case2 p cs rest _ => exact List.forall_mem_cons.mpr ⟨hone, h⟩
  | case3 cs rest _ =>
    obtain ⟨hcs, hrest⟩ := List.forall_mem_cons.mp h
    exact List.forall_mem_cons.mpr ⟨List.forall_mem_append.mpr ⟨hcs, hone⟩, hrest⟩
  | case4 p cs rest _ _ ih =>
    obtain ⟨hcs, hrest⟩ := List.forall_mem_cons.mp h
    exact List.forall_mem_cons.mpr ⟨hcs, ih hrest⟩

theorem IsInked.foldl_add (source : String) : ∀ {entries : List (Nat × CommentRange)}
    {t : CommentTable}, t.IsInked → (∀ entry ∈ entries, entry.2.Fits source.toList) →
    (entries.foldl (fun t entry => t.add entry.1 (entry.2.comment source)) t).IsInked
  | [], _, h, _ => h
  | entry :: entries, t, h, hfits => by
    obtain ⟨hentry, hentries⟩ := List.forall_mem_cons.mp hfits
    have hadd : (t.add entry.1 (entry.2.comment source)).IsInked := h.add entry.1 hentry.text_ne
    rw [List.foldl_cons]
    exact foldl_add source hadd hentries

/-- **No comment of a source text is empty.** -/
theorem isInked_ofSource (source : String) : (ofSource source).IsInked :=
  .foldl_add source nofun fun _ hentry =>
    commentRanges_fits source _ (List.of_mem_zip hentry).2

theorem IsInked.leading {t : CommentTable} (h : t.IsInked) (pos : Nat) :
    ∀ c ∈ t.leading pos, c.text ≠ "" := by
  intro c hc
  unfold CommentTable.leading at hc
  cases hlookup : t.entries.lookup pos with
  | none =>
    rw [hlookup] at hc
    cases hc
  | some cs =>
    rw [hlookup] at hc
    obtain ⟨before, after, hentries, -⟩ := List.lookup_eq_some_iff.mp hlookup
    exact h (pos, cs) (by simp [hentries]) c hc

end CommentTable

end EcmaPrinter
