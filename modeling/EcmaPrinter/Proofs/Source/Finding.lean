/-
# Comments in arbitrary text

A source text need not be well formed: strings, regular expressions and comments may be
left open, and the last character may be a backslash. From outside of comments the scan
either finds nothing more, or it comes to the next comment, and it comes there whatever
stands in place of that comment and of the text behind it (`CommentRange.Mode.finds`). So
the comments of any text are found one after the other, each as a segment that fits its
place (`found`).

Hence the ranges of any text are in order and apart, lie between characters, and hold
comments that are as long as they should be (`comment_ranges_are_well_formed`). For a text
of less than 2^32 bytes these are also the ranges that a cursor stores
(`storedRanges_exact`).

Key definitions: `CommentRange.Mode.Finds`, `scanBehind`, `Found`, `IsLineComment`,
`IsBlockComment`.
Key theorems: `CommentRange.Mode.finds`, `found`, `comment_ranges_are_well_formed`.
-/
import EcmaPrinter.Proofs.Source.Segments
import Mathlib.Data.List.TakeWhile

namespace EcmaPrinter

/-! ### Texts that open a comment -/

namespace Segment

def isComment : Segment → Bool
  | .lineComment _ | .blockComment _ | .openComment _ => true
  | .plain _ | .quoted _ _ | .regex _ | .division => false

theorem isComment_of_range? {s : Segment} {start : Nat} {after : List Char} {r : CommentRange}
    (h : s.range? start after = some r) : s.isComment = true := by
  cases s <;> first | rfl | cases h

/-- A comment starts with a `/` and another character. -/
theorem text_of_isComment {s : Segment} (h : s.isComment = true) :
    ∃ c body, s.text = '/' :: c :: body := by
  cases s <;> first | exact ⟨_, _, rfl⟩ | cases h

/-- The range of a comment. -/
theorem range?_eq {s : Segment} {start : Nat} {after : List Char} {r : CommentRange}
    (h : s.range? start after = some r) :
    r.start = start ∧ r.stop = start + byteLength s.text ∧
      r.endsLine = startsWithLineEnd after := by
  cases s <;> cases h <;> exact ⟨rfl, rfl, rfl⟩

/-- The text of a range. -/
theorem text_of_range? {s : Segment} {start : Nat} {after : List Char} {r : CommentRange}
    (h : s.range? start after = some r) :
    (∃ c body, s.text = '/' :: c :: body) ∧ 0 < byteLength s.text := by
  obtain ⟨c, body, htext⟩ := text_of_isComment (isComment_of_range? h)
  exact ⟨⟨c, body, htext⟩, byteLength_pos (by simp [htext])⟩

end Segment

/-- A text has no closing mark, or a first one. -/
theorem split_at_close : ∀ cs : List Char, ¬ ['*', '/'] <:+: cs ∨
    ∃ body after, cs = body ++ ['*', '/'] ++ after ∧ ¬ ['*', '/'] <:+: body
  | [] => .inl (by simp)
  | c :: cs => by
    by_cases hprefix : ['*', '/'] <+: c :: cs
    · obtain ⟨after, hafter⟩ := hprefix
      exact .inr ⟨[], after, hafter.symm, by simp⟩
    rcases split_at_close cs with hnone | ⟨body, after, rfl, hbody⟩
    · exact .inl fun h => (List.infix_cons_iff.mp h).elim hprefix hnone
    · refine .inr ⟨c :: body, after, rfl, fun h => (List.infix_cons_iff.mp h).elim ?_ hbody⟩
      intro h
      exact hprefix (h.trans ⟨['*', '/'] ++ after, by simp⟩)

/-- **A text that opens a comment starts with one.** -/
theorem comment_opens {c : Char} (hc : c = '/' ∨ c = '*') (rest : List Char) :
    ∃ s after, '/' :: c :: rest = Segment.text s ++ after ∧ s.isComment = true ∧
      ∀ before, s.Fits before after := by
  rcases hc with rfl | rfl
  · refine ⟨.lineComment (rest.takeWhile fun c => !isLineEnd c),
      rest.dropWhile fun c => !isLineEnd c, by simp [Segment.text], rfl, fun _ => ⟨?_, ?_⟩⟩
    · intro c hc
      simpa using List.mem_takeWhile_imp hc
    · have hhead := List.head?_dropWhile_not (fun c => !isLineEnd c) rest
      cases hrest : rest.dropWhile fun c => !isLineEnd c with
      | nil => exact .inl rfl
      | cons d after =>
        rw [hrest] at hhead
        exact .inr (by simpa [startsWithLineEnd] using hhead)
  · rcases split_at_close rest with hnone | ⟨body, after, rfl, hbody⟩
    · exact ⟨.openComment rest, [], by simp [Segment.text], rfl, fun _ => ⟨hnone, rfl⟩⟩
    · exact ⟨.blockComment body, after, by simp [Segment.text], rfl, fun _ => hbody⟩

/-! ### The next comment -/

namespace CommentRange.Mode

/-- The scan comes through some text and is outside of everything behind it, whatever
follows. -/
def Reaches (mode : Mode) (prev : Option Char) (cs : List Char) : Prop :=
  ∀ pos rest, scan mode pos prev (cs ++ rest) =
    scan .code (pos + byteLength cs) (cs.foldl significant prev) rest

/-- The scan finds nothing in a text, or it comes to a comment. -/
inductive Finds (mode : Mode) (prev : Option Char) : List Char → Prop
  | nothing {cs : List Char} (h : ∀ pos, scan mode pos prev cs = []) : Finds mode prev cs
  | comment {skipped after : List Char} {s : Segment} (hreach : mode.Reaches prev skipped)
      (hs : s.isComment = true) (hfits : ∀ before, s.Fits before after) :
      Finds mode prev (skipped ++ (s.text ++ after))

variable {mode next : Mode} {prev : Option Char} {rest : List Char}

/-- The scan finds what it finds behind some text that it comes through. What follows that
text may be another, as long as it starts alike. Only in front of a comment it may be any. -/
theorem Finds.behind (cs : List Char)
    (hstep : ∀ pos tail, (rest.head? ≠ some '/' → tail.head? = rest.head?) →
      scan mode pos prev (cs ++ tail) =
        scan next (pos + byteLength cs) (cs.foldl significant prev) tail)
    (h : Finds next (cs.foldl significant prev) rest) : Finds mode prev (cs ++ rest) := by
  cases h with
  | nothing h => exact .nothing fun pos => (hstep pos rest fun _ => rfl).trans (h _)
  | @comment skipped after s hreach hs hfits =>
    rw [← List.append_assoc]
    refine .comment (fun pos tail => ?_) hs hfits
    have hhead : (skipped ++ (s.text ++ after)).head? ≠ some '/' →
        (skipped ++ tail).head? = (skipped ++ (s.text ++ after)).head? := by
      cases skipped with
      | cons => exact fun _ => rfl
      | nil =>
        obtain ⟨_, _, htext⟩ := Segment.text_of_isComment hs
        intro hne
        exact absurd (by rw [htext]; rfl) hne
    rw [List.append_assoc, hstep pos (skipped ++ tail) hhead, hreach, byteLength_append,
      List.foldl_append, Nat.add_assoc]

theorem start?_behind (h : mode.start? = none) (prev : Option Char) (c : Char) :
    (mode.behind prev c).start? = none := by
  cases mode with
  | lineComment _ | blockComment _ => cases h
  | code | quoted _ | regex _ =>
    dsimp only [behind]
    repeat' split
    all_goals rfl

/-- A character is read with any other, or it is not read with a `/`. -/
theorem readsPair_of_slash (h : mode.start? = none) {c : Char}
    (hc : mode.readsPair c '/' = false) (d : Char) : mode.readsPair c d = false := by
  cases mode with
  | lineComment _ | blockComment _ => cases h
  | code => simp_all [readsPair]
  | quoted _ | regex _ => exact hc

/-- **From outside of comments, the scan finds nothing or comes to a comment.** -/
theorem finds : ∀ (mode : Mode), mode.start? = none → ∀ (prev : Option Char) (cs : List Char),
    mode.Finds prev cs
  | mode, h, prev, [] => by
    cases mode with
    | lineComment _ | blockComment _ => cases h
    | code | quoted _ | regex _ => exact .nothing fun _ => rfl
  | mode, h, prev, c :: rest => by
    by_cases hpair : ∃ d ∈ rest.head?, mode.readsPair c d = true
    · -- two characters at once: an escape, or the opening of a comment
      obtain ⟨d, hd, hpair⟩ := hpair
      obtain ⟨rest, rfl⟩ : ∃ rest', rest = d :: rest' := List.head?_eq_some_iff.mp hd
      cases mode with
      | lineComment _ | blockComment _ => cases h
      | code =>
        obtain ⟨rfl, hd⟩ : c = '/' ∧ (d = '/' ∨ d = '*') := by simpa [readsPair] using hpair
        obtain ⟨s, after, htext, hs, hfits⟩ := comment_opens hd rest
        have hreach : Mode.code.Reaches prev [] := fun _ _ => rfl
        rw [htext]
        exact .comment hreach hs hfits
      | quoted quote =>
        obtain rfl : c = '\\' := by simpa [readsPair] using hpair
        have hescape : Passes (.quoted quote) (.quoted quote) ['\\', d] :=
          passes_quotedPart (p := .escape d) rfl
        exact .behind ['\\', d] (fun pos tail _ => hescape pos prev tail)
          (finds (.quoted quote) rfl _ rest)
      | regex inClass =>
        obtain rfl : c = '\\' := by simpa [readsPair] using hpair
        exact .behind ['\\', d] (fun pos tail _ => passes_escape inClass d pos prev tail)
          (finds (.regex inClass) rfl _ rest)
    by_cases hend : mode.endsWithLine = true ∧ isLineEnd c = true
    · -- a regular expression that is left open ends with its line
      obtain ⟨hmode, hend⟩ := hend
      cases mode with
      | lineComment _ => cases h
      | code | quoted _ | blockComment _ => cases hmode
      | regex inClass =>
        have hplain : c ≠ '\\' ∧ isBlank c = true := by
          simp only [isLineEnd, Bool.or_eq_true, beq_iff_eq] at hend
          rcases hend with rfl | rfl <;> decide
        refine .behind [c] (fun pos tail _ => ?_) (finds .code rfl _ rest)
        have hscan :
            scan (.regex inClass) pos prev (c :: tail) = scan .code (pos + 1) prev tail := by
          rw [scan.eq_10 _ _ _ _ _ (by rintro d _ rfl rfl; exact hplain.1 rfl), if_pos hend]
        rw [List.singleton_append, hscan]
        simp [significant, hplain.2, utf8Size_of_isLineEnd hend]
    · refine .behind [c] (fun pos tail htail => ?_)
        (finds (mode.behind prev c) (start?_behind h prev c) _ rest)
      refine (scan_cons (fun d hd => ?_) (fun hmode => ?_) pos prev).trans (by rfl)
      · by_contra hread
        have hread' : mode.readsPair c d = true := by simpa using hread
        by_cases hslash : rest.head? = some '/'
        · have hnone : mode.readsPair c '/' = false := by
            simpa using fun hslash' => hpair ⟨'/', hslash, hslash'⟩
          exact hread (readsPair_of_slash h hnone d)
        · exact hpair ⟨d, htail hslash ▸ hd, hread'⟩
      · simpa using fun hc => hend ⟨hmode, hc⟩
termination_by _ _ _ cs => cs.length

end CommentRange.Mode

/-! ### All comments -/

open CommentRange

/-- The comments that the scan finds in a text behind another one, from outside of
everything on. -/
def scanBehind (done cs : List Char) : List CommentRange :=
  scan .code (byteLength done) (lastSignificant done) cs

/-- What is found behind a segment that fits its place. -/
theorem scanBehind_text {done after : List Char} {s : Segment} (h : s.Fits done after) :
    scanBehind done (s.text ++ after) =
      (s.range? (byteLength done) after).toList ++ scanBehind (done ++ s.text) after := by
  rw [scanBehind, Segment.scan_text h, scanBehind, byteLength_append]

/-- The comments that are found in a text behind another one, with the text that is skipped
in front of each. -/
inductive Found : (done cs : List Char) → List CommentRange → Prop
  | nothing {done cs : List Char} (h : scanBehind done cs = []) : Found done cs []
  | comment {done skipped after : List Char} {s : Segment} {r : CommentRange}
      {rs : List CommentRange}
      (hreach : ∀ rest, scanBehind done (skipped ++ rest) = scanBehind (done ++ skipped) rest)
      (hfits : ∀ before, s.Fits before after)
      (hrange : s.range? (byteLength (done ++ skipped)) after = some r)
      (hrest : Found (done ++ skipped ++ s.text) after rs) :
      Found done (skipped ++ (s.text ++ after)) (r :: rs)

/-- **The comments of any text are found one after the other.** -/
theorem found (done cs : List Char) : Found done cs (scanBehind done cs) := by
  cases Mode.finds .code rfl (lastSignificant done) cs with
  | nothing h =>
    have hnone : scanBehind done cs = [] := h _
    rw [hnone]
    exact .nothing hnone
  | @comment skipped after s hreach hs hfits =>
    have hreach' (rest : List Char) :
        scanBehind done (skipped ++ rest) = scanBehind (done ++ skipped) rest := by
      rw [scanBehind, hreach, scanBehind, byteLength_append, lastSignificant_append]
    obtain ⟨r, hr⟩ : ∃ r, s.range? (byteLength (done ++ skipped)) after = some r := by
      cases s <;> first | exact ⟨_, rfl⟩ | cases hs
    rw [hreach', scanBehind_text (hfits _), hr]
    exact .comment hreach' hfits hr (found (done ++ skipped ++ s.text) after)
termination_by cs.length
decreasing_by
  obtain ⟨c, body, htext⟩ := Segment.text_of_isComment hs
  simp [htext]
  omega

/-! ### Ranges of arbitrary text -/

namespace Found

variable {done cs : List Char} {rs : List CommentRange}

/-- Every comment that is found is a segment that fits its place. -/
theorem segment (h : Found done cs rs) : ∀ r ∈ rs, ∃ before s after,
    done ++ cs = before ++ Segment.text s ++ after ∧ s.Fits before after ∧
      s.range? (byteLength before) after = some r := by
  induction h with
  | nothing => nofun
  | @comment done skipped after s r rs _ hfits hrange _ ih =>
    have hplace : done ++ (skipped ++ (s.text ++ after)) = done ++ skipped ++ s.text ++ after := by
      simp
    rw [hplace]
    exact List.forall_mem_cons.mpr ⟨⟨done ++ skipped, s, after, rfl, hfits _, hrange⟩, ih⟩

/-- Comments are found in order, and behind what stands in front. -/
theorem pairwise (h : Found done cs rs) :
    (∀ r ∈ rs, byteLength done ≤ r.start) ∧ rs.Pairwise fun r r' => r.stop ≤ r'.start := by
  induction h with
  | nothing => exact ⟨nofun, .nil⟩
  | @comment done skipped after s r rs _ _ hrange _ ih =>
    obtain ⟨hbehind, hrest⟩ := ih
    obtain ⟨hstart, hstop, -⟩ := Segment.range?_eq hrange
    rw [byteLength_append] at hstart hbehind
    rw [byteLength_append] at hstop hbehind
    have hlater : ∀ r' ∈ rs, r.stop ≤ r'.start := fun r' hr' => by
      have := hbehind r' hr'
      omega
    refine ⟨List.forall_mem_cons.mpr ⟨by omega, fun r' hr' => ?_⟩,
      List.pairwise_cons.mpr ⟨hlater, hrest⟩⟩
    have := hlater r' hr'
    omega

end Found

/-- A line comment and the text behind it: it goes up to the next line end, or to the end of
the text. -/
structure IsLineComment (text after : List Char) (endsLine : Bool) : Prop where
  opens : ['/', '/'] <+: text
  inLine : ∀ c ∈ text, isLineEnd c = false
  stops : after = [] ∨ startsWithLineEnd after = true
  endsLine_iff : endsLine = true ↔ after ≠ []

/-- A block comment and the text behind it: it goes up to the first closing mark behind its
opening, or, without one, to the end of the text. -/
structure IsBlockComment (text after : List Char) (endsLine : Bool) : Prop where
  closes : ∃ body, ¬ ['*', '/'] <:+: body ∧
    (text = ['/', '*'] ++ body ++ ['*', '/'] ∨ text = ['/', '*'] ++ body ∧ after = [])
  endsLine_iff : endsLine = true ↔ startsWithLineEnd after = true

/-- A segment that is a comment holds one of the kind of its range. -/
theorem Segment.kind_of_range? {before after : List Char} {s : Segment} {start : Nat}
    {r : CommentRange} (hfits : s.Fits before after) (h : s.range? start after = some r) :
    if r.isBlock then IsBlockComment s.text after r.endsLine
    else IsLineComment s.text after r.endsLine := by
  cases s with
  | plain _ | quoted _ _ | regex _ | division => cases h
  | lineComment body =>
    obtain ⟨hbody, hafter⟩ := hfits
    obtain rfl := Option.some.inj h
    refine ⟨⟨body, rfl⟩, ?_, hafter, ?_⟩
    · intro c hc
      rcases List.mem_cons.mp hc with rfl | hc
      · rfl
      rcases List.mem_cons.mp hc with rfl | hc
      · rfl
      · exact hbody c hc
    · constructor
      · rintro hends rfl
        cases hends
      · exact fun hne => hafter.resolve_left hne
  | blockComment body =>
    obtain rfl := Option.some.inj h
    exact ⟨⟨body, hfits, .inl rfl⟩, Iff.rfl⟩
  | openComment body =>
    obtain ⟨hbody, hafter⟩ := hfits
    obtain rfl := Option.some.inj h
    exact ⟨⟨body, hbody, .inr ⟨rfl, hafter⟩⟩, Iff.rfl⟩

/-- The bytes of some characters inside of a text. -/
theorem extract_toByteArray {source : String} {before cs after : List Char}
    (hsource : source.toList = before ++ cs ++ after) :
    source.toByteArray.extract (byteLength before) (byteLength (before ++ cs)) =
      (String.ofList cs).toByteArray := by
  have hparts : source = String.ofList before ++ (String.ofList cs ++ String.ofList after) := by
    rw [← String.ofList_append, ← String.ofList_append, ← List.append_assoc, ← hsource,
      String.ofList_toList]
  have hsize (cs : List Char) : (String.ofList cs).toByteArray.size = byteLength cs := by
    rw [String.size_toByteArray, byteLength_ofList]
  rw [hparts, String.toByteArray_append, String.toByteArray_append, byteLength_append]
  exact (ByteArray.extract_append_size_add' (i := 0) (hsize before).symm).trans
    (ByteArray.extract_append_eq_left (hsize cs).symm)

/-- **The comment ranges of any text are well formed.** They are in order and apart. Each is
a range of characters of the text, not empty, and its text has just the bytes of that range.
A range is a line comment up to its line end, or a block comment up to its closing mark; one
that is left open goes up to the end of the text. -/
theorem comment_ranges_are_well_formed (source : String) :
    (commentRanges source).Pairwise (fun r r' => r.stop ≤ r'.start) ∧
    ∀ r ∈ commentRanges source, r.start < r.stop ∧ r.stop ≤ source.utf8ByteSize ∧
      (r.text source).toByteArray = source.toByteArray.extract r.start r.stop ∧
      ∃ before after, source.toList = before ++ (r.text source).toList ++ after ∧
        r.start = byteLength before ∧ r.stop = byteLength (before ++ (r.text source).toList) ∧
        if r.isBlock then IsBlockComment (r.text source).toList after r.endsLine
        else IsLineComment (r.text source).toList after r.endsLine := by
  have hfound : Found [] source.toList (commentRanges source) := found [] source.toList
  refine ⟨hfound.pairwise.2, fun r hr => ?_⟩
  obtain ⟨before, s, after, hsource, hfits, hrange⟩ := hfound.segment r hr
  rw [List.nil_append] at hsource
  obtain ⟨hstart, hstop, -⟩ := Segment.range?_eq hrange
  rw [← byteLength_append] at hstop
  have htext : r.text source = String.ofList s.text := text_eq hsource hstart hstop
  have hsize : source.utf8ByteSize = byteLength (before ++ s.text) + byteLength after := by
    rw [← byteLength_toList, hsource, byteLength_append]
  obtain ⟨-, hpos⟩ := Segment.text_of_range? hrange
  rw [htext, String.toList_ofList]
  refine ⟨?_, by omega, ?_, before, after, hsource, hstart, hstop,
    Segment.kind_of_range? hfits hrange⟩
  · rw [byteLength_append] at hstop
    omega
  · rw [hstart, hstop, extract_toByteArray hsource]

/-- A string is left open behind a backslash, and the opening of a comment closes none. -/
example : commentRanges "'//\\" = [] ∧ commentRanges "x /*/ é" = [⟨2, 8, true, false⟩] := by
  decide

end EcmaPrinter
