/-
# Comments replaced by blanks

A comment should mean as much to the scan as the blanks that it could be replaced by. The
scan comes to it in the same way, and it goes on behind it from outside of everything; but it
remembers the last character that is not blank, and takes that one from the comment. This
character decides whether the next `/` opens a regular expression or divides.

So the comments of a text without a comment are those that were there besides it, unless the
comment sways the next `/`: if only blanks lie between them, and the last characters of the
comment and in front of it do not agree on what a `/` is (`CommentRange.sways`). A comment
that does so makes a difference to some text that goes on like this one up to that `/`
(`comment_is_blank_unless_it_sways`).

Key definitions: `CommentRange.blanked`, `CommentRange.sways`.
Key theorems: `Found.reaches`, `CommentRange.scan_code_congr`,
`comment_is_blank_unless_it_sways`.
-/
import EcmaPrinter.Proofs.Source.Finding

namespace EcmaPrinter

open CommentRange

/-! ### Texts without a comment -/

namespace CommentRange

/-- A text with the bytes of a range replaced by blanks. -/
def blanked (r : CommentRange) (source : String) : String :=
  String.ofList ((takeBytes r.start source.toList).getD [] ++
    List.replicate (r.stop - r.start) ' ' ++ (dropBytes r.stop source.toList).getD [])

/-- A text starts with a `/` that opens no comment. -/
def startsWithSlash : List Char → Bool
  | '/' :: '/' :: _ | '/' :: '*' :: _ => false
  | '/' :: _ => true
  | _ => false

/-- The next character behind a comment is a `/`, and the comment decides what it is. -/
def sways (r : CommentRange) (source : String) : Bool :=
  (regexAllowed (lastSignificant ((takeBytes r.stop source.toList).getD [])) !=
      regexAllowed (lastSignificant ((takeBytes r.start source.toList).getD []))) &&
    startsWithSlash (((dropBytes r.stop source.toList).getD []).dropWhile isBlank)

section Places

variable {source : String} {r : CommentRange} {before comment after : List Char}
  (hsource : source.toList = before ++ (comment ++ after)) (hstart : r.start = byteLength before)
  (hstop : r.stop = byteLength (before ++ comment))

include hsource

theorem takeBytes_start (hstart : r.start = byteLength before) :
    takeBytes r.start source.toList = some before := by
  rw [hsource, hstart, takeBytes_append]

theorem takeBytes_stop (hstop : r.stop = byteLength (before ++ comment)) :
    takeBytes r.stop source.toList = some (before ++ comment) := by
  rw [hsource, hstop, ← List.append_assoc, takeBytes_append]

theorem dropBytes_stop (hstop : r.stop = byteLength (before ++ comment)) :
    dropBytes r.stop source.toList = some after := by
  rw [hsource, hstop, ← List.append_assoc, dropBytes_append]

include hstart hstop

theorem toList_blanked :
    (r.blanked source).toList =
      before ++ (List.replicate (byteLength comment) ' ' ++ after) := by
  have hwidth : r.stop - r.start = byteLength comment := by
    rw [hstart, hstop, byteLength_append]
    omega
  rw [blanked, takeBytes_start hsource hstart, dropBytes_stop hsource hstop, hwidth]
  simp

theorem sways_eq :
    r.sways source =
      ((regexAllowed (lastSignificant (before ++ comment)) !=
          regexAllowed (lastSignificant before)) &&
        startsWithSlash (after.dropWhile isBlank)) := by
  rw [sways, takeBytes_start hsource hstart, takeBytes_stop hsource hstop,
    dropBytes_stop hsource hstop]
  rfl

end Places

/-! ### What the last significant character decides -/

section Blanks

variable {blanks : List Char} (hblanks : ∀ c ∈ blanks, isBlank c = true)

include hblanks

theorem foldl_significant_blanks (prev : Option Char) : blanks.foldl significant prev = prev := by
  induction blanks with
  | nil => rfl
  | cons c blanks ih =>
    obtain ⟨hc, hblanks⟩ := List.forall_mem_cons.mp hblanks
    rw [List.foldl_cons, significant, if_pos hc]
    exact ih hblanks

/-- The scan passes blanks, and remembers nothing of them. -/
theorem scan_blanks (pos : Nat) (prev : Option Char) (rest : List Char) :
    scan .code pos prev (blanks ++ rest) = scan .code (pos + byteLength blanks) prev rest := by
  have hpasses : Passes .code .code blanks := by
    rw [← List.flatMap_singleton' blanks]
    refine .flatMap fun c hc => ?_
    have hblank := hblanks c hc
    simp only [isBlank, Bool.or_eq_true, beq_iff_eq] at hblank
    have hplain : isQuote c = false ∧ c ≠ '/' := by
      rcases hblank with (((rfl | rfl) | rfl) | rfl) | rfl <;> decide
    exact passes_plain hplain.1 hplain.2
  rw [hpasses, foldl_significant_blanks hblanks]

end Blanks

/-- A `/` at the start of a text opens a comment, or it opens none. -/
theorem startsWithSlash_cases {rest : List Char} (h : startsWithSlash ('/' :: rest) = false) :
    ∃ rest', rest = '/' :: rest' ∨ rest = '*' :: rest' := by
  cases rest with
  | nil => cases h
  | cons d rest =>
    by_cases hline : d = '/'
    · exact ⟨rest, .inl (by rw [hline])⟩
    by_cases hblock : d = '*'
    · exact ⟨rest, .inr (by rw [hblock])⟩
    · simp [startsWithSlash, hline, hblock] at h

/-- **The last significant character decides what the next `/` is, and nothing else.** -/
theorem scan_code_congr {prev prev' : Option Char} {cs : List Char}
    (h : regexAllowed prev = regexAllowed prev' ∨ startsWithSlash (cs.dropWhile isBlank) = false)
    (pos : Nat) : scan .code pos prev cs = scan .code pos prev' cs := by
  have hblanks : ∀ c ∈ cs.takeWhile isBlank, isBlank c = true :=
    fun c hc => List.mem_takeWhile_imp hc
  have hhead := List.head?_dropWhile_not isBlank cs
  rw [← List.takeWhile_append_dropWhile (p := isBlank) (l := cs), scan_blanks hblanks,
    scan_blanks hblanks]
  generalize pos + byteLength (cs.takeWhile isBlank) = pos
  cases hrest : cs.dropWhile isBlank with
  | nil => rfl
  | cons c rest =>
    rw [hrest] at h hhead
    have hsignificant (prev : Option Char) : significant prev c = some c := by
      have hc : isBlank c = false := hhead
      rw [significant, hc]
      rfl
    by_cases hpair : ∃ d ∈ rest.head?, Mode.code.readsPair c d = true
    · -- a comment opens, whatever stands in front
      obtain ⟨d, hd, hpair⟩ := hpair
      obtain ⟨rest, rfl⟩ : ∃ rest', rest = d :: rest' := List.head?_eq_some_iff.mp hd
      obtain ⟨rfl, rfl | rfl⟩ : c = '/' ∧ (d = '/' ∨ d = '*') := by
        simpa [Mode.readsPair] using hpair
      · rfl
      · rfl
    have hnone : ∀ d ∈ rest.head?, Mode.code.readsPair c d = false := by
      intro d hd
      simpa using fun hread => hpair ⟨d, hd, hread⟩
    have hgoesOn : Mode.code.endsWithLine = true → isLineEnd c = false := fun hmode => by
      cases hmode
    rw [scan_cons hnone hgoesOn, scan_cons hnone hgoesOn, hsignificant, hsignificant]
    by_cases hslash : c = '/'
    · subst hslash
      have hallowed : regexAllowed prev = regexAllowed prev' := by
        refine h.resolve_right fun hstarts => ?_
        obtain ⟨rest', rfl | rfl⟩ := startsWithSlash_cases hstarts
        · exact absurd (hnone '/' rfl) (by decide)
        · exact absurd (hnone '*' rfl) (by decide)
      rw [Mode.behind, Mode.behind, hallowed]
    · rw [Mode.behind, Mode.behind, if_neg hslash, if_neg hslash]

end CommentRange

/-! ### In front of a comment -/

/-- A comment fits in front of any text that starts alike, and has the same range there. -/
theorem Segment.fits_of_starts {s : Segment} {after after' : List Char}
    (hs : s.isComment = true) (hfits : ∀ before, s.Fits before after) (hne : after ≠ [])
    (hends : startsWithLineEnd after' = startsWithLineEnd after) (start : Nat) :
    (∀ before, s.Fits before after') ∧ s.range? start after' = s.range? start after := by
  cases s with
  | plain _ | quoted _ _ | regex _ | division => cases hs
  | lineComment body =>
    obtain ⟨hbody, hafter⟩ := hfits []
    have hline := hends.trans (hafter.resolve_left hne)
    exact ⟨fun _ => ⟨hbody, .inr hline⟩, by rw [range?, range?, hends]⟩
  | blockComment body => exact ⟨hfits, by rw [range?, range?, hends]⟩
  | openComment body => exact absurd (hfits []).2 hne

/-- **The scan comes to a comment whatever stands in its place**, and finds the comments in
front of it. -/
theorem Found.reaches {done cs : List Char} {rs : List CommentRange} (h : Found done cs rs) :
    ∀ r ∈ rs, ∃ before s after front, cs = before ++ (Segment.text s ++ after) ∧
      (∀ before, s.Fits before after) ∧ s.range? (byteLength (done ++ before)) after = some r ∧
      (∀ r' ∈ front, r'.stop ≤ r.start) ∧
      ∀ rest, rest ≠ [] → startsWithLineEnd rest = false →
        scanBehind done (before ++ rest) = front ++ scanBehind (done ++ before) rest := by
  induction h with
  | nothing => nofun
  | @comment done skipped after s r rs hreach hfits hrange hrest ih =>
    refine List.forall_mem_cons.mpr
      ⟨⟨skipped, s, after, [], rfl, hfits, hrange, nofun, fun rest _ _ => hreach rest⟩, ?_⟩
    intro r' hr'
    obtain ⟨before, s', after', front, rfl, hfits', hrange', hfront, hreach'⟩ := ih r' hr'
    obtain ⟨⟨c, body, htext⟩, -⟩ := Segment.text_of_range? hrange'
    have hs := Segment.isComment_of_range? hrange
    have hlater : r.stop ≤ r'.start := by
      obtain ⟨-, hstop, -⟩ := Segment.range?_eq hrange
      have := hrest.pairwise.1 r' hr'
      rw [byteLength_append] at this
      omega
    refine ⟨skipped ++ (s.text ++ before), s', after', r :: front, by simp, hfits', ?_,
      List.forall_mem_cons.mpr ⟨hlater, hfront⟩, fun rest hne hends => ?_⟩
    · simpa using hrange'
    have hends' : startsWithLineEnd (before ++ rest) =
        startsWithLineEnd (before ++ (s'.text ++ after')) := by
      cases before with
      | nil =>
        rw [List.nil_append, hends, htext]
        rfl
      | cons c before => rfl
    obtain ⟨hfits₂, hrange₂⟩ := Segment.fits_of_starts hs hfits (by simp [htext]) hends'
      (byteLength (done ++ skipped))
    rw [List.append_assoc, List.append_assoc, hreach, scanBehind_text (hfits₂ _), hrange₂, hrange,
      hreach' rest hne hends]
    simp

/-! ### Behind a comment -/

/-- A text that has a comment behind a regular expression, and none behind a division. -/
def probe : List Char := "/'/\n//".toList

theorem scan_probe (pos : Nat) (prev : Option Char) :
    (scan .code pos prev probe).length = if regexAllowed prev then 1 else 0 := by
  have hscan : scan .code pos prev probe =
      if regexAllowed prev then scan (.regex false) (pos + 1) (some '/') "'/\n//".toList
      else scan .code (pos + 1) (some '/') "'/\n//".toList := rfl
  rw [hscan]
  cases regexAllowed prev <;> rfl

/-- **The comments beside a comment**, of the text with it and of the text with blanks in its
place: they differ in what is remembered behind it. -/
theorem ranges_beside {source : String} {r : CommentRange} {before after : List Char}
    {s : Segment} {front : List CommentRange}
    (hsource : source.toList = before ++ (s.text ++ after))
    (hfits : ∀ before, s.Fits before after) (hrange : s.range? (byteLength before) after = some r)
    (hfront : ∀ r' ∈ front, r'.stop ≤ r.start)
    (hreach : ∀ rest, rest ≠ [] → startsWithLineEnd rest = false →
      scanBehind [] (before ++ rest) = front ++ scanBehind before rest) :
    r ∈ commentRanges source ∧
      (commentRanges source).erase r =
        front ++ scan .code r.stop (lastSignificant (before ++ s.text)) after ∧
      commentRanges (r.blanked source) =
        front ++ scan .code r.stop (lastSignificant before) after := by
  obtain ⟨hstart, hstop, -⟩ := Segment.range?_eq hrange
  rw [← byteLength_append] at hstop
  obtain ⟨⟨c, body, htext⟩, hpos⟩ := Segment.text_of_range? hrange
  have hwith : commentRanges source =
      front ++ r :: scan .code r.stop (lastSignificant (before ++ s.text)) after := by
    change scanBehind [] source.toList = _
    rw [hsource, hreach _ (by simp [htext]) (by rw [htext]; rfl), scanBehind_text (hfits _), hrange,
      hstop]
    rfl
  have hblanks : ∀ c ∈ List.replicate (byteLength s.text) ' ', isBlank c = true := by
    intro c hc
    rw [List.eq_of_mem_replicate hc]
    rfl
  have hwithout : commentRanges (r.blanked source) =
      front ++ scan .code r.stop (lastSignificant before) after := by
    obtain ⟨n, hn⟩ : ∃ n, byteLength s.text = n + 1 := ⟨_, (Nat.succ_pred_eq_of_pos hpos).symm⟩
    change scanBehind [] (r.blanked source).toList = _
    rw [toList_blanked hsource hstart hstop,
      hreach _ (by simp [hn, List.replicate_succ]) (by rw [hn]; rfl), scanBehind,
      scan_blanks hblanks, byteLength_blanks, hstop, byteLength_append]
  have hnotMem : r ∉ front := fun hmem => by
    have := hfront r hmem
    rw [byteLength_append] at hstop
    omega
  refine ⟨by simp [hwith], ?_, hwithout⟩
  rw [hwith, List.erase_append_right _ hnotMem, List.erase_cons_head]

/-- **A comment is as good as blanks, unless it sways the next `/`.** If it does not, the
comments of the text with blanks in its place are the other comments of the text. If it does,
this fails for some text that goes on alike up to the next `/`. -/
theorem comment_is_blank_unless_it_sways (source : String) (r : CommentRange)
    (hr : r ∈ commentRanges source) :
    (r.sways source = false →
      commentRanges (r.blanked source) = (commentRanges source).erase r) ∧
    (r.sways source = true → ∃ front blanks rest tail,
      source.toList = front ++ blanks ++ '/' :: rest ∧ byteLength front = r.stop ∧
        (∀ c ∈ blanks, isBlank c = true) ∧
        r ∈ commentRanges (String.ofList (front ++ blanks ++ '/' :: tail)) ∧
        commentRanges (r.blanked (String.ofList (front ++ blanks ++ '/' :: tail))) ≠
          (commentRanges (String.ofList (front ++ blanks ++ '/' :: tail))).erase r) := by
  obtain ⟨before, s, after, front, hsource, hfits, hrange, hfront, hreach⟩ :=
    (found [] source.toList).reaches r hr
  obtain ⟨hstart, hstop, -⟩ := Segment.range?_eq hrange
  rw [← byteLength_append] at hstop
  have hsways := sways_eq hsource hstart hstop
  constructor
  · intro h
    obtain ⟨-, hwith, hwithout⟩ := ranges_beside hsource hfits hrange hfront hreach
    rw [hwith, hwithout, scan_code_congr]
    rw [hsways, Bool.and_eq_false_iff] at h
    exact h.imp_left fun hsame => (bne_eq_false_iff_eq.mp hsame).symm
  · intro h
    rw [hsways, Bool.and_eq_true, bne_iff_ne] at h
    obtain ⟨hdiffer, hslash⟩ := h
    obtain ⟨rest, hrest⟩ : ∃ rest, after.dropWhile isBlank = '/' :: rest := by
      unfold startsWithSlash at hslash
      split at hslash <;> first | exact ⟨_, ‹_›⟩ | cases hslash
    have hblanks : ∀ c ∈ after.takeWhile isBlank, isBlank c = true :=
      fun c hc => List.mem_takeWhile_imp hc
    have hafter : after = after.takeWhile isBlank ++ '/' :: rest := by
      rw [← hrest, List.takeWhile_append_dropWhile]
    -- behind the `/`, the text goes on so that the two readings find different comments
    have hends : startsWithLineEnd (after.takeWhile isBlank ++ probe) =
        startsWithLineEnd after := by
      conv_rhs => rw [hafter]
      cases after.takeWhile isBlank <;> rfl
    have hne : after ≠ [] := by
      rw [hafter]
      simp
    obtain ⟨hfits', hrange'⟩ := Segment.fits_of_starts (Segment.isComment_of_range? hrange) hfits
      hne hends (byteLength before)
    have hother : (String.ofList (before ++ s.text ++ after.takeWhile isBlank ++ probe)).toList =
        before ++ (s.text ++ (after.takeWhile isBlank ++ probe)) := by
      rw [String.toList_ofList, List.append_assoc, List.append_assoc]
    obtain ⟨hmem, hwith, hwithout⟩ :=
      ranges_beside hother hfits' (hrange'.trans hrange) hfront hreach
    refine ⟨before ++ s.text, after.takeWhile isBlank, rest, "'/\n//".toList, ?_, hstop.symm,
      hblanks, hmem, fun heq => hdiffer ?_⟩
    · rw [hsource, List.append_assoc, List.append_assoc, ← hafter]
    · have hlength := congrArg List.length (hwithout.symm.trans (heq.trans hwith))
      rw [List.length_append, List.length_append, scan_blanks hblanks, scan_blanks hblanks,
        scan_probe, scan_probe] at hlength
      revert hlength
      cases regexAllowed (lastSignificant before) <;>
        cases regexAllowed (lastSignificant (before ++ s.text)) <;> simp

/-- A comment between an operand and the sign of its division, which has a quote in it. -/
theorem dividedOperand_comment_is_blank :
    (⟨1, 9, true, false⟩ : CommentRange) ∈ commentRanges "a/* ' x*/ / b // c" ∧
      commentRanges "a         / b // c" =
        (commentRanges "a/* ' x*/ / b // c").erase ⟨1, 9, true, false⟩ := by
  have hmem : (⟨1, 9, true, false⟩ : CommentRange) ∈ commentRanges "a/* ' x*/ / b // c" := by decide
  have hsways : (⟨1, 9, true, false⟩ : CommentRange).sways "a/* ' x*/ / b // c" = false := by decide
  exact ⟨hmem, (comment_is_blank_unless_it_sways _ _ hmem).1 hsways⟩

/-- Not every comment is as good as blanks: behind a sign and a comment, a regular expression
is taken for a division. -/
theorem not_every_comment_is_blank :
    ¬ ∀ (source : String), ∀ r ∈ commentRanges source,
      commentRanges (r.blanked source) = (commentRanges source).erase r := by
  intro h
  exact absurd (h "a=/*c*/ /'/;//b" ⟨2, 7, true, false⟩ (by decide)) (by decide)

end EcmaPrinter
