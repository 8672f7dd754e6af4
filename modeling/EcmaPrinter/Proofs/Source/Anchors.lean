/-
# Comments are filed under the next token

A comment is anchored at the first offset behind it that is neither blank nor part of a
comment, which is the end of the text if there is no such offset in it
(`CommentRange.anchor`). The table of a source text is built by a search from the end of each
comment, which skips blanks and later comments in turn. Since ranges are in order and apart,
the search ends, and it ends at the anchor (`CommentTable.seekToken_eq_anchor`).

So every comment of a text is in its table once, under its anchor, and the comments of one
anchor are in the order of the text. Two of them share an anchor if and only if there is no
token between them (`comments_are_filed_under_next_token`).

Key definitions: `IsBlankAt`, `InComment`, `tokensFrom`, `CommentRange.anchor`.
Key theorems: `CommentTable.seekToken_eq_anchor`, `CommentTable.ofSource_eq`,
`comments_are_filed_under_next_token`.
-/
import EcmaPrinter.Proofs.Source.Finding
import Mathlib.Order.Lattice.Nat

namespace EcmaPrinter

/-! ### Offsets -/

/-- The byte at an offset is a blank. -/
def IsBlankAt (source : List Char) (n : Nat) : Prop :=
  ∃ before c after, source = before ++ c :: after ∧ byteLength before = n ∧ isBlank c = true

/-- The byte at an offset is part of a comment. -/
def InComment (source : String) (n : Nat) : Prop :=
  ∃ r ∈ commentRanges source, r.start ≤ n ∧ n < r.stop

/-- The offsets from `start` on that are neither blank nor part of a comment. Those behind the
text are among them. -/
def tokensFrom (source : String) (start : Nat) : Set Nat :=
  {n | start ≤ n ∧ ¬ IsBlankAt source.toList n ∧ ¬ InComment source n}

/-- The first offset behind a range that is neither blank nor part of a comment. -/
noncomputable def CommentRange.anchor (source : String) (r : CommentRange) : Nat :=
  sInf (tokensFrom source r.stop)

/-- Where a text is divided is told by the bytes in front. -/
theorem eq_of_byteLength_eq : ∀ {before before' after after' : List Char},
    before ++ after = before' ++ after' → byteLength before = byteLength before' →
      before = before' ∧ after = after'
  | [], [], _, _, h, _ => ⟨rfl, h⟩
  | [], c :: before', _, _, _, hlength => by
    have := c.utf8Size_pos
    rw [byteLength_nil, byteLength_cons] at hlength
    omega
  | c :: before, [], _, _, _, hlength => by
    have := c.utf8Size_pos
    rw [byteLength_nil, byteLength_cons] at hlength
    omega
  | c :: before, c' :: before', _, _, h, hlength => by
    obtain ⟨rfl, hrest⟩ := List.cons.inj h
    obtain ⟨rfl, rfl⟩ := eq_of_byteLength_eq hrest (Nat.add_left_cancel hlength)
    exact ⟨rfl, rfl⟩

/-- All offsets of some blanks are blank. -/
theorem isBlankAt_of_blanks {after : List Char} {n : Nat} :
    ∀ {blanks before : List Char}, (∀ c ∈ blanks, isBlank c = true) → byteLength before ≤ n →
      n < byteLength (before ++ blanks) → IsBlankAt (before ++ blanks ++ after) n
  | [], before, _, hle, hlt => by
    rw [List.append_nil] at hlt
    omega
  | c :: blanks, before, hblanks, hle, hlt => by
    obtain ⟨hc, hblanks⟩ := List.forall_mem_cons.mp hblanks
    by_cases hn : byteLength before = n
    · exact ⟨before, c, blanks ++ after, by simp, hn, hc⟩
    · have hnext : byteLength (before ++ [c]) ≤ n := by
        rw [byteLength_append, byteLength_cons, byteLength_nil, utf8Size_of_isBlank hc]
        omega
      rw [List.append_cons] at hlt ⊢
      exact isBlankAt_of_blanks hblanks hnext hlt

theorem not_isBlankAt {before after : List Char} (h : ∀ c ∈ after.head?, isBlank c = false) :
    ¬ IsBlankAt (before ++ after) (byteLength before) := by
  rintro ⟨before', c, after', hsource, hlength, hc⟩
  obtain ⟨rfl, rfl⟩ := eq_of_byteLength_eq hsource hlength.symm
  exact absurd hc (by simp [h c rfl])

namespace CommentTable

theorem blankBytes_eq : ∀ cs : List Char, blankBytes cs = byteLength (cs.takeWhile isBlank)
  | [] => rfl
  | c :: cs => by
    rw [blankBytes, List.takeWhile_cons]
    split
    · rw [byteLength_cons, blankBytes_eq cs]
    · rfl

/-- **Blanks are skipped up to the first offset that is not blank.** -/
theorem isLeast_skipBlanks (before after : List Char) :
    IsLeast {n | byteLength before ≤ n ∧ ¬ IsBlankAt (before ++ after) n}
      (skipBlanks (before ++ after) (byteLength before)) := by
  have hparts : before ++ after =
      before ++ after.takeWhile isBlank ++ after.dropWhile isBlank := by
    rw [List.append_assoc, List.takeWhile_append_dropWhile]
  have hskip : skipBlanks (before ++ after) (byteLength before) =
      byteLength (before ++ after.takeWhile isBlank) := by
    rw [skipBlanks, dropBytes_append, byteLength_append, ← blankBytes_eq]
    rfl
  have hhead : ∀ c ∈ (after.dropWhile isBlank).head?, isBlank c = false := by
    intro c hc
    have h := List.head?_dropWhile_not isBlank after
    rw [Option.mem_def.mp hc] at h
    exact h
  rw [hskip, hparts]
  refine ⟨⟨?_, not_isBlankAt hhead⟩, fun n ⟨hle, hn⟩ => ?_⟩
  · rw [byteLength_append]
    omega
  · by_contra hlt
    exact hn (isBlankAt_of_blanks (fun c hc => List.mem_takeWhile_imp hc) hle
      (by omega))

end CommentTable

/-! ### Anchors -/

section Anchors

variable {source : String}

/-- A range does not start at a blank, is not empty, and ends between characters. -/
theorem places_of_mem {r : CommentRange} (hr : r ∈ commentRanges source) :
    r.start < r.stop ∧ ¬ IsBlankAt source.toList r.start ∧
      ∃ before after, source.toList = before ++ after ∧ r.stop = byteLength before := by
  obtain ⟨before, s, after, hsource, -, hrange⟩ := (found [] source.toList).segment r hr
  rw [List.nil_append] at hsource
  obtain ⟨hstart, hstop, -⟩ := Segment.range?_eq hrange
  obtain ⟨⟨c, body, htext⟩, hpos⟩ := Segment.text_of_range? hrange
  refine ⟨by omega, ?_, before ++ s.text, after, hsource, by rw [hstop, byteLength_append]⟩
  rw [hsource, hstart, List.append_assoc, htext]
  exact not_isBlankAt fun c hc => by
    obtain rfl : '/' = c := Option.some.inj hc
    rfl

theorem stop_le_of_mem {r : CommentRange} (hr : r ∈ commentRanges source) :
    r.stop ≤ source.utf8ByteSize := by
  obtain ⟨-, -, before, after, hsource, hstop⟩ := places_of_mem hr
  rw [hstop, ← byteLength_toList, hsource, byteLength_append]
  omega

theorem ranges_pairwise (source : String) :
    (commentRanges source).Pairwise fun r r' => r.stop ≤ r'.start :=
  (found [] source.toList).pairwise.2

/-- The end of the text is neither blank nor in a comment. -/
theorem size_mem_tokensFrom {r : CommentRange} (hr : r ∈ commentRanges source) :
    source.utf8ByteSize ∈ tokensFrom source r.stop := by
  refine ⟨stop_le_of_mem hr, ?_, ?_⟩
  · have hend : ¬ IsBlankAt (source.toList ++ []) (byteLength source.toList) :=
      not_isBlankAt (by simp)
    rwa [List.append_nil, byteLength_toList] at hend
  · rintro ⟨r', hr', -, hlt⟩
    have := stop_le_of_mem hr'
    omega

theorem isLeast_anchor {r : CommentRange} (hr : r ∈ commentRanges source) :
    IsLeast (tokensFrom source r.stop) (r.anchor source) :=
  ⟨Nat.sInf_mem ⟨_, size_mem_tokensFrom hr⟩, fun _ hn => Nat.sInf_le hn⟩

/-- Without a token in between, the next one is the same. -/
theorem tokensFrom_eq {start stop : Nat} (hle : start ≤ stop)
    (h : ∀ n, start ≤ n → n < stop → IsBlankAt source.toList n ∨ InComment source n) :
    tokensFrom source start = tokensFrom source stop := by
  ext n
  constructor
  · rintro ⟨hn, hblank, hcomment⟩
    refine ⟨?_, hblank, hcomment⟩
    by_contra hlt
    exact (h n hn (by omega)).elim hblank hcomment
  · rintro ⟨hn, hother⟩
    exact ⟨by omega, hother⟩

/-- Two comments with nothing but blanks and comments between them have one anchor. -/
theorem anchor_eq {r r' : CommentRange} (hr' : r' ∈ commentRanges source)
    (hle : r.stop ≤ r'.start)
    (h : ∀ n, r.stop ≤ n → n < r'.start → IsBlankAt source.toList n ∨ InComment source n) :
    r.anchor source = r'.anchor source := by
  have hlt := (places_of_mem hr').1
  have htokens : tokensFrom source r.stop = tokensFrom source r'.stop := by
    refine tokensFrom_eq (by omega) fun n hn hlt' => ?_
    by_cases hin : n < r'.start
    · exact h n hn hin
    · exact .inr ⟨r', hr', by omega, hlt'⟩
  rw [CommentRange.anchor, htokens, CommentRange.anchor]

/-- **Two comments share their anchor if and only if there is no token between them.** -/
theorem anchor_eq_iff {r r' : CommentRange} (hr : r ∈ commentRanges source)
    (hr' : r' ∈ commentRanges source) (hle : r.stop ≤ r'.start) :
    r.anchor source = r'.anchor source ↔
      ∀ n, r.stop ≤ n → n < r'.start → IsBlankAt source.toList n ∨ InComment source n := by
  refine ⟨fun h n hn hlt => ?_, anchor_eq hr' hle⟩
  by_contra hother
  have hmem : n ∈ tokensFrom source r.stop := ⟨hn, not_or.mp hother⟩
  have hanchor : r.anchor source ≤ n := (isLeast_anchor hr).2 hmem
  have hbehind : r'.stop ≤ r'.anchor source := (isLeast_anchor hr').1.1
  have := (places_of_mem hr').1
  omega

/-- Blanks behind a range end at its anchor, unless a comment starts there. -/
theorem anchor_eq_skipBlanks {front rs : List CommentRange} {r : CommentRange}
    (hall : commentRanges source = front ++ r :: rs)
    (hnext : ∀ following ∈ rs.head?,
      following.start ≠ CommentTable.skipBlanks source.toList r.stop) :
    r.anchor source = CommentTable.skipBlanks source.toList r.stop := by
  have hr : r ∈ commentRanges source := by simp [hall]
  obtain ⟨-, -, before, after, hsource, hstop⟩ := places_of_mem hr
  obtain ⟨⟨hle, hblank⟩, hleast⟩ := CommentTable.isLeast_skipBlanks before after
  rw [← hsource, ← hstop] at hle hblank hleast
  generalize CommentTable.skipBlanks source.toList r.stop = next at *
  have horder := ranges_pairwise source
  rw [hall] at horder
  obtain ⟨-, hrest, hfront⟩ := List.pairwise_append.mp horder
  obtain ⟨hlater, hrest⟩ := List.pairwise_cons.mp hrest
  have hstarts : ∀ r' ∈ rs, next < r'.start := by
    intro r' hr'
    cases rs with
    | nil => cases hr'
    | cons following rs =>
      have hfollowing : following ∈ commentRanges source := by simp [hall]
      obtain ⟨hlt, hopening, -⟩ := places_of_mem hfollowing
      have hbehind := hlater following List.mem_cons_self
      have hfirst : next ≤ following.start := hleast ⟨hbehind, hopening⟩
      have hne := hnext following rfl
      rcases List.mem_cons.mp hr' with rfl | hr'
      · omega
      · have := (List.pairwise_cons.mp hrest).1 r' hr'
        omega
  have hcomment : ¬ InComment source next := by
    rintro ⟨r', hr', hstart', hstop'⟩
    rw [hall] at hr'
    rcases List.mem_append.mp hr' with hr' | hr'
    · have hbefore := hfront r' hr' r List.mem_cons_self
      have := (places_of_mem hr).1
      omega
    rcases List.mem_cons.mp hr' with rfl | hr'
    · omega
    · have := hstarts r' hr'
      omega
  have hleast' : IsLeast (tokensFrom source r.stop) next :=
    ⟨⟨hle, hblank, hcomment⟩, fun n hn => hleast ⟨hn.1, hn.2.1⟩⟩
  exact hleast'.csInf_eq

end Anchors

namespace CommentTable

/-- **A search behind a comment ends at its anchor**, as long as all comments behind it are
among those that are looked at. -/
theorem seekToken_eq_anchor {source : String} {later : List CommentRange}
    (hlater : ∀ r ∈ later, r ∈ commentRanges source) :
    ∀ {front rs : List CommentRange} {r : CommentRange},
      commentRanges source = front ++ r :: rs → (∀ r' ∈ rs, r' ∈ later) →
      seekToken source.toList later r.stop = r.anchor source
  | front, rs, r, hall, hrs => by
    have hr : r ∈ commentRanges source := by simp [hall]
    rw [seekToken_eq]
    cases hfound : later.find? fun r' => r'.start == skipBlanks source.toList r.stop with
    | none =>
      refine (anchor_eq_skipBlanks hall fun following hfollowing hstart => ?_).symm
      have hnone := List.find?_eq_none.mp hfound following (hrs _ (List.mem_of_mem_head? hfollowing))
      exact hnone (beq_iff_eq.mpr hstart)
    | some following =>
      have hmem := hlater following (List.mem_of_find?_eq_some hfound)
      have hstart : following.start = skipBlanks source.toList r.stop := by
        simpa using List.find?_some hfound
      obtain ⟨hlt, -, -⟩ := places_of_mem hmem
      obtain ⟨hlt', -, before, after, hsource, hstop⟩ := places_of_mem hr
      obtain ⟨⟨hle, -⟩, hleast⟩ := isLeast_skipBlanks before after
      rw [← hsource, ← hstop, ← hstart] at hle hleast
      have hblanks : ∀ n, r.stop ≤ n → n < following.start → IsBlankAt source.toList n := by
        intro n hn hlt
        by_contra hblank
        exact absurd (hleast ⟨hn, hblank⟩) (by omega)
      -- what starts behind `r` is none of the ranges in front
      have hbehind : following ∈ rs := by
        have horder := ranges_pairwise source
        rw [hall] at hmem horder
        obtain ⟨-, -, hfront⟩ := List.pairwise_append.mp horder
        rcases List.mem_append.mp hmem with hmem | hmem
        · have := hfront following hmem r List.mem_cons_self
          omega
        · rcases List.mem_cons.mp hmem with rfl | hmem
          · omega
          · exact hmem
      obtain ⟨mid, rest, rfl⟩ := List.append_of_mem hbehind
      have hall' : commentRanges source = (front ++ r :: mid) ++ following :: rest := by
        rw [hall, List.append_assoc, List.cons_append]
      have hsearch : seekToken source.toList later following.stop = following.anchor source :=
        seekToken_eq_anchor hlater hall' fun r' hr' => hrs r' (by simp [hr'])
      rw [← hstart]
      change (if following.start < following.stop then _ else _) = _
      rw [if_pos hlt, hsearch]
      exact (anchor_eq hmem hle fun n hn hlt => .inl (hblanks n hn hlt)).symm
termination_by _ rs => rs.length

/-- **The anchors of a table are those of its comments.** -/
theorem anchors_eq {source : String} {front rs : List CommentRange}
    (hall : commentRanges source = front ++ rs) :
    anchors source.toList rs = rs.map fun r => r.anchor source := by
  induction rs generalizing front with
  | nil => rfl
  | cons r rs ih =>
    have hlater : ∀ r' ∈ rs, r' ∈ commentRanges source := fun r' hr' => by simp [hall, hr']
    rw [anchors, List.map_cons, seekToken_eq_anchor hlater hall fun _ => id,
      ih (hall.trans (List.append_cons front r rs))]

/-! ### Tables -/

/-- The entries of a table are in the order of their offsets. -/
def IsSorted (t : CommentTable) : Prop := t.entries.Pairwise fun a b => a.1 < b.1

theorem leading_cons (p n : Nat) (cs : List Comment) (rest : List (Nat × List Comment)) :
    leading ⟨(p, cs) :: rest⟩ n = if n = p then cs else leading ⟨rest⟩ n := by
  unfold leading
  by_cases hn : n = p
  · simp [hn]
  · have hkey : (n == p) = false := by simpa using hn
    rw [List.lookup_cons, hkey, if_neg hn]

theorem leading_eq_nil : ∀ {entries : List (Nat × List Comment)} {n : Nat},
    (∀ e ∈ entries, n < e.1) → leading ⟨entries⟩ n = []
  | [], _, _ => rfl
  | (p, cs) :: rest, n, h => by
    obtain ⟨hp, hrest⟩ := List.forall_mem_cons.mp h
    rw [leading_cons, if_neg (Nat.ne_of_lt hp), leading_eq_nil hrest]

theorem insertEntry_fst_le {pos : Nat} {comment : Comment} {entries : List (Nat × List Comment)}
    {m : Nat} (hpos : m < pos) (h : ∀ e ∈ entries, m < e.1) :
    ∀ e ∈ insertEntry pos comment entries, m < e.1 := by
  fun_induction insertEntry pos comment entries with
  | case1 => simpa using hpos
  | case2 p cs rest _ => exact List.forall_mem_cons.mpr ⟨hpos, h⟩
  | case3 cs rest _ => exact List.forall_mem_cons.mpr ⟨hpos, (List.forall_mem_cons.mp h).2⟩
  | case4 p cs rest _ _ ih =>
    obtain ⟨hp, hrest⟩ := List.forall_mem_cons.mp h
    exact List.forall_mem_cons.mpr ⟨hp, ih hrest⟩

theorem IsSorted.add {t : CommentTable} (h : t.IsSorted) (pos : Nat) (comment : Comment) :
    (t.add pos comment).IsSorted := by
  obtain ⟨entries⟩ := t
  unfold IsSorted CommentTable.add at *
  dsimp only at *
  fun_induction insertEntry pos comment entries with
  | case1 => simp
  | case2 p cs rest hlt =>
    obtain ⟨hp, -⟩ := List.pairwise_cons.mp h
    refine List.pairwise_cons.mpr ⟨List.forall_mem_cons.mpr ⟨hlt, fun e he => ?_⟩, h⟩
    exact Nat.lt_trans hlt (hp e he)
  | case3 cs rest _ => exact List.pairwise_cons.mpr (List.pairwise_cons.mp h)
  | case4 p cs rest hlt hne ih =>
    obtain ⟨hp, hrest⟩ := List.pairwise_cons.mp h
    exact List.pairwise_cons.mpr ⟨insertEntry_fst_le (by omega) hp, ih hrest⟩

/-- **A comment that is added stands last under its position.** -/
theorem leading_add {t : CommentTable} (h : t.IsSorted) (pos : Nat) (comment : Comment)
    (n : Nat) :
    (t.add pos comment).leading n = t.leading n ++ if n = pos then [comment] else [] := by
  obtain ⟨entries⟩ := t
  unfold IsSorted CommentTable.add at *
  dsimp only at *
  fun_induction insertEntry pos comment entries with
  | case1 =>
    rw [leading_cons]
    rfl
  | case2 p cs rest hlt =>
    rw [leading_cons pos]
    by_cases hn : n = pos
    · have hbehind : ∀ e ∈ (p, cs) :: rest, n < e.1 := by
        refine List.forall_mem_cons.mpr ⟨hn ▸ hlt, fun e he => ?_⟩
        exact Nat.lt_trans (hn ▸ hlt) ((List.pairwise_cons.mp h).1 e he)
      rw [if_pos hn, if_pos hn, leading_eq_nil hbehind]
      rfl
    · rw [if_neg hn, if_neg hn, List.append_nil]
  | case3 cs rest _ =>
    rw [leading_cons, leading_cons]
    by_cases hn : n = pos
    · rw [if_pos hn, if_pos hn, if_pos hn]
    · rw [if_neg hn, if_neg hn, if_neg hn, List.append_nil]
  | case4 p cs rest _ hne ih =>
    rw [leading_cons, leading_cons]
    by_cases hn : n = p
    · have hother : n ≠ pos := fun heq => hne (heq.symm.trans hn)
      rw [if_pos hn, if_pos hn, if_neg hother, List.append_nil]
    · rw [if_neg hn, if_neg hn]
      exact ih (List.pairwise_cons.mp h).2

theorem size_add (t : CommentTable) (pos : Nat) (comment : Comment) :
    (t.add pos comment).size = t.size + 1 := by
  obtain ⟨entries⟩ := t
  unfold CommentTable.add size
  dsimp only
  fun_induction insertEntry pos comment entries with
  | case1 => rfl
  | case2 p cs rest _ =>
    simp
    omega
  | case3 cs rest _ =>
    simp
    omega
  | case4 p cs rest _ _ ih =>
    simp [ih]
    omega

/-- A table of comments that are filed one after the other. -/
theorem filed (source : String) : ∀ (rs : List CommentRange) {t : CommentTable}, t.IsSorted →
    let filed := rs.foldl (fun t r => t.add (r.anchor source) (r.comment source)) t
    filed.size = t.size + rs.length ∧
      ∀ n, filed.leading n =
        t.leading n ++ (rs.filter fun r => r.anchor source = n).map fun r => r.comment source
  | [], t, _ => by simp
  | r :: rs, t, h => by
    obtain ⟨hsize, hleading⟩ := filed source rs (h.add (r.anchor source) (r.comment source))
    refine ⟨?_, fun n => ?_⟩
    · rw [List.foldl_cons, hsize, size_add, List.length_cons]
      omega
    · rw [List.foldl_cons, hleading, leading_add h, List.append_assoc, List.filter_cons]
      by_cases hn : r.anchor source = n
      · simp [hn]
      · simp [hn, Ne.symm hn]

theorem ofSource_eq (source : String) :
    ofSource source = (commentRanges source).foldl
      (fun t r => t.add (r.anchor source) (r.comment source)) empty := by
  have hanchors : anchors source.toList (commentRanges source) =
      (commentRanges source).map fun r => r.anchor source := anchors_eq (List.nil_append _).symm
  have hzip : (anchors source.toList (commentRanges source)).zip (commentRanges source) =
      (commentRanges source).map fun r => (r.anchor source, r) := by
    rw [hanchors, ← List.zip_map', List.map_id']
  unfold ofSource
  dsimp only
  rw [hzip, List.foldl_map]

end CommentTable

/-- **Comments are filed under the next token, and none is lost.** Every comment of a text is
anchored at the first offset behind it that is neither blank nor part of a comment, or at the
end of the text. Its table has as many comments as the text; under each position it has those
anchored there, with their kinds and texts and in their order. Two comments have the same
anchor if and only if only blanks and comments lie between them. -/
theorem comments_are_filed_under_next_token (source : String) :
    (∀ r ∈ commentRanges source,
      IsLeast (tokensFrom source r.stop) (r.anchor source) ∧
        r.anchor source ≤ source.utf8ByteSize) ∧
    (CommentTable.ofSource source).size = (commentRanges source).length ∧
    (∀ n, (CommentTable.ofSource source).leading n =
      ((commentRanges source).filter fun r => r.anchor source = n).map
        fun r => r.comment source) ∧
    (commentRanges source).Pairwise fun r r' =>
      r.anchor source = r'.anchor source ↔
        ∀ n, r.stop ≤ n → n < r'.start → IsBlankAt source.toList n ∨ InComment source n := by
  have hempty : CommentTable.empty.IsSorted := List.Pairwise.nil
  obtain ⟨hsize, hleading⟩ := CommentTable.filed source (commentRanges source) hempty
  rw [← CommentTable.ofSource_eq] at hsize hleading
  refine ⟨fun r hr => ⟨isLeast_anchor hr, ?_⟩, ?_, fun n => ?_, ?_⟩
  · exact Nat.sInf_le (size_mem_tokensFrom hr)
  · exact hsize.trans (Nat.zero_add _)
  · exact hleading n
  · exact (ranges_pairwise source).imp_of_mem fun hr hr' hle => anchor_eq_iff hr hr' hle

end EcmaPrinter
