/-
# The texts of numbers are numerals

What is written for a finite number that is not negative has the parts of a
number: digits without a leading zero, a fraction, an exponent. The only decimal
that would be written with a leading zero is a coefficient of zero with zeros
behind it. The search for the shortest decimal never ends in one: a hit is not
zero, and where the search gives up, the grid is fine enough for the value.

Key theorems: `Decimal.numeral_of_positional`, `Decimal.numeral_of_scientific`,
`shortest_coefficient_pos`, `magnitude_parts`, `numeral_parts`.
-/
import EcmaPrinter.Proofs.Lexical.Literals

namespace EcmaPrinter

open Lexical

/-! ### Digits -/

theorem isDigits_toDigits (n : Nat) : IsDigits (Nat.toDigits 10 n) :=
  ⟨Nat.toDigits_ne_nil, fun _ hc => Nat.isDigit_of_mem_toDigits (by decide) (by decide) hc⟩

theorem head?_append_digits {ds : List Char} (h : IsDigits ds) (rest : List Char) :
    (ds ++ rest).head? = ds.head? := by
  cases ds with
  | nil => exact absurd rfl h.1
  | cons c cs => rfl

theorem digitChar_ne_zero {n : Nat} (hn : 0 < n) (h : n < 10) : n.digitChar ≠ '0' := by
  have hall : ∀ k : Fin 10, 0 < k.val → k.val.digitChar ≠ '0' := by decide
  exact hall ⟨n, h⟩ hn

/-- The digits of a positive number do not start with a zero. -/
theorem head_toDigits (n : Nat) (hn : 0 < n) : (Nat.toDigits 10 n).head? ≠ some '0' := by
  induction n using Nat.strongRecOn with
  | _ n ih =>
    rw [Nat.toDigits_eq_if (by decide)]
    by_cases h : n < 10
    · simp [h, digitChar_ne_zero hn h]
    · have hlead := ih (n / 10) (by omega) (by omega)
      rw [if_neg h, head?_append_digits (isDigits_toDigits _)]
      exact hlead

theorem isDigits_replicate_append (k : Nat) {ds : List Char} (h : IsDigits ds) :
    IsDigits (List.replicate k '0' ++ ds) := by
  refine ⟨by simp [h.1], fun c hc => ?_⟩
  rcases List.mem_append.mp hc with hc | hc
  · rw [List.eq_of_mem_replicate hc]
    rfl
  · exact h.2 c hc

theorem isDigits_append_replicate {ds : List Char} (h : IsDigits ds) (k : Nat) :
    IsDigits (ds ++ List.replicate k '0') := by
  refine ⟨by simp [h.1], fun c hc => ?_⟩
  rcases List.mem_append.mp hc with hc | hc
  · exact h.2 c hc
  · rw [List.eq_of_mem_replicate hc]
    rfl

namespace Decimal

theorem isDigits_digits (d : Decimal) : IsDigits d.digits := isDigits_toDigits _

theorem head_digits {d : Decimal} (h : 0 < d.coefficient) : d.digits.head? ≠ some '0' :=
  head_toDigits _ h

/-- A decimal with several digits is not zero. -/
theorem coefficient_pos {d : Decimal} (h : 1 < d.digits.length) : 0 < d.coefficient := by
  rcases Nat.eq_zero_or_pos d.coefficient with hz | hpos
  · rw [digits, hz, Nat.toDigits_zero] at h
    exact absurd h (by decide)
  · exact hpos

/-- **A decimal written out in full is a numeral**, unless it is a zero followed by
zeros. -/
theorem numeral_of_positional (d : Decimal) (h : 0 < d.exponent → 0 < d.coefficient) :
    ∃ whole fraction, Numeral whole fraction [] ∧ d.positional false = whole ++ fraction := by
  have hds := d.isDigits_digits
  unfold positional
  by_cases hexp : 0 ≤ d.exponent
  · refine ⟨d.digits ++ List.replicate d.exponent.toNat '0', [],
      ⟨isDigits_append_replicate hds _, ?_, .inl rfl, .inl rfl⟩, by simp [hexp]⟩
    intro hzero
    rw [head?_append_digits hds] at hzero
    rcases Nat.eq_zero_or_pos d.coefficient with hz | hpos
    · have he : d.exponent.toNat = 0 := by
        rcases Int.lt_or_le 0 d.exponent with hlt | hle
        · exact absurd (h hlt) (by omega)
        · omega
      rw [digits, hz, he]
      rfl
    · exact absurd hzero (head_digits hpos)
  · by_cases hplaces : (-d.exponent).toNat < d.digits.length
    · refine ⟨d.digits.take (d.digits.length - (-d.exponent).toNat),
        '.' :: d.digits.drop (d.digits.length - (-d.exponent).toNat),
        ⟨⟨?_, fun c hc => hds.2 c (List.mem_of_mem_take hc)⟩, ?_, .inr ⟨_, ⟨?_, ?_⟩, rfl⟩,
          .inl rfl⟩, by simp [hexp, hplaces]⟩
      · intro hnil
        have := congrArg List.length hnil
        rw [List.length_take, List.length_nil] at this
        omega
      · intro hzero
        have hpos : 0 < d.coefficient := coefficient_pos (by omega)
        rw [List.head?_take] at hzero
        split at hzero
        · cases hzero
        · exact absurd hzero (head_digits hpos)
      · intro hnil
        have := congrArg List.length hnil
        rw [List.length_drop, List.length_nil] at this
        omega
      · exact fun c hc => hds.2 c (List.mem_of_mem_drop hc)
    · refine ⟨['0'],
        '.' :: (List.replicate ((-d.exponent).toNat - d.digits.length) '0' ++ d.digits),
        ⟨⟨by simp, by simp⟩, fun _ => rfl, .inr ⟨_, isDigits_replicate_append _ hds, rfl⟩,
          .inl rfl⟩, by simp [hexp, hplaces]⟩

/-- **A decimal written with an exponent is a numeral.** -/
theorem numeral_of_scientific (d : Decimal) :
    ∃ whole fraction exponent, Numeral whole fraction exponent ∧
      d.scientific = whole ++ fraction ++ exponent := by
  have hds := d.isDigits_digits
  have hexponent : ∃ sign ds, (sign = [] ∨ sign = ['-']) ∧ IsDigits ds ∧
      (toString d.leadingExponent).toList = sign ++ ds := by
    rw [Int.toString_eq_repr, Int.repr_eq_if]
    split
    · exact ⟨[], _, .inl rfl, isDigits_toDigits _, by rw [Nat.toList_repr]; rfl⟩
    · exact ⟨['-'], _, .inr rfl, isDigits_toDigits _, by
        rw [String.toList_append, Nat.toList_repr]
        rfl⟩
  obtain ⟨sign, es, hsign, hes, htext⟩ := hexponent
  unfold scientific
  rw [htext]
  cases hdigits : d.digits with
  | nil => exact absurd hdigits hds.1
  | cons lead rest =>
    rw [hdigits] at hds
    have hlead : IsDigits [lead] := ⟨by simp, fun c hc => hds.2 c (by simp_all)⟩
    have hexp : 'e' :: (sign ++ es) = [] ∨ ∃ s ds, (s = [] ∨ s = ['-']) ∧ IsDigits ds ∧
        'e' :: (sign ++ es) = 'e' :: (s ++ ds) := .inr ⟨sign, es, hsign, hes, rfl⟩
    cases rest with
    | nil => exact ⟨[lead], [], _, ⟨hlead, fun _ => rfl, .inl rfl, hexp⟩, by simp⟩
    | cons next rest =>
      have hrest : IsDigits (next :: rest) :=
        ⟨by simp, fun c hc => hds.2 c (List.mem_cons_of_mem _ hc)⟩
      exact ⟨[lead], '.' :: next :: rest, _,
        ⟨hlead, fun _ => rfl, .inr ⟨_, hrest, rfl⟩, hexp⟩, by simp⟩

end Decimal

/-! ### Shortest decimals -/

namespace Interval

variable {i : Interval}

theorem factors_pos (hnum : 0 < i.num) (g : Int) : 0 < (i.factors g).2 := by
  unfold factors
  split
  · exact hnum
  · exact Nat.mul_pos hnum (Nat.pow_pos (by decide))

/-- Zero is not in the interval. -/
theorem pos_of_holds (hlow : 0 < i.low) (hnum : 0 < i.num) {g : Int} {c : Nat}
    (h : i.holds g c = true) : 0 < c := by
  have hpos : 0 < i.low * (i.factors g).2 := Nat.mul_pos hlow (factors_pos hnum g)
  unfold holds at h
  rcases hf : i.factors g with ⟨a, b⟩
  simp only [hf] at h hpos
  rcases Nat.eq_zero_or_pos c with rfl | hc
  · split at h
    · simp only [Nat.zero_mul, Bool.and_eq_true, decide_eq_true_eq] at h
      omega
    · simp only [Nat.zero_mul, Bool.and_eq_true, decide_eq_true_eq] at h
      omega
  · exact hc

theorem nearestAt_cases (tie : Tie) (g : Int) :
    i.nearestAt tie g = i.floorAt g ∨ i.nearestAt tie g = i.floorAt g + 1 := by
  unfold nearestAt floorAt
  dsimp only
  split
  · exact .inl rfl
  split
  · exact .inr rfl
  · cases tie with
    | up => exact .inr rfl
    | even =>
      dsimp only
      omega

theorem pos_of_hit (hlow : 0 < i.low) (hnum : 0 < i.num) {tie : Tie} {g : Int} {c : Nat}
    (h : i.hit? tie g = some c) : 0 < c := by
  unfold hit? at h
  dsimp only at h
  split at h
  · rename_i hbelow _
    have hpos := pos_of_holds hlow hnum hbelow
    cases h
    rcases i.nearestAt_cases tie g with hc | hc <;> rw [hc] <;> omega
  · rename_i hbelow _
    cases h
    exact pos_of_holds hlow hnum hbelow
  · cases h
    exact Nat.succ_pos _
  · cases h

/-- A search ends in a hit or on its last grid. -/
theorem search_cases (hlow : 0 < i.low) (hnum : 0 < i.num) (tie : Tie) :
    ∀ (fuel : Nat) (g : Int), 0 < (i.search tie fuel g).coefficient ∨
      i.search tie fuel g = ⟨i.floorAt (g - fuel), g - fuel⟩
  | 0, g => .inr (by simp [search])
  | fuel + 1, g => by
    rw [search]
    cases hit : i.hit? tie g with
    | some c => exact .inl (pos_of_hit hlow hnum hit)
    | none =>
      have hg : g - 1 - (fuel : Int) = g - ((fuel + 1 : Nat) : Int) := by omega
      have ih := search_cases hlow hnum tie fuel (g - 1)
      rw [hg] at ih
      exact ih

/-- The guess at the exponent of the first digit, from the binary sizes. -/
theorem decade_le (i : Interval) :
    i.decade ≤ (((i.value * i.num).log2 : Int) - i.den.log2) * 30103 / 100000 + 1 := by
  unfold decade
  rw [Int.fdiv_eq_ediv_of_nonneg _ (by decide)]
  dsimp only
  split
  · omega
  split <;> omega

/-- Seventeen places below its first digit, a value is not below the first point
of the grid. That is shown where it is needed, for grids of powers up to
`10 ^ 20`. -/
theorem floorAt_pos (hvalue : 0 < i.value) (hnum : 0 < i.num) (hden : 0 < i.den)
    (hg : 0 < i.decade - 17) (hg' : i.decade - 17 ≤ 20) : 0 < i.floorAt (i.decade - 17) := by
  obtain ⟨k, hk⟩ := Int.eq_ofNat_of_zero_le (Int.le_of_lt hg)
  have hdecade := i.decade_le
  have hvn : 0 < i.value * i.num := Nat.mul_pos hvalue hnum
  have hlow : 2 ^ (i.value * i.num).log2 ≤ i.value * i.num := Nat.log2_self_le (by omega)
  have hhigh : i.den < 2 ^ (i.den.log2 + 1) := Nat.lt_log2_self
  generalize (i.value * i.num).log2 = L at hdecade hlow
  generalize i.den.log2 = M at hdecade hhigh
  have hsizes : 4 * k + (M + 1) ≤ L := by omega
  have hpow : 10 ^ k ≤ 2 ^ (4 * k) := by
    rw [Nat.pow_mul]
    exact Nat.pow_le_pow_left (by decide) k
  have hle : 10 ^ k * i.den ≤ i.value * i.num :=
    calc 10 ^ k * i.den ≤ 2 ^ (4 * k) * 2 ^ (M + 1) := Nat.mul_le_mul hpow (Nat.le_of_lt hhigh)
      _ = 2 ^ (4 * k + (M + 1)) := (Nat.pow_add _ _ _).symm
      _ ≤ 2 ^ L := Nat.pow_le_pow_right (by decide) hsizes
      _ ≤ i.value * i.num := hlow
  rw [hk]
  simp only [floorAt, factors]
  rw [if_pos (by omega)]
  exact Nat.div_pos hle (Nat.mul_pos (Nat.pow_pos (by decide)) hden)

end Interval

theorem Decimal.strip_pos : ∀ (fuel : Nat) {d : Decimal}, 0 < d.coefficient →
    0 < (d.strip fuel).coefficient
  | 0, _, h => h
  | fuel + 1, d, h => by
    rw [strip]
    split
    · rename_i hzero
      simp only [Bool.and_eq_true, decide_eq_true_eq] at hzero
      exact strip_pos fuel (show 0 < d.coefficient / 10 by omega)
    · exact h

theorem Decimal.strip_zero (exponent : Int) : ∀ fuel : Nat,
    (Decimal.mk 0 exponent).strip fuel = ⟨0, exponent⟩
  | 0 => rfl
  | _ + 1 => rfl

/-- **A decimal that is written out in full and ends in zeros of its exponent is
not zero.** -/
theorem shortest_coefficient_pos {tie : Tie} {m : Nat} {q : Int} (hm : 0 < m)
    (hpos : 0 < (shortest tie m q).exponent)
    (hfull : sourceFormat.isPositional (shortest tie m q) = true) :
    0 < (shortest tie m q).coefficient := by
  have hlow : 0 < (Interval.around m q).low := by
    simp only [Interval.around]
    split <;> omega
  have hvalue : 0 < (Interval.around m q).value := by
    simp only [Interval.around]
    omega
  have hnum : 0 < (Interval.around m q).num := by
    simp only [Interval.around]
    split
    · exact Nat.pow_pos (by decide)
    · exact Nat.one_pos
  have hden : 0 < (Interval.around m q).den := by
    simp only [Interval.around]
    split
    · exact Nat.one_pos
    · exact Nat.pow_pos (by decide)
  unfold shortest at hpos hfull ⊢
  dsimp only at hpos hfull ⊢
  generalize Interval.around m q = i at *
  rcases i.search_cases hlow hnum tie 17 i.decade with h | h
  · exact Decimal.strip_pos 20 h
  · rw [h] at hpos hfull ⊢
    rcases Nat.eq_zero_or_pos (i.floorAt (i.decade - (17 : Nat))) with hz | hc
    · rw [hz, Decimal.strip_zero] at hpos hfull
      have hexp : i.decade - 17 ≤ 20 := by
        simp only [NumeralFormat.isPositional, sourceFormat, Decimal.leadingExponent,
          Decimal.digits, Nat.toDigits_zero, Bool.and_eq_true, decide_eq_true_eq] at hfull
        simpa using hfull.2
      have hfloor := i.floorAt_pos hvalue hnum hden hpos hexp
      exact absurd hz (by
        change i.floorAt (i.decade - 17) ≠ 0
        omega)
    · exact Decimal.strip_pos 20 hc

/-- **The magnitude of a number is written as a numeral.** -/
theorem magnitude_parts (x : Binary64) :
    ∃ whole fraction exponent, Numeral whole fraction exponent ∧
      sourceFormat.magnitudeText x = whole ++ fraction ++ exponent := by
  obtain ⟨d, hd, hpos⟩ : ∃ d, sourceFormat.magnitudeText x = sourceFormat.decimalText d ∧
      (sourceFormat.isPositional d = true → 0 < d.exponent → 0 < d.coefficient) := by
    refine ⟨_, rfl, ?_⟩
    by_cases hzero : x.significand = 0
    · rw [if_pos hzero]
      exact fun _ hexp => absurd hexp (by decide)
    · rw [if_neg hzero]
      exact fun hfull hexp => shortest_coefficient_pos (by omega) hexp hfull
  rw [hd, NumeralFormat.decimalText]
  split
  · rename_i hfull
    obtain ⟨whole, fraction, h, heq⟩ := d.numeral_of_positional (hpos hfull)
    exact ⟨whole, fraction, [], h, by rw [List.append_nil]; exact heq⟩
  · exact d.numeral_of_scientific

/-- **The text of a finite number that is not negative is a numeral.** -/
theorem numeral_parts {x : Binary64} (hfinite : x.isFinite = true) (hsign : x.isNegative = false) :
    ∃ whole fraction exponent, Numeral whole fraction exponent ∧
      (numeral x).toList = whole ++ fraction ++ exponent := by
  have hnan : x.isNaN = false := by
    simp only [Binary64.isFinite, bne_iff_ne] at hfinite
    simp [Binary64.isNaN, hfinite]
  have htext : (numeral x).toList = sourceFormat.magnitudeText x := by
    simp [numeral, hnan, hfinite, NumeralFormat.text, hsign]
  rw [htext]
  exact magnitude_parts x

/-- A numeral starts with a minus sign if the number has one, and otherwise with a digit or
the letter of a name. -/
theorem numeral_head (x : Binary64) :
    ∃ c cs, (numeral x).toList = c :: cs ∧
      if x.isNegative && !x.isNaN then c = '-' else c.isDigit = true ∨ c = 'N' ∨ c = 'I' := by
  by_cases hnan : x.isNaN = true
  · rw [numeral, if_pos hnan, hnan]
    exact ⟨'N', _, rfl, by simp⟩
  have hnan : x.isNaN = false := by simpa using hnan
  cases hsign : x.isNegative with
  | true =>
    refine ⟨'-', (numeral x).toList.tail, ?_, by simp [hnan]⟩
    cases hfinite : x.isFinite <;> simp [numeral, hnan, hfinite, NumeralFormat.text, hsign]
  | false =>
    by_cases hfinite : x.isFinite = true
    · obtain ⟨whole, fraction, exponent, hparts, htext⟩ := numeral_parts hfinite hsign
      obtain ⟨hne, hdigits⟩ := hparts.isDigits
      obtain ⟨c, cs, rfl⟩ := List.exists_cons_of_ne_nil hne
      exact ⟨c, _, htext, .inl (hdigits c (List.mem_cons_self ..))⟩
    · exact ⟨'I', "nfinity".toList, by simp [numeral, hnan, hfinite, hsign], .inr (.inr rfl)⟩

/-- A test that whatever a numeral can start with passes. -/
theorem head_numeral {test : Char → Bool} (h : "-NI0123456789".toList.all test = true)
    (x : Binary64) : (numeral x).toList.head?.any test = true := by
  obtain ⟨c, cs, htext, hc⟩ := numeral_head x
  have hmem : c ∈ "-NI0123456789".toList := by
    split at hc
    · rw [hc]
      decide
    · rcases hc with hdigit | rfl | rfl
      · exact List.mem_append_right "-NI".toList (mem_digits_of_isDigit hdigit)
      · decide
      · decide
  rw [htext]
  exact List.all_eq_true.mp h c hmem

/-- A test that all characters of numerals pass. -/
theorem Lexical.Numeral.all {test : Char → Bool} (h : "0123456789.e+-".toList.all test = true)
    {whole fraction exponent : List Char} (hparts : Numeral whole fraction exponent) :
    (whole ++ fraction ++ exponent).all test = true := by
  have hmark (c : Char) (hc : c ∈ "0123456789.e+-".toList) : test c = true :=
    List.all_eq_true.mp h c hc
  have hdigits {ds : List Char} (hds : IsDigits ds) : ∀ c ∈ ds, test c = true := fun c hc =>
    hmark c (List.mem_append_left ".e+-".toList (mem_digits_of_isDigit (hds.2 c hc)))
  have hfraction : ∀ c ∈ fraction, test c = true := by
    rcases hparts.isFraction with rfl | ⟨ds, hds, rfl⟩
    · nofun
    · exact List.forall_mem_cons.mpr ⟨hmark '.' (by decide), hdigits hds⟩
  have hexponent : ∀ c ∈ exponent, test c = true := by
    rcases hparts.isExponent with rfl | ⟨sign, ds, hsign, hds, rfl⟩
    · nofun
    · refine List.forall_mem_cons.mpr
        ⟨hmark 'e' (by decide), List.forall_mem_append.mpr ⟨?_, hdigits hds⟩⟩
      rcases hsign with rfl | rfl
      · nofun
      · exact List.forall_mem_singleton.mpr (hmark '-' (by decide))
  rw [List.all_eq_true]
  exact List.forall_mem_append.mpr
    ⟨List.forall_mem_append.mpr ⟨hdigits hparts.isDigits, hfraction⟩, hexponent⟩

/-- **A test that all characters of the texts of numbers pass.** -/
theorem numeral_all {test : Char → Bool} (h : "0123456789.e+-NaInfity".toList.all test = true)
    (x : Binary64) : (numeral x).toList.all test = true := by
  have hmark (c : Char) (hc : c ∈ "0123456789.e+-NaInfity".toList) : test c = true :=
    List.all_eq_true.mp h c hc
  have hmagnitude : (sourceFormat.magnitudeText x).all test = true := by
    obtain ⟨whole, fraction, exponent, hparts, htext⟩ := magnitude_parts x
    rw [htext]
    refine hparts.all ?_
    rw [List.all_eq_true]
    exact fun c hc => hmark c (List.mem_append_left "NaInfity".toList hc)
  have hfinite : (sourceFormat.text x).all test = true := by
    unfold NumeralFormat.text
    split
    · rw [List.all_cons, hmark '-' (by decide), hmagnitude]
      rfl
    · exact hmagnitude
  have hfixed {s : String} (hs : (s.toList.all "0123456789.e+-NaInfity".toList.contains) = true) :
      s.toList.all test = true := by
    rw [List.all_eq_true] at hs ⊢
    exact fun c hc => hmark c (List.contains_iff_mem.mp (hs c hc))
  unfold numeral
  split
  · exact hfixed (by decide)
  split
  · rw [String.toList_ofList]
    exact hfinite
  split
  · exact hfixed (by decide)
  · exact hfixed (by decide)

end EcmaPrinter
