/-
# Decimals are read as finite numbers

Rounding a quotient gives a finite double, if the quotient is not above the largest
one. Reading a decimal divides by powers of ten, which makes a number smaller, and
checks each product, so that it never ends in infinity.

Key definitions: `Binary64.largest`.
Key theorems: `Binary64.isFinite_ofRatio`, `Binary64.isFinite_div`,
`Binary64.isFinite_ofDecimal?`, `Binary64.isFinite_ofInt`.
-/
import EcmaPrinter.Numeral.Binary64

namespace EcmaPrinter.Binary64

/-- The exponent of the last place of the largest doubles. -/
def topExponent : Nat := 971

/-- The largest finite double. -/
def largest : Nat := (2 ^ 53 - 1) * 2 ^ topExponent

theorem topExponent_eq : topExponent = 971 := rfl

theorem largest_lt : largest < 2 ^ 53 * 2 ^ topExponent :=
  Nat.mul_lt_mul_of_pos_right (by decide) (Nat.pow_pos (by decide))

theorem two_pow_topExponent_le : 2 ^ topExponent ≤ largest :=
  Nat.le_mul_of_pos_left _ (by decide)

/-! ### The place of the last digit -/

/-- At this exponent the quotient `num / den` has no more than fifty-three bits. -/
def FitsAt (num den : Nat) (q : Int) : Prop :=
  (scaleBy num den q).1 < 2 ^ 53 * (scaleBy num den q).2

variable {num den : Nat}

theorem FitsAt.mono {q q' : Int} (h : FitsAt num den q) (hq : q ≤ q') : FitsAt num den q' := by
  unfold FitsAt scaleBy at *
  by_cases h0 : 0 ≤ q
  · have h0' : 0 ≤ q' := by omega
    rw [if_pos h0] at h
    rw [if_pos h0']
    have hpow : 2 ^ q.toNat ≤ 2 ^ q'.toNat := Nat.pow_le_pow_right (by decide) (by omega)
    exact Nat.lt_of_lt_of_le h (Nat.mul_le_mul_left _ (Nat.mul_le_mul_left _ hpow))
  · rw [if_neg h0] at h
    by_cases h0' : 0 ≤ q'
    · rw [if_pos h0']
      calc num ≤ num * 2 ^ (-q).toNat := Nat.le_mul_of_pos_right _ (Nat.pow_pos (by decide))
        _ < 2 ^ 53 * den := h
        _ ≤ 2 ^ 53 * (den * 2 ^ q'.toNat) :=
          Nat.mul_le_mul_left _ (Nat.le_mul_of_pos_right _ (Nat.pow_pos (by decide)))
    · rw [if_neg h0']
      have hpow : 2 ^ (-q').toNat ≤ 2 ^ (-q).toNat := Nat.pow_le_pow_right (by decide) (by omega)
      exact Nat.lt_of_le_of_lt (Nat.mul_le_mul_left _ hpow) h

/-- One above the guess, the quotient fits. -/
theorem fitsAt_guess (num : Nat) (hden : 0 < den) :
    FitsAt num den ((num.log2 : Int) - den.log2 - 52) := by
  have hnum : num < 2 ^ (num.log2 + 1) := Nat.lt_log2_self
  have hlow : 2 ^ den.log2 ≤ den := Nat.log2_self_le (by omega)
  generalize num.log2 = a at *
  generalize den.log2 = b at *
  unfold FitsAt scaleBy
  split
  · calc num < 2 ^ (a + 1) := hnum
      _ = 2 ^ 53 * (2 ^ b * 2 ^ ((a : Int) - b - 52).toNat) := by
        rw [← Nat.pow_add, ← Nat.pow_add]
        congr 1
        omega
      _ ≤ 2 ^ 53 * (den * 2 ^ ((a : Int) - b - 52).toNat) :=
        Nat.mul_le_mul_left _ (Nat.mul_le_mul_right _ hlow)
  · calc num * 2 ^ (-((a : Int) - b - 52)).toNat
        < 2 ^ (a + 1) * 2 ^ (-((a : Int) - b - 52)).toNat :=
          Nat.mul_lt_mul_of_pos_right hnum (Nat.pow_pos (by decide))
      _ = 2 ^ 53 * 2 ^ b := by
        rw [← Nat.pow_add, ← Nat.pow_add]
        congr 1
        omega
      _ ≤ 2 ^ 53 * den := Nat.mul_le_mul_left _ hlow

theorem scaleBy_pos (hden : 0 < den) (q : Int) : 0 < (scaleBy num den q).2 := by
  unfold scaleBy
  split
  · exact Nat.mul_pos hden (Nat.pow_pos (by decide))
  · exact hden

theorem fitsAt_iff (hden : 0 < den) {q : Int} :
    FitsAt num den q ↔ (scaleBy num den q).1 / (scaleBy num den q).2 < 2 ^ 53 := by
  rw [Nat.div_lt_iff_lt_mul (scaleBy_pos hden q)]
  rfl

/-- A quotient fits at its place. -/
theorem fitsAt_placeOf (num : Nat) (hden : 0 < den) : FitsAt num den (placeOf num den) := by
  have hguess := fitsAt_guess num hden
  unfold placeOf
  dsimp only
  split
  · rename_i h
    exact ((fitsAt_iff hden).mpr h).mono (by omega)
  · exact hguess.mono (by omega)

theorem scaleBy_top : scaleBy num den topExponent = (num, den * 2 ^ topExponent) := by
  rw [scaleBy, if_pos (Int.natCast_nonneg _), Int.toNat_natCast]

/-- The place of a quotient that is not above the largest double. -/
theorem placeOf_le (hnum : 0 < num) (hden : 0 < den) (h : num ≤ largest * den) :
    placeOf num den ≤ topExponent := by
  have htop := topExponent_eq
  have hlow : 2 ^ num.log2 ≤ num := Nat.log2_self_le (by omega)
  have hhigh : den < 2 ^ (den.log2 + 1) := Nat.lt_log2_self
  have hlog : num.log2 < 53 + topExponent + (den.log2 + 1) := by
    rw [← Nat.pow_lt_pow_iff_right (show 1 < 2 by decide), Nat.pow_add, Nat.pow_add]
    calc 2 ^ num.log2 ≤ num := hlow
      _ ≤ largest * den := h
      _ < 2 ^ 53 * 2 ^ topExponent * 2 ^ (den.log2 + 1) :=
        Nat.mul_lt_mul_of_lt_of_lt largest_lt hhigh
  have hfits : FitsAt num den topExponent := by
    rw [FitsAt, scaleBy_top]
    have hlargest : largest * den < 2 ^ 53 * (den * 2 ^ topExponent) := by
      rw [Nat.mul_left_comm, Nat.mul_comm largest]
      exact Nat.mul_lt_mul_of_pos_left largest_lt hden
    exact Nat.lt_of_le_of_lt h hlargest
  unfold placeOf
  dsimp only
  split
  · omega
  · rename_i hguess
    have hlt : (num.log2 : Int) - den.log2 - 53 < topExponent := by
      refine Int.lt_of_not_ge fun hge => hguess ?_
      exact (fitsAt_iff hden).mp (hfits.mono hge)
    omega

/-! ### Rounding -/

theorem roundDiv_le (num den : Nat) : roundDiv num den ≤ num / den + 1 := by
  unfold roundDiv
  dsimp only
  split
  · omega
  · split
    · omega
    · omega

theorem le_roundDiv (num den : Nat) : num / den ≤ roundDiv num den := by
  unfold roundDiv
  dsimp only
  split
  · omega
  · split <;> omega

/-- A quotient that is not above a natural is not rounded above it. -/
theorem roundDiv_le_of_le {bound : Nat} (hden : 0 < den) (h : num ≤ bound * den) :
    roundDiv num den ≤ bound := by
  have hq : num / den ≤ bound := Nat.div_le_of_le_mul (by rw [Nat.mul_comm]; exact h)
  rcases Nat.lt_or_eq_of_le hq with hlt | heq
  · exact Nat.le_trans (roundDiv_le num den) hlt
  · -- the quotient is the bound itself, and nothing is left over
    have hdiv := Nat.div_add_mod num den
    rw [heq, Nat.mul_comm] at hdiv
    have hrest : num % den = 0 := by omega
    have hround : roundDiv num den = bound := by
      unfold roundDiv
      rw [hrest, if_pos (by omega), heq]
    exact Nat.le_of_eq hround

/-- **A quotient that is not above the largest double is rounded to a finite one.** -/
theorem magnitudeBits_lt (hden : 0 < den) (h : num ≤ largest * den) :
    magnitudeBits num den < 2047 * 2 ^ 52 := by
  unfold magnitudeBits
  split
  · decide
  · rename_i hzero
    have htop := topExponent_eq
    have hnum : 0 < num := by omega
    have hplace := placeOf_le hnum hden h
    have hfits := (fitsAt_iff hden).mp (fitsAt_placeOf num hden)
    dsimp only
    generalize hq : placeOf num den = q at *
    have hround : roundDiv (scaleBy num den q).1 (scaleBy num den q).2 ≤ 2 ^ 53 :=
      Nat.le_trans (roundDiv_le _ _) hfits
    rcases Int.lt_or_eq_of_le hplace with hlt | rfl
    · have hexp : (q + 1074).toNat ≤ 2044 := by omega
      have hmul := Nat.mul_le_mul_right (2 ^ 52) hexp
      omega
    · have hscaled :
          roundDiv (scaleBy num den topExponent).1 (scaleBy num den topExponent).2 ≤ 2 ^ 53 - 1 := by
        refine roundDiv_le_of_le (scaleBy_pos hden _) ?_
        rw [largest, Nat.mul_assoc] at h
        rw [scaleBy_top, Nat.mul_comm den]
        exact h
      omega

theorem isFinite_ofRatio (negative : Bool) (hden : 0 < den) (h : num ≤ largest * den) :
    (ofRatio negative num den).isFinite = true := by
  have hbits := magnitudeBits_lt hden h
  have hsign : (if negative then 2 ^ 63 else 0) ≤ 2 ^ 63 := by
    split <;> decide
  have hword : (ofRatio negative num den).bits.toNat =
      (if negative then 2 ^ 63 else 0) + magnitudeBits num den :=
    UInt64.toNat_ofNat_of_lt' (by
      change _ < 2 ^ 64
      omega)
  rw [isFinite, exponentBits, hword, bne_iff_ne]
  split <;> omega

/-! ### Quotients -/

/-- A finite number is not above the largest one. -/
theorem ratio_le {x : Binary64} (h : x.isFinite = true) : x.ratio.1 ≤ largest * x.ratio.2 := by
  have hexponent : x.exponent ≤ topExponent := by
    have hlt : x.exponentBits < 2048 := Nat.mod_lt _ (by decide)
    rw [isFinite, bne_iff_ne] at h
    rw [topExponent_eq]
    unfold exponent
    split <;> omega
  have hsignificand : x.significand ≤ 2 ^ 53 - 1 := by
    have hlt : x.fraction < 2 ^ 52 := Nat.mod_lt _ (by decide)
    unfold significand
    split <;> omega
  rw [ratio, scaleBy]
  split
  · calc x.significand ≤ largest :=
          Nat.le_trans hsignificand (Nat.le_mul_of_pos_right _ (Nat.pow_pos (by decide)))
      _ ≤ largest * (1 * 2 ^ (-x.exponent).toNat) :=
        Nat.le_mul_of_pos_right _ (Nat.mul_pos Nat.one_pos (Nat.pow_pos (by decide)))
  · have hpow : 2 ^ (- -x.exponent).toNat ≤ 2 ^ topExponent := by
      exact Nat.pow_le_pow_right (by decide) (by omega)
    rw [Nat.mul_one, largest]
    exact Nat.mul_le_mul hsignificand hpow

theorem ratio_pos (x : Binary64) : 0 < x.ratio.2 := scaleBy_pos Nat.one_pos _

/-- **Dividing by a number that is not below one keeps a number finite.** -/
theorem isFinite_div {x y : Binary64} (hx : x.isFinite = true) (hy : y.ratio.2 ≤ y.ratio.1) :
    (x.div y).isFinite = true := by
  have hpos := y.ratio_pos
  refine isFinite_ofRatio _ (Nat.mul_pos x.ratio_pos (by omega)) ?_
  rw [← Nat.mul_assoc]
  exact Nat.mul_le_mul (ratio_le hx) hy

/-- A quotient that is not below one is rounded to bits that are not below those of one. -/
theorem le_magnitudeBits (hden : 0 < den) (h : den ≤ num) :
    1023 * 2 ^ 52 ≤ magnitudeBits num den := by
  have hlow : 2 ^ den.log2 ≤ den := Nat.log2_self_le (by omega)
  have hhigh : num < 2 ^ (num.log2 + 1) := Nat.lt_log2_self
  have hlog : den.log2 < num.log2 + 1 := by
    rw [← Nat.pow_lt_pow_iff_right (show 1 < 2 by decide)]
    exact Nat.lt_of_le_of_lt (Nat.le_trans hlow h) hhigh
  have hplace : -53 ≤ placeOf num den := by
    unfold placeOf
    dsimp only
    split <;> omega
  rw [magnitudeBits, if_neg (by omega)]
  dsimp only
  generalize placeOf num den = q at *
  by_cases hq : q < -51
  · -- what is left below the place of one is in the significand
    have hround : 2 ^ (-q).toNat ≤ roundDiv (scaleBy num den q).1 (scaleBy num den q).2 := by
      rw [scaleBy, if_neg (by omega)]
      refine Nat.le_trans ?_ (le_roundDiv _ _)
      rw [Nat.le_div_iff_mul_le hden, Nat.mul_comm num]
      exact Nat.mul_le_mul_left _ h
    obtain rfl | rfl : q = -52 ∨ q = -53 := by omega
    · have : (2 : Nat) ^ (-(-52 : Int)).toNat = 2 ^ 52 := rfl
      omega
    · have : (2 : Nat) ^ (-(-53 : Int)).toNat = 2 ^ 53 := rfl
      omega
  · have hexp : 1023 ≤ (q + 1074).toNat := by omega
    have hmul := Nat.mul_le_mul_right (2 ^ 52) hexp
    omega

/-- Bits that are not below those of one, without a sign, are a number not below one. -/
theorem ratio_ge_one {x : Binary64} (hlow : 1023 * 2 ^ 52 ≤ x.bits.toNat)
    (hhigh : x.bits.toNat < 2 ^ 63) : x.ratio.2 ≤ x.ratio.1 := by
  have hbits : 1023 ≤ x.exponentBits := by
    unfold exponentBits
    omega
  have hsignificand : 2 ^ 52 ≤ x.significand := by
    rw [significand, if_neg (by omega)]
    omega
  have hexponent : -52 ≤ x.exponent := by
    rw [exponent, if_neg (by omega)]
    omega
  rw [ratio, scaleBy]
  split
  · have hpow : 2 ^ (-x.exponent).toNat ≤ 2 ^ 52 := Nat.pow_le_pow_right (by decide) (by omega)
    rw [Nat.one_mul]
    exact Nat.le_trans hpow hsignificand
  · exact Nat.mul_pos (by omega) (Nat.pow_pos (by decide))

theorem powerOfTen_ge_one (k : Nat) : (powerOfTen k).ratio.2 ≤ (powerOfTen k).ratio.1 := by
  have hone : 1 ≤ 10 ^ k := Nat.pow_pos (by decide)
  have hlow := le_magnitudeBits Nat.one_pos hone
  have hhigh : magnitudeBits (10 ^ k) 1 ≤ 2047 * 2 ^ 52 := by
    unfold magnitudeBits
    split
    · decide
    · exact Nat.min_le_right _ _
  have hword : (powerOfTen k).bits.toNat = magnitudeBits (10 ^ k) 1 := by
    rw [powerOfTen, ofRatio, if_neg (by decide), Nat.zero_add]
    exact UInt64.toNat_ofNat_of_lt' (by
      change _ < 2 ^ 64
      omega)
  exact ratio_ge_one (by omega) (by omega)

/-! ### Decimals -/

theorem isFinite_scaleByTen? {x y : Binary64} {exponent : Int} (hx : x.isFinite = true)
    (h : scaleByTen? x exponent = some y) : y.isFinite = true := by
  fun_induction scaleByTen? x exponent with
  | case1 x exponent _ _ _ hfinite =>
    rw [Option.some.injEq] at h
    rw [← h]
    exact hfinite
  | case2 => cases h
  | case3 =>
    cases h
    exact isFinite_div hx (powerOfTen_ge_one _)
  | case4 =>
    cases h
    exact hx
  | case5 => cases h
  | case6 x exponent _ _ _ ih =>
    exact ih (isFinite_div hx (powerOfTen_ge_one _)) h

/-- A natural of 64 bits is rounded to a finite number. -/
theorem isFinite_ofNat {n : Nat} (negative : Bool) (h : n ≤ 2 ^ 64) :
    (ofRatio negative n 1).isFinite = true := by
  have hpow : 2 ^ 64 ≤ 2 ^ topExponent := Nat.pow_le_pow_right (by decide) (by decide)
  refine isFinite_ofRatio negative Nat.one_pos (Nat.le_trans h ?_)
  rw [Nat.mul_one]
  exact Nat.le_trans hpow two_pow_topExponent_le

/-- **A decimal is read as a finite number**, if its digits are those of 64 bits. -/
theorem isFinite_ofDecimal? {negative : Bool} {digits : Nat} {exponent : Int} {x : Binary64}
    (hdigits : digits ≤ 2 ^ 64) (h : ofDecimal? negative digits exponent = some x) :
    x.isFinite = true :=
  isFinite_scaleByTen? (isFinite_ofNat negative hdigits) h

theorem isFinite_ofInt {n : Int} (h : n.natAbs ≤ 2 ^ 64) : (ofInt n).isFinite = true :=
  isFinite_ofNat _ h

end EcmaPrinter.Binary64
