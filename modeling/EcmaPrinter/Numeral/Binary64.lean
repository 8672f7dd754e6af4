/-
# Double-precision numbers

A number of the tree is an IEEE 754 double, kept as its 64 bits: a sign, eleven
bits of exponent and fifty-two of fraction. A finite one stands for
`significand · 2 ^ exponent` with its sign.

Products and quotients are rounded once, exactly: the quotient of two naturals
goes to the nearest double, a tie to the even significand. A decimal is read in
steps, each rounded by itself: its digits become a double, and that is multiplied
or divided by the double of a power of ten. The result is within a few last
places of the decimal and need not be the nearest double to it.

Key definitions: `Binary64`, `Binary64.ofRatio`, `Binary64.mul`, `Binary64.div`,
`Binary64.ofDecimal?`.
-/

-- powers of numbers are those of the core library, also where monoids have their own
attribute [instance (20000), default_instance 20000] instPowNat

namespace EcmaPrinter

/-- A double, as its bits. -/
structure Binary64 where
  bits : UInt64
deriving DecidableEq

namespace Binary64

/-- The sign bit is set. -/
def isNegative (x : Binary64) : Bool := decide (2 ^ 63 ≤ x.bits.toNat)

/-- The eleven exponent bits. -/
def exponentBits (x : Binary64) : Nat := x.bits.toNat / 2 ^ 52 % 2048

/-- The fifty-two fraction bits. -/
def fraction (x : Binary64) : Nat := x.bits.toNat % 2 ^ 52

def isFinite (x : Binary64) : Bool := x.exponentBits != 2047

def isNaN (x : Binary64) : Bool := x.exponentBits == 2047 && x.fraction != 0

/-- The magnitude of a finite number is `significand · 2 ^ exponent`. -/
def significand (x : Binary64) : Nat :=
  if x.exponentBits = 0 then x.fraction else 2 ^ 52 + x.fraction

/-- The exponent of the last place of a finite number. -/
def exponent (x : Binary64) : Int :=
  if x.exponentBits = 0 then -1074 else (x.exponentBits : Int) - 1075

/-! ## Rounding -/

/-- The quotient `num / den` to the nearest natural, a tie to the even one. -/
def roundDiv (num den : Nat) : Nat :=
  let quotient := num / den
  let twice := 2 * (num % den)
  if twice < den then quotient
  else if den < twice then quotient + 1
  else quotient + quotient % 2

/-- `num / den / 2 ^ q` as a quotient of naturals. -/
def scaleBy (num den : Nat) (q : Int) : Nat × Nat :=
  if 0 ≤ q then (num, den * 2 ^ q.toNat) else (num * 2 ^ (-q).toNat, den)

/-- The exponent at which `num / den` has a significand of fifty-three bits, or
the least exponent there is. -/
def placeOf (num den : Nat) : Int :=
  let guess : Int := (num.log2 : Int) - den.log2 - 53
  let (n, d) := scaleBy num den guess
  max (if n / d < 2 ^ 53 then guess else guess + 1) (-1074)

/-- The bits of the magnitude of the double nearest to `num / den`. The bits of a
significand `m` at exponent `q` are `(q + 1074) · 2 ^ 52 + m`, also where rounding
carried `m` to the next power of two. Beyond the largest double they are those of
infinity. -/
def magnitudeBits (num den : Nat) : Nat :=
  if num = 0 then 0
  else
    let q := placeOf num den
    let (n, d) := scaleBy num den q
    min ((q + 1074).toNat * 2 ^ 52 + roundDiv n d) (2047 * 2 ^ 52)

/-- The double nearest to `num / den`, with a sign. -/
def ofRatio (negative : Bool) (num den : Nat) : Binary64 :=
  ⟨UInt64.ofNat ((if negative then 2 ^ 63 else 0) + magnitudeBits num den)⟩

/-- The double nearest to an integer. -/
def ofInt (n : Int) : Binary64 := ofRatio (decide (n < 0)) n.natAbs 1

/-! ## Products and quotients -/

/-- The magnitude of a finite number as a quotient of naturals. -/
def ratio (x : Binary64) : Nat × Nat := scaleBy x.significand 1 (-x.exponent)

/-- The product of two finite numbers. -/
def mul (x y : Binary64) : Binary64 :=
  ofRatio (x.isNegative != y.isNegative) (x.ratio.1 * y.ratio.1) (x.ratio.2 * y.ratio.2)

/-- The quotient of two finite numbers, the second of which is not zero. -/
def div (x y : Binary64) : Binary64 :=
  ofRatio (x.isNegative != y.isNegative) (x.ratio.1 * y.ratio.2) (x.ratio.2 * y.ratio.1)

/-! ## Decimals -/

/-- The double nearest to `10 ^ k`, which is finite for `k` up to `maxPower`. -/
def powerOfTen (k : Nat) : Binary64 := ofRatio false (10 ^ k) 1

/-- The exponent of the largest power of ten that is a finite double. -/
def maxPower : Nat := 308

/-- A finite number times a power of ten, or nothing on overflow. A small enough
power takes several divisions, which stop as soon as nothing is left to divide. -/
def scaleByTen? (x : Binary64) (exponent : Int) : Option Binary64 :=
  if exponent.natAbs ≤ maxPower then
    if 0 ≤ exponent then
      let y := x.mul (powerOfTen exponent.natAbs)
      if y.isFinite then some y else none
    else some (x.div (powerOfTen exponent.natAbs))
  else if x.significand = 0 then some x
  else if 0 ≤ exponent then none
  else scaleByTen? (x.div (powerOfTen maxPower)) (exponent + maxPower)
termination_by exponent.natAbs
decreasing_by simp only [maxPower] at *; omega

/-- The double that `digits · 10 ^ exponent` is read as, or nothing on
overflow. -/
def ofDecimal? (negative : Bool) (digits : Nat) (exponent : Int) : Option Binary64 :=
  scaleByTen? (ofRatio negative digits 1) exponent

end Binary64

end EcmaPrinter
