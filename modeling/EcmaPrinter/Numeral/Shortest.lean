/-
# Shortest decimals

The decimal with the fewest digits that reads back as a given double. The reals
that round to `m · 2 ^ q` form an interval around it, closed if `m` is even. For
one digit, two, three and so on, the two neighbours of the value on the grid of
decimals with that many digits are tested against the interval; the first grid
with a hit wins. Of two hits the nearer is taken; where the value lies exactly
between them, whoever asks says which.

All comparisons are between naturals.

Key definitions: `Decimal`, `Tie`, `Interval`, `shortest`.
-/
import EcmaPrinter.Numeral.Binary64

namespace EcmaPrinter

/-- The decimal `coefficient · 10 ^ exponent`. -/
structure Decimal where
  coefficient : Nat
  exponent : Int
deriving DecidableEq

namespace Decimal

/-- Moves trailing zeros of the coefficient into the exponent, at most `fuel` of
them. -/
def strip : (fuel : Nat) → Decimal → Decimal
  | 0, d => d
  | fuel + 1, d =>
    if d.coefficient % 10 = 0 && d.coefficient != 0 then
      strip fuel ⟨d.coefficient / 10, d.exponent + 1⟩
    else d

/-- The digits of the coefficient. -/
def digits (d : Decimal) : List Char := Nat.toDigits 10 d.coefficient

/-- The exponent of the first digit. -/
def leadingExponent (d : Decimal) : Int := d.exponent + d.digits.length - 1

end Decimal

/-- Where a value goes that lies exactly between two decimals: to the upper one, or
to the one with the even coefficient. -/
inductive Tie where
  | up
  | even
deriving DecidableEq

/-- A value with the ends of the interval of reals that round to it, each in
units of the same positive rational `num / den`. -/
structure Interval where
  low : Nat
  value : Nat
  high : Nat
  num : Nat
  den : Nat
  closed : Bool

namespace Interval

/-- The interval of `m · 2 ^ q`, in quarters of a last place. The lower end is
nearer at a power of two, where the places below are half as wide. -/
def around (m : Nat) (q : Int) : Interval :=
  let low := if m = 2 ^ 52 ∧ -1074 < q then 4 * m - 1 else 4 * m - 2
  let power := q - 2
  { low := low
    value := 4 * m
    high := 4 * m + 2
    num := if 0 ≤ power then 2 ^ power.toNat else 1
    den := if 0 ≤ power then 1 else 2 ^ (-power).toNat
    closed := m % 2 = 0 }

/-- The factors `(a, b)` for which `c · 10 ^ g` compares with `x · num / den` as
`c · a` compares with `x · b`. -/
def factors (i : Interval) (g : Int) : Nat × Nat :=
  if 0 ≤ g then (10 ^ g.toNat * i.den, i.num) else (i.den, i.num * 10 ^ (-g).toNat)

/-- Whether `c · 10 ^ g` lies in the interval. -/
def holds (i : Interval) (g : Int) (c : Nat) : Bool :=
  let (a, b) := i.factors g
  if i.closed then decide (i.low * b ≤ c * a) && decide (c * a ≤ i.high * b)
  else decide (i.low * b < c * a) && decide (c * a < i.high * b)

/-- The coefficient of the largest point of the grid `10 ^ g` not above the value. -/
def floorAt (i : Interval) (g : Int) : Nat :=
  let (a, b) := i.factors g
  i.value * b / a

/-- The coefficient of the point of the grid `10 ^ g` nearest to the value. -/
def nearestAt (i : Interval) (tie : Tie) (g : Int) : Nat :=
  let (a, b) := i.factors g
  let below := i.value * b / a
  let twice := 2 * (i.value * b % a)
  if twice < a then below
  else if a < twice then below + 1
  else
    match tie with
    | .up => below + 1
    | .even => below + below % 2

/-- The grid point nearest to the value among those next to it that lie in the
interval. -/
def hit? (i : Interval) (tie : Tie) (g : Int) : Option Nat :=
  let below := i.floorAt g
  match i.holds g below, i.holds g (below + 1) with
  | true, true => some (i.nearestAt tie g)
  | true, false => some below
  | false, true => some (below + 1)
  | false, false => none

/-- The first hit on grids that get finer by one digit each. -/
def search (i : Interval) (tie : Tie) : (fuel : Nat) → (g : Int) → Decimal
  | 0, g => ⟨i.floorAt g, g⟩
  | fuel + 1, g =>
    match i.hit? tie g with
    | some c => ⟨c, g⟩
    | none => i.search tie fuel (g - 1)

/-- The exponent of the first digit of the value, found from its binary size and
put right by one step in either direction. -/
def decade (i : Interval) : Int :=
  let guess : Int := Int.fdiv ((((i.value * i.num).log2 : Int) - i.den.log2) * 30103) 100000
  if i.floorAt guess = 0 then guess - 1
  else if 10 ≤ i.floorAt guess then guess + 1
  else guess

end Interval

/-- The shortest decimal that reads back as `m · 2 ^ q`, for `0 < m`. Seventeen
digits always suffice. -/
def shortest (tie : Tie) (m : Nat) (q : Int) : Decimal :=
  let interval := Interval.around m q
  (interval.search tie 17 interval.decade).strip 20

end EcmaPrinter
