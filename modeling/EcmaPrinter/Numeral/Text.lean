/-
# Numerals

The text of a number: the digits of its shortest decimal, written out in full
where its size allows, and with an exponent elsewhere. A format says where that
is, whether a whole number that is written out ends in `.0`, and which of two
equally near decimals is taken.

In source text numbers are written out from `1e-6` up to but not including
`1e21`, and a whole number has no point. Zero keeps its sign; the values that are
not finite have names.

Key definitions: `NumeralFormat`, `NumeralFormat.text`, `sourceFormat`,
`numeral`.
-/
import EcmaPrinter.Numeral.Shortest

namespace EcmaPrinter

/-- How a number is written. -/
structure NumeralFormat where
  /-- The least exponent of a first digit that is written out in full. -/
  least : Int
  /-- The greatest exponent of a first digit that is written out in full. -/
  greatest : Int
  /-- Whether a whole number that is written out ends in `.0`. -/
  wholePoint : Bool
  tie : Tie

namespace Decimal

/-- The decimal written out in full. -/
def positional (wholePoint : Bool) (d : Decimal) : List Char :=
  let ds := d.digits
  if 0 ≤ d.exponent then
    ds ++ List.replicate d.exponent.toNat '0' ++ (if wholePoint then ['.', '0'] else [])
  else
    let places := (-d.exponent).toNat
    if places < ds.length then
      ds.take (ds.length - places) ++ '.' :: ds.drop (ds.length - places)
    else '0' :: '.' :: List.replicate (places - ds.length) '0' ++ ds

/-- The decimal with one digit in front of the point and an exponent. -/
def scientific (d : Decimal) : List Char :=
  let mantissa :=
    match d.digits with
    | [] => []
    | [lead] => [lead]
    | lead :: rest => lead :: '.' :: rest
  mantissa ++ 'e' :: (toString d.leadingExponent).toList

end Decimal

namespace NumeralFormat

/-- Whether a decimal is written out in full. -/
def isPositional (f : NumeralFormat) (d : Decimal) : Bool :=
  decide (f.least ≤ d.leadingExponent) && decide (d.leadingExponent ≤ f.greatest)

/-- The text of a decimal. -/
def decimalText (f : NumeralFormat) (d : Decimal) : List Char :=
  if f.isPositional d then d.positional f.wholePoint else d.scientific

/-- The text of the magnitude of a finite number. -/
def magnitudeText (f : NumeralFormat) (x : Binary64) : List Char :=
  f.decimalText (if x.significand = 0 then ⟨0, 0⟩ else shortest f.tie x.significand x.exponent)

/-- The text of a finite number. -/
def text (f : NumeralFormat) (x : Binary64) : List Char :=
  if x.isNegative then '-' :: f.magnitudeText x else f.magnitudeText x

end NumeralFormat

/-- Numbers in source text. -/
def sourceFormat : NumeralFormat := ⟨-6, 20, false, .up⟩

/-- The text of a number in source text. -/
def numeral (x : Binary64) : String :=
  if x.isNaN then "NaN"
  else if x.isFinite then String.ofList (sourceFormat.text x)
  else if x.isNegative then "-Infinity"
  else "Infinity"

end EcmaPrinter
