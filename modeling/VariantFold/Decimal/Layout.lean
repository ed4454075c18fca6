/-
How decimal digits are written.

A `Layout` fixes the decisions of one written format: between which powers of ten a number is written
with a plain decimal point, whether a whole number keeps a fraction `.0`, and whether a positive
exponent carries a plus sign.
-/
import VariantFold.Decimal.Basic

namespace VariantFold

/-- What becomes of a value exactly between two neighbouring decimals. -/
inductive Tie where
  /-- The larger decimal is taken. -/
  | up
  /-- The decimal with the even last digit is taken. -/
  | even
  deriving DecidableEq, Repr

/-- The decisions of a written format for decimal numbers. -/
structure Layout where
  /-- The least exponent written with a plain point. -/
  least : Int
  /-- The greatest exponent written with a plain point. -/
  greatest : Int
  /-- Whether a whole number in plain form ends in `.0`. -/
  wholePoint : Bool
  /-- Whether a positive exponent carries a plus sign. -/
  plusSign : Bool
  /-- Which of two equally near shortest decimals is written. -/
  tie : Tie

namespace Layout

/-- `n` zeros. -/
def zeros (n : Nat) : List Char := List.replicate n '0'

/-- Digits with a plain decimal point, no exponent. -/
def plain (layout : Layout) (d : Decimal) : List Char :=
  if d.exponent < 0 then
    '0' :: '.' :: (zeros (-d.exponent - 1).toNat ++ d.digits)
  else
    let whole := d.exponent.toNat + 1
    if d.digits.length ≤ whole then
      d.digits ++ zeros (whole - d.digits.length) ++ (if layout.wholePoint then ['.', '0'] else [])
    else
      d.digits.take whole ++ '.' :: d.digits.drop whole

/-- Digits with the point after the first of them and an exponent. -/
def scientific (layout : Layout) (d : Decimal) : List Char :=
  let fraction := d.digits.drop 1
  d.digits.take 1 ++ (if fraction = [] then [] else '.' :: fraction) ++
    'e' :: ((if d.exponent < 0 then ['-'] else if layout.plusSign then ['+'] else []) ++
      natDigits d.exponent.natAbs)

/-- The text of a decimal number. -/
def write (layout : Layout) (negative : Bool) (d : Decimal) : List Char :=
  let body :=
    if layout.least ≤ d.exponent ∧ d.exponent ≤ layout.greatest then layout.plain d
    else layout.scientific d
  if negative then '-' :: body else body

end Layout

end VariantFold
