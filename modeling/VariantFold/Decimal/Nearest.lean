/-
The double nearest to a decimal number.

The decimal is taken as an exact quotient of whole numbers and rounded once, to the nearest double, a
tie going to the even mantissa; what is too large becomes an infinity, what is too small a zero.
-/
import VariantFold.Decimal.Basic

namespace VariantFold

/-- The bits of the non-negative double nearest to `num / den`. -/
def nearestBits (num den : Nat) : Nat :=
  if num = 0 then 0
  else
    let guess : Int := (Nat.log2 num : Int) - (Nat.log2 den : Int) - 53
    let quotient (e : Int) : Nat × Nat × Nat :=
      let n := num * Nat.pow 2 (-e).toNat
      let d := den * Nat.pow 2 e.toNat
      (n / d, n % d, d)
    let least := max guess (-1074)
    let exponent := if (quotient least).1 < Nat.pow 2 53 then least else least + 1
    let (floor, rest, unit) := quotient exponent
    let mantissa :=
      if 2 * rest < unit then floor
      else if unit < 2 * rest then floor + 1
      else floor + floor % 2
    let bits := if mantissa < Nat.pow 2 52 then mantissa
      else (exponent + 1074).toNat * Nat.pow 2 52 + mantissa
    min bits (2047 * Nat.pow 2 52)

/-- The double with a sign and the bits of its magnitude. -/
def floatOfMagnitude (negative : Bool) (bits : Nat) : Float :=
  Float.ofBits (UInt64.ofNat (if negative then Nat.pow 2 63 + bits else bits))

/-- The double nearest to `± significand · 10 ^ scale`.  Numbers beyond every double are recognised by
the power of ten of their first digit. -/
def nearestFloat (negative : Bool) (significand : Nat) (scale : Int) : Float :=
  let first := scale + (natDigits significand).length
  if significand = 0 ∨ first < -400 then floatOfMagnitude negative 0
  else if 400 < first then floatOfMagnitude negative (2047 * Nat.pow 2 52)
  else floatOfMagnitude negative
    (nearestBits (significand * Nat.pow 10 scale.toNat) (Nat.pow 10 (-scale).toNat))

/-- The double nearest to an integer. -/
def floatOfInt (n : Int) : Float :=
  floatOfMagnitude (n < 0) (nearestBits n.natAbs 1)

end VariantFold
