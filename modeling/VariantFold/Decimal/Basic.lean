/-
Decimal numerals: significant digits with a power of ten.

The digits of a number and the way they are laid out as text are kept apart.  This module holds the
digits; `Decimal/Layout` writes them, `Decimal/Shortest` finds the digits of a floating point number,
and `Decimal/Nearest` goes back from digits to the nearest floating point number.
-/

namespace VariantFold

/-- The number `d₀.d₁d₂… · 10 ^ exponent` for the digits `d₀, d₁, d₂, …`. -/
structure Decimal where
  /-- The significant digits, most significant first. -/
  digits : List Char
  /-- The power of ten that the first digit counts. -/
  exponent : Int
  deriving DecidableEq, Repr

/-- The number that a row of decimal digits denotes. -/
def digitsValue (digits : List Char) : Nat :=
  digits.foldl (fun n c => 10 * n + (c.toNat - '0'.toNat)) 0

/-- The decimal digits of a number, most significant first. -/
def natDigits (n : Nat) : List Char := Nat.toDigits 10 n

/-- The decimal text of an integer. -/
def intText (n : Int) : String :=
  String.ofList (if n < 0 then '-' :: natDigits n.natAbs else natDigits n.natAbs)

namespace Decimal

/-- The digits of `significand · 10 ^ scale`, without trailing zeros. -/
def ofScaled (significand : Nat) (scale : Int) : Decimal :=
  let digits := natDigits significand
  let trimmed := (digits.reverse.dropWhile (· = '0')).reverse
  { digits := if trimmed = [] then ['0'] else trimmed
    exponent := scale + (digits.length : Int) - 1 }

end Decimal

end VariantFold
