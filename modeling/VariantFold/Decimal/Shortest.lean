/-
The fewest decimal digits that still name a floating point number.

A finite double is `mantissa · 2 ^ exponent`.  The reals that round to it form an interval around it,
whose ends belong to it exactly if the mantissa is even.  For one digit, two digits, and so on, the two
neighbours of the number on that decimal grid are tested against the interval in exact arithmetic; the
first grid with a hit gives the digits, the nearer neighbour if both hit.
-/
import VariantFold.Decimal.Layout

namespace VariantFold

/-- The number `mantissa · 2 ^ exponent`. -/
structure Dyadic where
  /-- The whole-number factor. -/
  mantissa : Nat
  /-- The power of two. -/
  exponent : Int
  deriving DecidableEq, Repr

namespace Dyadic

/-- The magnitude of a finite double. -/
def ofFloat (x : Float) : Dyadic :=
  let bits := x.toBits.toNat
  let field : Nat := bits / Nat.pow 2 52 % Nat.pow 2 11
  let fraction := bits % Nat.pow 2 52
  if field = 0 then ⟨fraction, -1074⟩ else ⟨Nat.pow 2 52 + fraction, (field : Int) - 1075⟩

/-- The neighbourhood of a double: the numbers that read as it, as quotients over one denominator. -/
structure Interval where
  /-- Numerator of the lower end. -/
  lower : Nat
  /-- Numerator of the number itself. -/
  centre : Nat
  /-- Numerator of the upper end. -/
  upper : Nat
  /-- The denominator. -/
  denominator : Nat
  /-- Whether the ends read as the number too. -/
  closed : Bool

/-- The interval of reals nearest to the double `d`; below a power of two the gap is halved. -/
def interval (d : Dyadic) : Interval :=
  let scale := Nat.pow 2 (d.exponent - 2).toNat
  let below := if d.mantissa = Nat.pow 2 52 ∧ d.exponent > -1074 then 1 else 2
  { lower := (4 * d.mantissa - below) * scale
    centre := 4 * d.mantissa * scale
    upper := (4 * d.mantissa + 2) * scale
    denominator := Nat.pow 2 (2 - d.exponent).toNat
    closed := d.mantissa % 2 = 0 }

namespace Interval

/-- Whether `n · 10 ^ scale` reads as the number. -/
def holds (i : Interval) (n : Nat) (scale : Int) : Bool :=
  let n' := n * Nat.pow 10 scale.toNat * i.denominator
  let up := Nat.pow 10 (-scale).toNat
  if i.closed then i.lower * up ≤ n' ∧ n' ≤ i.upper * up
  else i.lower * up < n' ∧ n' < i.upper * up

/-- The exponent of the first significant decimal digit. -/
def leading (i : Interval) : Int :=
  let guess := ((natDigits i.centre).length : Int) - (natDigits i.denominator).length
  if i.centre * Nat.pow 10 (-guess).toNat < i.denominator * Nat.pow 10 guess.toNat then guess - 1 else guess

/-- The decimal on the grid of step `10 ^ scale` that is written for the number, if one reads as it. -/
def onGrid (i : Interval) (tie : Tie) (scale : Int) : Option Nat :=
  let num := i.centre * Nat.pow 10 (-scale).toNat
  let den := i.denominator * Nat.pow 10 scale.toNat
  let low := num / den
  let rest := num % den
  match i.holds low scale, i.holds (low + 1) scale with
  | false, false => none
  | true, false => some low
  | false, true => some (low + 1)
  | true, true =>
    if 2 * rest < den then some low
    else if den < 2 * rest then some (low + 1)
    else match tie with
      | .up => some (low + 1)
      | .even => some (if low % 2 = 0 then low else low + 1)

end Interval

/-- The fewest digits that read back as `d`; seventeen always do. -/
def shortest (tie : Tie) (d : Dyadic) : Decimal :=
  if d.mantissa = 0 then ⟨['0'], 0⟩
  else
    let i := d.interval
    let first := i.leading
    let hit := (List.range 17).findSome? fun (n : Nat) =>
      let scale := first - (n : Int)
      (i.onGrid tie scale).map fun significand => Decimal.ofScaled significand scale
    hit.getD ⟨['0'], 0⟩

end Dyadic

/-- Whether the sign of a double is set. -/
def signBit (x : Float) : Bool := x.toBits.toNat / Nat.pow 2 63 = 1

/-- The text of a finite double in a written format. -/
def Layout.float (layout : Layout) (x : Float) : String :=
  String.ofList (layout.write (signBit x) ((Dyadic.ofFloat x).shortest layout.tie))

end VariantFold
