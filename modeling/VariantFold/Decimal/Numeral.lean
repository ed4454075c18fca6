/-
Numbers read from text.

A `Numeral` is the parts of a written number: sign, whole digits, and, where present, fraction digits
and exponent.  The grammars that accept numerals differ; what a numeral denotes does not.
-/
import VariantFold.Decimal.Nearest

namespace VariantFold

/-- The parts of a written number. -/
structure Numeral where
  /-- Whether a minus sign stands in front. -/
  negative : Bool
  /-- The digits before the point. -/
  whole : List Char
  /-- The digits after the point, if there is a point. -/
  fraction : Option (List Char)
  /-- The power of ten, if one is written. -/
  exponent : Option Int
  deriving DecidableEq, Repr

namespace Numeral

/-- Whether the numeral has neither point nor exponent. -/
def isWhole (n : Numeral) : Bool := n.fraction.isNone && n.exponent.isNone

/-- The integer that the sign and the whole digits denote. -/
def toInt (n : Numeral) : Int :=
  if n.negative then -(digitsValue n.whole : Int) else digitsValue n.whole

/-- The double nearest to the numeral. -/
def toFloat (n : Numeral) : Float :=
  let fraction := n.fraction.getD []
  nearestFloat n.negative (digitsValue (n.whole ++ fraction)) (n.exponent.getD 0 - fraction.length)

end Numeral

/-- The digits at the front of a text and what follows them. -/
def spanDigits (cs : List Char) : List Char × List Char :=
  (cs.takeWhile Char.isDigit, cs.dropWhile Char.isDigit)

/-- A sign at the front of a text, if any: whether it is a minus, and what follows. -/
def spanSign : List Char → Bool × List Char
  | '-' :: rest => (true, rest)
  | '+' :: rest => (false, rest)
  | cs => (false, cs)

/-- Reads an exponent, if the text starts with one, and gives what follows.  An exponent mark without
digits is refused. -/
def readExponent? (cs : List Char) : Option (Option Int × List Char) :=
  match cs with
  | [] => some (none, [])
  | c :: rest =>
    if c = 'e' ∨ c = 'E' then
      let (negative, rest) := spanSign rest
      let (digits, rest) := spanDigits rest
      if digits = [] then none
      else some (some (if negative then -(digitsValue digits : Int) else digitsValue digits), rest)
    else some (none, cs)

/-- Reads an integer: an optional sign and at least one digit, nothing else. -/
def readInt? (cs : List Char) : Option Int :=
  let (negative, digits) := spanSign cs
  if digits ≠ [] ∧ digits.all Char.isDigit then
    some (if negative then -(digitsValue digits : Int) else digitsValue digits)
  else none

/-- The 64-bit integer of a value, if it is in range. -/
def int64? (n : Int) : Option Int64 :=
  if Int64.minValue.toInt ≤ n ∧ n ≤ Int64.maxValue.toInt then some (Int64.ofInt n) else none

/-- Reads a 64-bit integer: an optional sign and at least one digit, nothing else. -/
def readInt64? (text : String) : Option Int64 := readInt? text.toList >>= int64?

/-- Not a number. -/
def floatNaN : Float := Float.ofBits 0x7ff8000000000000

/-- An infinity. -/
def floatInfinity (negative : Bool) : Float := floatOfMagnitude negative (2047 * Nat.pow 2 52)

/-- Reads the digits, point and exponent of a floating point number; at least one digit has to stand
before or after the point, and nothing may follow. -/
def readDecimal? (negative : Bool) (cs : List Char) : Option Numeral :=
  let (whole, rest) := spanDigits cs
  let (fraction, rest) : Option (List Char) × List Char :=
    match rest with
    | '.' :: rest => let (digits, rest) := spanDigits rest; (some digits, rest)
    | _ => (none, rest)
  if whole = [] ∧ fraction.getD [] = [] then none
  else match readExponent? rest with
    | some (exponent, []) => some ⟨negative, whole, fraction, exponent⟩
    | _ => none

/-- Reads a floating point number: an optional sign, then a decimal numeral or one of the words `inf`,
`infinity` and `nan` in any case. -/
def readFloat? (text : String) : Option Float :=
  let (negative, body) := spanSign text.toList
  let word := String.ofList (body.map Char.toLower)
  if word = "inf" ∨ word = "infinity" then some (floatInfinity negative)
  else if word = "nan" then some floatNaN
  else (readDecimal? negative body).map Numeral.toFloat

end VariantFold
