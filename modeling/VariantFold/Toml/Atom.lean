/-
TOML values, and those that are written without quotes.

Truth values, numbers, dates and times have no quotes around them.  The words that can belong to one are
taken together first and then have to spell a value as a whole.
-/
import VariantFold.Decimal.Numeral
import VariantFold.Text.Fields
import VariantFold.Toml.Text

namespace VariantFold.Toml

/-- A TOML value. -/
inductive Value where
  | string (s : String)
  | integer (n : Int64)
  | float (x : Float)
  | boolean (b : Bool)
  /-- A date, a time, or both, as written. -/
  | datetime (text : String)
  | array (items : List Value)
  /-- The entries of a table, in increasing order of their keys. -/
  | table (entries : List (String × Value))

/-- A table: its entries in increasing order of their keys. -/
abbrev Table := List (String × Value)

/-! ### Values without quotes -/

/-- Digits with single underscores between them; the digits alone. -/
def digitRow? (isDigit : Char → Bool) (cs : List Char) : Option (List Char) :=
  let rows := Text.pieces '_' cs
  if rows.all fun row => row ≠ [] && row.all isDigit then some rows.flatten else none

/-- Decimal digits without a leading zero. -/
def plainRow? (cs : List Char) : Option (List Char) :=
  match digitRow? Char.isDigit cs with
  | some digits => if digits.head? = some '0' ∧ cs.length ≠ 1 then none else some digits
  | none => none

/-- The value of digits in a base. -/
def rowValue (base : Nat) (digits : List Char) : Nat :=
  digits.foldl (fun n c => base * n + (Json.hexValue? c).getD 0) 0

/-- Whether a character is a digit of a base up to sixteen. -/
def isDigitOf (base : Nat) (c : Char) : Bool :=
  match Json.hexValue? c with
  | some d => d < base
  | none => false

/-- An integer: decimal with or without a sign, or in base sixteen, eight or two without one. -/
def integer? (cs : List Char) : Option Int :=
  let based (base : Nat) (digits : List Char) : Option Int :=
    (digitRow? (isDigitOf base) digits).map fun row => (rowValue base row : Int)
  match cs with
  | '0' :: 'x' :: digits => based 16 digits
  | '0' :: 'o' :: digits => based 8 digits
  | '0' :: 'b' :: digits => based 2 digits
  | _ =>
    let (negative, digits) := spanSign cs
    (plainRow? digits).map fun row =>
      if negative then -(digitsValue row : Int) else digitsValue row

/-- A number with a fraction, an exponent, or both. -/
def float? (cs : List Char) : Option Float := do
  let (negative, body) := spanSign cs
  if body = ['i', 'n', 'f'] then return floatInfinity negative
  if body = ['n', 'a', 'n'] then return floatNaN
  let isMark (c : Char) : Bool := c = 'e' || c = 'E'
  let mantissa := body.takeWhile fun c => !isMark c
  let whole ← plainRow? (mantissa.takeWhile (· ≠ '.'))
  let fraction ← match mantissa.dropWhile (· ≠ '.') with
    | [] => some none
    | _ :: digits => (digitRow? Char.isDigit digits).map some
  let exponent ← match body.dropWhile fun c => !isMark c with
    | [] => some none
    | _ :: digits =>
      let (negative, digits) := spanSign digits
      (digitRow? Char.isDigit digits).map fun row =>
        some (if negative then -(digitsValue row : Int) else digitsValue row)
  if fraction.isNone ∧ exponent.isNone then none
  else
    let x := Numeral.toFloat ⟨negative, whole, fraction, exponent⟩
    if x.isInf then none else return x

/-- The value of exactly `n` decimal digits at the front. -/
def fixedDigits (n : Nat) (cs : List Char) : Option (Nat × List Char) :=
  let digits := cs.take n
  if digits.length = n ∧ digits.all Char.isDigit then some (digitsValue digits, cs.drop n) else none

/-- The number of days of a month. -/
def monthDays (year month : Nat) : Nat :=
  if month = 2 then
    if year % 4 = 0 ∧ (year % 100 ≠ 0 ∨ year % 400 = 0) then 29 else 28
  else if month ∈ [4, 6, 9, 11] then 30
  else 31

/-- Passes over a date. -/
def skipDate (cs : List Char) : Option (List Char) := do
  let (year, cs) ← fixedDigits 4 cs
  let (month, cs) ← fixedDigits 2 (← expect '-' cs)
  let (day, cs) ← fixedDigits 2 (← expect '-' cs)
  if 1 ≤ month ∧ month ≤ 12 ∧ 1 ≤ day ∧ day ≤ monthDays year month then some cs else none

/-- Passes over a time of day; seconds may be left out, and may have a fraction. -/
def skipTime (cs : List Char) : Option (List Char) := do
  let (hour, cs) ← fixedDigits 2 cs
  let (minute, cs) ← fixedDigits 2 (← expect ':' cs)
  if 23 < hour ∨ 59 < minute then none
  else match cs with
    | ':' :: cs =>
      let (second, cs) ← fixedDigits 2 cs
      if 60 < second then none
      else match cs with
        | '.' :: cs => if (spanDigits cs).1 = [] then none else some (spanDigits cs).2
        | _ => some cs
    | _ => some cs

/-- Whether a text is the distance of a time zone, or nothing. -/
def isZone : List Char → Bool
  | [] => true
  | ['Z'] => true
  | ['z'] => true
  | c :: cs =>
    if c = '+' || c = '-' then
      match fixedDigits 2 cs with
      | some (hour, ':' :: cs) =>
        match fixedDigits 2 cs with
        | some (minute, []) => hour ≤ 23 && minute ≤ 59
        | _ => false
      | _ => false
    else false

/-- Whether a text is a date, a time, or a date and a time. -/
def isDatetime (cs : List Char) : Bool :=
  match skipDate cs with
  | some [] => true
  | some (c :: rest) =>
    (c = 'T' || c = 't' || c = ' ') &&
      (match skipTime rest with
        | some zone => isZone zone
        | none => false)
  | none =>
    match skipTime cs with
    | some rest => rest = []
    | none => false

/-- The value that a text without quotes spells. -/
def atom? (cs : List Char) : Option Value :=
  if cs = ['t', 'r', 'u', 'e'] then some (.boolean true)
  else if cs = ['f', 'a', 'l', 's', 'e'] then some (.boolean false)
  else if isDatetime cs then some (.datetime (String.ofList cs))
  else match integer? cs with
    | some n => (int64? n).map .integer
    | none => (float? cs).map .float

/-- The value that a word spells. -/
def Lexeme.value? : Lexeme → Option Value
  | .missing => none
  | .bare text => atom? text
  | .quoted quote (some body) => (quote.decode body).map fun text => .string (String.ofList text)
  | .quoted _ none => none

end VariantFold.Toml
