/-
Scalar values.

The values that node attributes and the build configuration hold, with their text in scripts, their
truth value, and the equality under which scripts compare them.
-/
import VariantFold.Decimal.Numeral
import VariantFold.Decimal.Shortest

namespace VariantFold

/-- A value without parts. -/
inductive Scalar where
  | null
  | bool (b : Bool)
  | int (n : Int64)
  | float (x : Float)
  | string (s : String)
  deriving DecidableEq

instance : Inhabited Scalar := ⟨.null⟩

namespace Scalar

/-- Scripts write numbers plainly from `10 ^ -6` to below `10 ^ 21`, whole ones without a point. -/
def scriptLayout : Layout where
  least := -6
  greatest := 20
  wholePoint := false
  plusSign := true
  tie := .up

/-- Literals are written plainly from `10 ^ -4` to below `10 ^ 16`, and whole ones end in `.0`. -/
def literalLayout : Layout where
  least := -4
  greatest := 15
  wholePoint := true
  plusSign := false
  tie := .up

/-- The text of a floating point number in a script; both zeros are `0`. -/
def scriptFloat (x : Float) : String :=
  if x.isNaN then "NaN"
  else if x == 0 then "0"
  else if x.isInf then (if signBit x then "-Infinity" else "Infinity")
  else scriptLayout.float x

/-- The text of a floating point number as a literal. -/
def literalFloat (x : Float) : String :=
  if x.isNaN then "NaN"
  else if x.isInf then (if signBit x then "-inf" else "inf")
  else literalLayout.float x

/-- The text a script gets when it converts the value to a string. -/
def text : Scalar → String
  | null => "null"
  | bool true => "true"
  | bool false => "false"
  | int n => intText n.toInt
  | float x => scriptFloat x
  | string s => s

/-- The string, of a string. -/
def str? : Scalar → Option String
  | string s => some s
  | _ => none

/-- The integer, of an integer. -/
def int? : Scalar → Option Int64
  | int n => some n
  | _ => none

/-- The number that the value counts as in a comparison. -/
def number? : Scalar → Option Float
  | bool b => some (if b then 1 else 0)
  | int n => some (floatOfInt n.toInt)
  | float x => some x
  | null => none
  | string _ => none

/-- Whether the value counts as true: all do but `null`, `false`, zero, not-a-number and the empty
string. -/
def isTruthy : Scalar → Bool
  | null => false
  | bool b => b
  | int n => n ≠ 0
  | float x => !(x == 0) && !x.isNaN
  | string s => s ≠ ""

/-- Equality of literals in a script: numbers compare by value, truth values count as zero and one
against numbers, strings only equal strings and `null` only itself. -/
def looseEq : Scalar → Scalar → Bool
  | null, null => true
  | string a, string b => a = b
  | int a, int b => a = b
  | bool a, bool b => a = b
  | a, b =>
    match a.number?, b.number? with
    | some x, some y => x == y
    | _, _ => false

/-- Equality within one sort of value: numbers of the two sorts differ, and floating point numbers
compare by value, so not-a-number differs from itself. -/
def same : Scalar → Scalar → Bool
  | null, null => true
  | bool a, bool b => a = b
  | int a, int b => a = b
  | float x, float y => x == y
  | string a, string b => a = b
  | _, _ => false

end Scalar

end VariantFold
