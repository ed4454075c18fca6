/-
JSON text, written.

Text is written in a style: compact, without any space, or pretty, with one member or item a line and
two spaces of indentation for each level.  A style only adds blanks, so all styles spell the same value.
-/
import VariantFold.KeyMap
import VariantFold.Scalar

namespace VariantFold.Json

/-- Numbers are written plainly from `10 ^ -5` to below `10 ^ 16`, and whole ones end in `.0`. -/
def floatLayout : Layout where
  least := -5
  greatest := 15
  wholePoint := true
  plusSign := true
  tie := .even

/-- A code point below 256 as four hexadecimal digits. -/
def hexEscape (n : Nat) : List Char :=
  ['0', '0', Nat.digitChar (n / 16), Nat.digitChar (n % 16)]

/-- How a character is written in a string: quotes, backslashes and controls are escaped. -/
def escapeChar (c : Char) : List Char :=
  if c = '"' then ['\\', '"']
  else if c = '\\' then ['\\', '\\']
  else if c = '\n' then ['\\', 'n']
  else if c = '\r' then ['\\', 'r']
  else if c = '\t' then ['\\', 't']
  else if c.toNat = 8 then ['\\', 'b']
  else if c.toNat = 12 then ['\\', 'f']
  else if c.toNat < 32 then '\\' :: 'u' :: hexEscape c.toNat
  else [c]

/-- A string. -/
def stringText (s : String) : List Char := '"' :: (s.toList.flatMap escapeChar ++ ['"'])

/-- A scalar.  Numbers that are not finite are written as `null`. -/
def scalarText : Scalar → List Char
  | .null => ['n', 'u', 'l', 'l']
  | .bool true => ['t', 'r', 'u', 'e']
  | .bool false => ['f', 'a', 'l', 's', 'e']
  | .int n => (intText n.toInt).toList
  | .float x => if x.isNaN || x.isInf then ['n', 'u', 'l', 'l'] else (floatLayout.float x).toList
  | .string s => stringText s

/-- Where blanks go in written JSON. -/
structure Style where
  /-- What stands before a member, an item or a closing bracket at a level. -/
  line : Nat → List Char
  /-- What stands after a colon. -/
  gap : List Char

namespace Style

/-- No blanks. -/
def compact : Style := ⟨fun _ => [], []⟩

/-- One member or item a line. -/
def pretty : Style := ⟨fun level => '\n' :: List.replicate (2 * level) ' ', [' ']⟩

end Style

/-- A member of an object, after its line. -/
def memberText (style : Style) (key : String) (value : List Char) : List Char :=
  stringText key ++ ':' :: (style.gap ++ value)

/-- The members of an object of scalars, each on its line, with commas between. -/
def membersText (style : Style) (level : Nat) : List (String × Scalar) → List Char
  | [] => []
  | [(key, value)] => style.line level ++ memberText style key (scalarText value)
  | (key, value) :: rest =>
    style.line level ++ memberText style key (scalarText value) ++ ',' :: membersText style level rest

/-- An object of scalars with at least one member. -/
def objectText (style : Style) (level : Nat) (entries : KeyMap Scalar) : List Char :=
  '\x7b' :: (membersText style (level + 1) entries.entries ++ style.line level ++ ['\x7d'])

end VariantFold.Json
