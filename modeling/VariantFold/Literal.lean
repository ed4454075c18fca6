/-
Scalars as literals in the tree, and back.

A constant has an attribute for the sort of literal it is, one for its text and, where it matters, one
for a detail: the quotes of a string, the sort of a number.
-/
import VariantFold.Diagnostic
import VariantFold.Tree.Build

namespace VariantFold

/-- The sorts of literals. -/
inductive ConstantType where
  | string
  | number
  | boolean
  | null
  deriving DecidableEq, Repr

namespace ConstantType

/-- The name of a sort of literal. -/
def name : ConstantType → String
  | string => "string"
  | number => "number"
  | boolean => "boolean"
  | null => "null"

/-- The sort of literal of a name. -/
def ofName? (s : String) : Option ConstantType :=
  [string, number, boolean, null].find? fun c => c.name = s

end ConstantType

/-- The detail of an integer literal. -/
def intDetail : String := "int"

/-- The detail of a literal with a fraction. -/
def floatDetail : String := "float"

/-- The detail of a string literal. -/
def stringDetail : String := "doublequotes"

namespace Node

/-- Whether a node is a constant. -/
def isConstant (n : Node) : Bool := n.kind = .constant

/-- The sort of literal that a constant is. -/
def constantType? (n : Node) : Option ConstantType :=
  if n.isConstant then n.str? Attr.constantType >>= ConstantType.ofName? else none

/-- Whether a node is a string literal. -/
def isStringLiteral (n : Node) : Bool := n.constantType? = some .string

/-- The text of a literal, empty if it has none. -/
def literalText (n : Node) : String := (n.str? Attr.value).getD ""

/-- The number that the text of a literal denotes; the detail decides between integers and others, and
without one an integer is tried first. -/
def decodeNumber? (detail : Option String) (text : String) : Option Scalar :=
  let int := (readInt64? text).map Scalar.int
  let float := (readFloat? text).map Scalar.float
  if detail = some intDetail then int
  else if detail = some floatDetail then float
  else int.or float

/-- The scalar that a literal denotes, if its text makes sense. -/
def decode? (n : Node) : Option Scalar :=
  match n.constantType? with
  | none => none
  | some .string => some (.string n.literalText)
  | some .null => some .null
  | some .boolean =>
    match n.str? Attr.value with
    | some "true" => some (.bool true)
    | some "false" => some (.bool false)
    | _ => none
  | some .number => n.str? Attr.value >>= decodeNumber? (n.str? Attr.detail)

/-- Besides the kind only three attributes matter. -/
theorem decode?_congr {n n' : Node} (hkind : n'.kind = n.kind)
    (htype : n'.str? Attr.constantType = n.str? Attr.constantType)
    (hvalue : n'.str? Attr.value = n.str? Attr.value)
    (hdetail : n'.str? Attr.detail = n.str? Attr.detail) : n'.decode? = n.decode? := by
  have hconstant : n'.constantType? = n.constantType? := by
    rw [constantType?, constantType?, isConstant, isConstant, hkind, htype]
  rw [decode?, decode?, hconstant, literalText, literalText, hvalue, hdetail]

end Node

namespace Build

/-- A constant. -/
def constant (type : ConstantType) (text : String) : Build NodeId := do
  let id ← create .constant
  set id Attr.constantType (.string type.name)
  set id Attr.value (.string text)
  return id

/-- A string literal. -/
def stringLiteral (s : String) : Build NodeId := do
  let id ← constant .string s
  set id Attr.detail (.string stringDetail)
  return id

/-- An integer literal. -/
def intLiteral (n : Int64) : Build NodeId := do
  let id ← constant .number (intText n.toInt)
  set id Attr.detail (.string intDetail)
  return id

/-- A literal of a floating point number. -/
def floatLiteral (x : Float) : Build NodeId := do
  let id ← constant .number (Scalar.literalFloat x)
  set id Attr.detail (.string floatDetail)
  return id

/-- A truth value. -/
def boolLiteral (b : Bool) : Build NodeId := constant .boolean (if b then "true" else "false")

/-- The null literal. -/
def nullLiteral : Build NodeId := constant .null "null"

/-- A truth value with a source line. -/
def boolean (b : Bool) (line : Option Int64) : Build NodeId := do
  let id ← boolLiteral b
  atLine? id line
  return id

end Build

/-- Whether scripts have a literal for a scalar: only numbers that are not finite have none. -/
def Scalar.isLiteral : Scalar → Bool
  | .float x => x.isFinite
  | _ => true

/-- The literal of a scalar that has one. -/
def Build.literal : Scalar → Build NodeId
  | .null => nullLiteral
  | .bool b => boolLiteral b
  | .int n => intLiteral n
  | .float x => floatLiteral x
  | .string s => stringLiteral s

/-- Adds the literal of a scalar with a source line; `location` is named if there is none. -/
def Tree.materialize (t : Tree) (value : Scalar) (line : Option Int64) (location : Location) :
    Except VariantError (NodeId × Tree) :=
  if value.isLiteral then
    .ok ((do
      let id ← Build.literal value
      Build.atLine? id line
      return id : Build NodeId).run t)
  else .error (.unsupportedValue (match value with
    | .float x => Scalar.literalFloat x
    | value => value.text) location)

end VariantFold
