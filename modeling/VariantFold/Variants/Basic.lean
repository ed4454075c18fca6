/-
The build configuration: variant keys and the values they are fixed to.

It is written as a JSON object, or setting by setting as `KEY=VALUE`.
-/
import VariantFold.Json.Reader
import VariantFold.Text.Fields

namespace VariantFold

/-- The variants that are configured, by key. -/
abbrev Variants := KeyMap Scalar

namespace Variants

/-- What stands before a key that is set by the environment. -/
def environmentMark : String := "<env>:"

/-- The configured value of a key: its own, or else that of the key with the environment's mark.  A
key that is set to `null` is configured. -/
def lookup (variants : Variants) (key : String) : Option Scalar :=
  match variants.get? key with
  | some value => some value
  | none => variants.get? (environmentMark ++ key)

/-- How many brackets may be open inside a configuration written as JSON. -/
def nestingLimit : Nat := 126

/-- The configuration that a JSON object spells. -/
def ofJson (text : String) : Except Json.Problem Variants :=
  Json.whole (Json.readMap (some nestingLimit) (Json.tokens text))

/-! ### Single settings -/

/-- Why a setting is refused. -/
inductive AssignmentError where
  /-- There is no equals sign. -/
  | noEquals (text : String)
  /-- Nothing stands before the equals sign. -/
  | emptyKey (text : String)
  deriving DecidableEq, Repr

/-- The complaint about a setting. -/
def AssignmentError.message : AssignmentError → String
  | noEquals text => "invalid KEY=VALUE: no `=` found in `" ++ text ++ "`"
  | emptyKey text => "invalid KEY=VALUE: empty key in `" ++ text ++ "`"

/-- The value of a setting: the scalar that it spells as JSON, or else the text itself. -/
def assignedValue (text : String) : Scalar :=
  match Json.whole (Json.readScalar (some nestingLimit) (Json.tokens text)) with
  | .ok value => value
  | .error _ => .string text

/-- Reads a setting.  The key ends at the first equals sign. -/
def readAssignment (text : String) : Except AssignmentError (String × Scalar) :=
  match Text.cutFirst '=' text with
  | none => .error (.noEquals text)
  | some (key, value) => if key = "" then .error (.emptyKey text) else .ok (key, assignedValue value)

end Variants

end VariantFold
