/-
Configurations in files.

A file holds a JSON object or a TOML table, as its extension says.  Tables within a TOML table are
flattened: a scalar inside is configured under the parts of its path, joined by dots.  Several files and
single settings are laid over each other, the later ones on top.
-/
import VariantFold.Directory
import VariantFold.Toml.Document
import VariantFold.Variants.Basic

namespace VariantFold

/-! ### Flat tables -/

/-- The scalar that a TOML value is. -/
def Toml.Value.scalar? : Toml.Value → Option Scalar
  | .string s => some (.string s)
  | .integer n => some (.int n)
  | .float x => some (.float x)
  | .boolean b => some (.bool b)
  | .datetime _ | .array _ | .table _ => none

mutual

/-- The values at or below a value that are no tables, each with the path to it, in order. -/
def Toml.Value.leaves (path : List String) : Toml.Value → List (List String × Toml.Value)
  | .table entries => Toml.leaves path entries
  | .string s => [(path, .string s)]
  | .integer n => [(path, .integer n)]
  | .float x => [(path, .float x)]
  | .boolean b => [(path, .boolean b)]
  | .datetime text => [(path, .datetime text)]
  | .array items => [(path, .array items)]

/-- The values in a table that are no tables, each with the path to it, in order. -/
def Toml.leaves (path : List String) : List (String × Toml.Value) → List (List String × Toml.Value)
  | [] => []
  | (key, v) :: rest => v.leaves (path ++ [key]) ++ Toml.leaves path rest

end

namespace Variants

/-- The key of a path. -/
def dottedKey (path : List String) : String := ".".intercalate path

/-- Why a configuration cannot be taken from a file. -/
inductive LoadError where
  /-- The file cannot be read. -/
  | unreadable (path : String)
  /-- The text is no JSON object of scalars. -/
  | badJson (path : String) (problem : Json.Problem)
  /-- The text is no TOML document. -/
  | badToml
  /-- A key of a TOML document has too many parts. -/
  | longKey
  /-- A value is neither a scalar nor a table. -/
  | notScalar (key : String)
  /-- The extension says neither JSON nor TOML. -/
  | unknownExtension (extension path : String)

/-- The complaint about a file. -/
def LoadError.message : LoadError → String
  | unreadable path => "Failed to read variants from " ++ path
  | badJson path _ => "Invalid variants file " ++ path
  | badToml => "TOML parse error"
  | longKey => "recursion limit\n"
  | notScalar key => "Variant \"" ++ key ++ "\" must be a string, number or boolean"
  | unknownExtension extension path =>
    "Unsupported variants file extension \"" ++ extension ++ "\": " ++ path

/-- A leaf of a table as a setting. -/
def leafSetting (leaf : List String × Toml.Value) : Except LoadError (String × Scalar) :=
  match leaf.2.scalar? with
  | some value => .ok (dottedKey leaf.1, value)
  | none => .error (.notScalar (dottedKey leaf.1))

/-- The configuration that a TOML table spells.  Of leaves with the same key the last counts. -/
def ofTable (table : Toml.Table) : Except LoadError Variants :=
  ((Toml.leaves [] table).mapM leafSetting).map KeyMap.ofList

/-- The configuration that a TOML document spells. -/
def ofToml (text : String) : Except LoadError Variants :=
  match Toml.read text with
  | .ok table => ofTable table
  | .error .malformed => .error .badToml
  | .error .longKey => .error .longKey

/-- The configuration in a file, given its text if it can be read. -/
def ofFile (path : String) (text : Option String) : Except LoadError Variants :=
  match text with
  | none => .error (.unreadable path)
  | some text =>
    match Path.extension? path with
    | some "toml" => ofToml text
    | some "json" | none => (ofJson text).mapError (.badJson path)
    | some extension => .error (.unknownExtension extension path)

/-- Configurations laid over each other, with single settings on top. -/
def layered (layers : List Variants) (settings : List (String × Scalar)) : Variants :=
  (layers.foldl (fun m layer => m.insertAll layer.entries) KeyMap.empty).insertAll settings

end Variants

end VariantFold
