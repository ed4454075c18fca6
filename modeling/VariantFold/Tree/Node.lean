/-
Syntax tree nodes.

A node carries a kind, named scalar attributes, the names of its children in order and the name of its
parent.  Nodes live in the store of a tree, and children and parent are names in that store.
-/
import VariantFold.KeyMap
import VariantFold.Scalar
import VariantFold.Store
import VariantFold.Tree.Kind

namespace VariantFold

/-- The name of a node in its tree. -/
abbrev NodeId := Store.Id

/-- The attributes of a node, by name. -/
abbrev Attributes := KeyMap Scalar

/-! ### Attribute names that steps read or write -/

namespace Attr

/-- The sort of literal that a constant is. -/
def constantType : String := "constantType"

/-- How a literal is written: the quotes of a string, the sort of a number. -/
def detail : String := "detail"

/-- The name that a definition declares. -/
def identifier : String := "identifier"

/-- The key of an entry in an object literal. -/
def key : String := "key"

/-- The source line of a node. -/
def line : String := "line"

/-- The sort of a control statement. -/
def loopType : String := "loopType"

/-- The text of an identifier. -/
def name : String := "name"

/-- The operator of an operation. -/
def operator : String := "operator"

/-- The text of a literal. -/
def value : String := "value"

end Attr

/-- A node of a syntax tree. -/
structure Node where
  /-- What the node stands for. -/
  kind : Kind
  /-- Its attributes. -/
  attributes : Attributes := KeyMap.empty
  /-- Its children, in order. -/
  children : List NodeId := []
  /-- Its parent, unless it is a root or detached. -/
  parent : Option NodeId := none

instance : Inhabited Node := ⟨{ kind := .block }⟩

namespace Node

/-- The value of an attribute. -/
def get? (n : Node) (name : String) : Option Scalar := n.attributes.get? name

/-- The value of an attribute that is a string. -/
def str? (n : Node) (name : String) : Option String := n.get? name >>= Scalar.str?

/-- Gives an attribute a value. -/
def set (n : Node) (name : String) (value : Scalar) : Node :=
  { n with attributes := n.attributes.insert name value }

/-- Takes an attribute away. -/
def unset (n : Node) (name : String) : Node :=
  { n with attributes := n.attributes.erase name }

/-- The source line, if the attribute for it is an integer. -/
def line? (n : Node) : Option Int64 := n.get? Attr.line >>= Scalar.int?

end Node

end VariantFold
