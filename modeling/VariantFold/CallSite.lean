/-
The calls that ask for variants.

A call asks for a variant if what is called is spelled `<namespace>.<method>` for one of the given
namespaces and one of four methods.
-/
import VariantFold.Literal
import VariantFold.Tree.Walk

namespace VariantFold

/-- The ways to ask for a variant. -/
inductive Method where
  /-- Choose an entry of an object literal. -/
  | select
  /-- Compare with a list of values. -/
  | isSet
  /-- Compare with a list of values, when building. -/
  | compilerIsSet
  /-- Take the value. -/
  | get
  deriving DecidableEq, Repr

namespace Method

/-- The name of a method in a script. -/
def name : Method → String
  | select => "select"
  | isSet => "isSet"
  | compilerIsSet => "compilerIsSet"
  | get => "get"

/-- The method of a name. -/
def ofName? (s : String) : Option Method :=
  [select, isSet, compilerIsSet, get].find? fun m => m.name = s

end Method

/-- A call that asks for a variant. -/
structure CallSite where
  /-- The call. -/
  call : NodeId
  /-- What it asks for. -/
  method : Method
  /-- What is called, in full. -/
  callee : String
  deriving DecidableEq, Repr

/-- The namespaces that are searched unless others are given. -/
def defaultNamespaces : List String := ["qx.core.Variant", "qx.core.Environment"]

namespace Tree

/-- The parts of a dotted name, if all of them are plain identifiers. -/
def nameParts? (t : Tree) (id : NodeId) : Option (List String) :=
  (t.children id).mapM fun c =>
    if t.kind c = .identifier then (t.node c).str? Attr.name else none

/-- The call whose callee a dotted name is. -/
def callOf? (t : Tree) (name : NodeId) : Option NodeId :=
  match t.parent? name with
  | none => none
  | some operand =>
    if t.kind operand = .operand then
      match t.parent? operand with
      | none => none
      | some call => if t.kind call = .call then some call else none
    else none

/-- The call that asks for a variant through a dotted name. -/
def callSite? (t : Tree) (namespaces : List String) (id : NodeId) : Option CallSite :=
  if t.kind id = .dottedName then do
    let parts ← t.nameParts? id
    let last ← parts.getLast?
    if ".".intercalate parts.dropLast ∈ namespaces then
      let method ← Method.ofName? last
      let call ← t.callOf? id
      return ⟨call, method, ".".intercalate parts⟩
    else none
  else none

/-- The calls below the root that ask for variants, in pre-order of what they call. -/
def callSites (t : Tree) (namespaces : List String) : List CallSite :=
  (t.descendants t.root).filterMap (t.callSite? namespaces)

/-- The arguments of a call. -/
def callArgs (t : Tree) (call : NodeId) : List NodeId :=
  match t.childOfKind? call .params with
  | some params => t.contents params
  | none => []

end Tree

end VariantFold
