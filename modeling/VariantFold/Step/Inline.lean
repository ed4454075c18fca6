/-
Taking a branch.

An `if` statement whose condition is known gives way to the statements of the branch that is taken.
Names that only the other branch declares stay declared: declarations reach the whole function they
stand in.
-/
import VariantFold.Step.Basic
import VariantFold.Tree.Walk

namespace VariantFold

/-- A declared name with the source line of its declaration. -/
abbrev Declaration := String × Option Int64

/-- The declaration that a node is. -/
def Node.declaration? (n : Node) : Option Declaration :=
  if n.kind = .definition then (n.str? Attr.identifier).map fun name => (name, n.line?) else none

/-- The declarations at or below a node, those in functions left out, in pre-order. -/
def Tree.declarations (t : Tree) (id : NodeId) : List Declaration :=
  (t.scope id).filterMap fun i => (t.node i).declaration?

/-- The first declaration of each name that has not been seen. -/
def firstDeclarations (seen : List String) : List Declaration → List Declaration
  | [] => []
  | d :: rest =>
    if d.1 ∈ seen then firstDeclarations seen rest
    else d :: firstDeclarations (d.1 :: seen) rest

/-- The declarations of a dropped branch whose names the kept branch does not declare. -/
def Tree.lostDeclarations (t : Tree) (kept dropped : Option NodeId) : List Declaration :=
  match dropped with
  | none => []
  | some dropped =>
    let keptNames := match kept with
      | some kept => (t.declarations kept).map Prod.fst
      | none => []
    firstDeclarations keptNames (t.declarations dropped)

namespace Build

/-- A declaration without an initial value. -/
def bareDefinition (d : Declaration) : Build NodeId := do
  let id ← create .definition
  set id Attr.identifier (.string d.1)
  atLine? id d.2
  return id

/-- A list of declarations without initial values; nothing if there are none. -/
def bareDefinitions (ds : List Declaration) (line : Option Int64) : Build (List NodeId) := do
  if ds = [] then return []
  let ids ← ds.mapM bareDefinition
  let list ← node .definitionList ids
  atLine? list line
  return [list]

/-- The given nodes, or an empty block if there are none. -/
def orEmptyBlock (ids : List NodeId) (line : Option Int64) : Build (List NodeId) := do
  if ids = [] then
    let id ← create .block
    atLine? id line
    return [id]
  else return ids

end Build

/-- The children of a node, if there is one. -/
def Tree.childrenOf? (t : Tree) (id : Option NodeId) : List NodeId :=
  match id with
  | some id => t.children id
  | none => []

namespace Edit

/-- Replaces an `if` statement by the branch that a condition takes.  If nothing is left, an empty
block takes its place. -/
def inlineIf (loop : NodeId) (condition : Bool) : Edit Unit := do
  let t ← get
  let whenTrue := t.childOfKind? loop .statement
  let whenFalse := t.childOfKind? loop .elseStatement
  let (kept, dropped) := if condition then (whenTrue, whenFalse) else (whenFalse, whenTrue)
  let line := (t.node loop).line?
  let list ← build (Build.bareDefinitions (t.lostDeclarations kept dropped) line)
  let replacement ← build (Build.orEmptyBlock (t.childrenOf? kept ++ list) line)
  replaceWith loop replacement

/-- Replaces a conditional expression by the operand that a condition takes. -/
def inlineHook (operation : NodeId) (condition : Bool) : Edit Unit := do
  let t ← get
  let slot := t.childOfKind? operation (if condition then .second else .third)
  replaceWith operation (t.childrenOf? slot)

end Edit

end VariantFold
