/-
Building the node shapes that steps understand.

A builder adds nodes to a tree and gives the name of the topmost one, which is detached.  The nodes it
is given move below the new ones.
-/
import VariantFold.Text.Fields
import VariantFold.Tree.Edit

namespace VariantFold

/-- A step that adds to a tree. -/
abbrev Build := StateM Tree

namespace Build

/-- Adds a node. -/
def create (kind : Kind) : Build NodeId := fun t => t.create kind

/-- Adds a node above others. -/
def node (kind : Kind) (children : List NodeId) : Build NodeId := fun t => t.createWith kind children

/-- Gives an attribute of a node a value. -/
def set (id : NodeId) (name : String) (value : Scalar) : Build Unit := modify fun t => t.set id name value

/-- Gives a node a source line. -/
def atLine (id : NodeId) (line : Int64) : Build Unit := set id Attr.line (.int line)

/-- Gives a node a source line, if one is known. -/
def atLine? (id : NodeId) (line : Option Int64) : Build Unit :=
  match line with
  | some line => atLine id line
  | none => pure ()

/-- An identifier. -/
def identifier (name : String) : Build NodeId := do
  let id ← create .identifier
  set id Attr.name (.string name)
  return id

/-- A dotted name, with one identifier for each of its parts. -/
def dottedName (name : String) : Build NodeId := do
  let parts ← (Text.fields '.' name).mapM identifier
  node .dottedName parts

/-- The call of a dotted name. -/
def call (callee : String) (args : List NodeId) : Build NodeId := do
  let name ← dottedName callee
  let operand ← node .operand [name]
  let params ← node .params args
  node .call [operand, params]

/-- An object literal. -/
def map (entries : List (String × NodeId)) : Build NodeId := do
  let pairs ← entries.mapM fun (key, content) => do
    let value ← node .value [content]
    let pair ← node .keyValue [value]
    set pair Attr.key (.string key)
    return pair
  node .map pairs

/-- Parentheses. -/
def group (inner : NodeId) : Build NodeId := node .group [inner]

/-- A block of statements. -/
def block (statements : List NodeId) : Build NodeId := node .block statements

/-- An operation with two operands. -/
def operation (operator : String) (first second : NodeId) : Build NodeId := do
  let first ← node .first [first]
  let second ← node .second [second]
  let id ← node .operation [first, second]
  set id Attr.operator (.string operator)
  return id

/-- The operator of a conditional expression. -/
def hookOperator : String := "HOOK"

/-- A conditional expression. -/
def hook (condition whenTrue whenFalse : NodeId) : Build NodeId := do
  let first ← node .first [condition]
  let second ← node .second [whenTrue]
  let third ← node .third [whenFalse]
  let id ← node .operation [first, second, third]
  set id Attr.operator (.string hookOperator)
  return id

/-- The sort of a control statement that is an `if`. -/
def ifType : String := "IF"

/-- An `if` statement, each branch a block. -/
def ifStatement (condition : NodeId) (whenTrue : List NodeId) (whenFalse : Option (List NodeId)) :
    Build NodeId := do
  let expression ← node .expression [condition]
  let thenBlock ← block whenTrue
  let thenBranch ← node .statement [thenBlock]
  let elseBranch ← match whenFalse with
    | some statements => do
      let elseBlock ← block statements
      let branch ← node .elseStatement [elseBlock]
      pure [branch]
    | none => pure []
  let id ← node .loop ([expression, thenBranch] ++ elseBranch)
  set id Attr.loopType (.string ifType)
  return id

/-- The definition of a name in a `var` statement, with or without an initial value. -/
def definition (name : String) (init : Option NodeId) : Build NodeId := do
  let id ← create .definition
  set id Attr.identifier (.string name)
  if let some init := init then
    let target ← identifier name
    let left ← node .left [target]
    let right ← node .right [init]
    let assignment ← node .assignment [left, right]
    modify fun t => t.attach id assignment
  return id

/-- A `var` statement. -/
def varStatement (definitions : List (String × Option NodeId)) : Build NodeId := do
  let ids ← definitions.mapM fun (name, init) => definition name init
  node .var ids

/-- A function without parameters. -/
def function (statements : List NodeId) : Build NodeId := do
  let params ← create .params
  let content ← block statements
  let body ← node .body [content]
  node .function [params, body]

end Build

/-- Moves statements to the end of the root in order; stops at the first that cannot. -/
def Tree.pushStatements (t : Tree) (statements : List NodeId) : Option Misplacement × Tree :=
  t.appendAll t.root statements

end VariantFold
