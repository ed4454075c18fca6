/-
Conditions.

Where a node is the whole condition of an `if` statement or of a conditional expression, a fixed value
for it decides which branch is taken.  Parentheses around a condition do not matter, nor do comments.
-/
import VariantFold.Tree.Build

namespace VariantFold.Tree

/-- The nearest ancestor that is not a group, if the node is its only content. -/
def soleContentParent (t : Tree) (id : NodeId) : Option NodeId :=
  match t.nearestNonGroup id none with
  | none => none
  | some p =>
    match t.contents p with
    | [c] => if t.skipGroups c = id then some p else none
    | _ => none

/-- The parent of a slot, if the slot and the parent are of the given kinds and an attribute of the
parent has the given text. -/
def slotOwner (t : Tree) (slot : NodeId) (slotKind ownerKind : Kind) (attr text : String) :
    Option NodeId :=
  if t.kind slot = slotKind then
    match t.parent? slot with
    | none => none
    | some owner =>
      if t.kind owner = ownerKind ∧ (t.node owner).str? attr = some text then some owner else none
  else none

/-- The `if` statement whose whole condition a node is. -/
def enclosingIf (t : Tree) (id : NodeId) : Option NodeId :=
  match t.soleContentParent id with
  | none => none
  | some slot => t.slotOwner slot .expression .loop Attr.loopType Build.ifType

/-- The conditional expression whose whole condition a node is. -/
def enclosingHook (t : Tree) (id : NodeId) : Option NodeId :=
  match t.soleContentParent id with
  | none => none
  | some slot => t.slotOwner slot .first .operation Attr.operator Build.hookOperator

end VariantFold.Tree
