/-
Up the parent links and through groups.

Groups are the parentheses of an expression.  Two questions see through them: the nearest ancestor
that is not a group, and the content that a chain of groups with a single content wraps.
-/
import VariantFold.Tree.Basic

namespace VariantFold.Tree

/-- The chain of parents from `start` on, at most `limit` of them. -/
def chain (t : Tree) : (limit : Nat) → (start : Option NodeId) → List NodeId
  | 0, _ => []
  | _ + 1, none => []
  | n + 1, some id => id :: t.chain n (t.parent? id)

/-- The proper ancestors of a node, nearest first.  A chain of parents that ends has at most as many
members as there are nodes. -/
def ancestors (t : Tree) (id : NodeId) : List NodeId := t.chain t.size (t.parent? id)

/-- A node and its ancestors, nearest first. -/
def ancestorsOrSelf (t : Tree) (id : NodeId) : List NodeId := id :: t.ancestors id

/-- Whether `a` is `id` or one of its ancestors. -/
def isAncestorOrSelf (t : Tree) (a id : NodeId) : Bool := (t.ancestorsOrSelf id).contains a

/-- Whether the parent links of a node lead to the root. -/
def isAttached (t : Tree) (id : NodeId) : Bool := (t.ancestorsOrSelf id).getLast? = some t.root

/-- The nearest ancestor of a node that is `stop` or not a group; `stop` if there is none. -/
def nearestNonGroup (t : Tree) (id : NodeId) (stop : Option NodeId) : Option NodeId :=
  match (t.ancestors id).find? fun a => decide (some a = stop) || decide (t.kind a ≠ .group) with
  | some a => some a
  | none => stop

/-- Goes from a group to its only content, at most `limit` times. -/
def unwrap (t : Tree) : (limit : Nat) → NodeId → NodeId
  | 0, id => id
  | n + 1, id =>
    if t.kind id = .group then
      match t.contents id with
      | [inner] => t.unwrap n inner
      | _ => id
    else id

/-- The node inside a nest of groups that have a single content each. -/
def skipGroups (t : Tree) (id : NodeId) : NodeId := t.unwrap t.size id

end VariantFold.Tree
