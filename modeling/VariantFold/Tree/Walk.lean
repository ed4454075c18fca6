/-
Walking a tree in pre-order with a stack.

The stack holds the nodes still to visit.  A step takes the top node and puts the nodes that follow
from it in its place, in order.
-/
import VariantFold.Tree.Basic

namespace VariantFold

/-- Visits the nodes on a stack and all that follow from them, at most `limit` of them. -/
def walk (next : NodeId → List NodeId) : (limit : Nat) → (stack : List NodeId) → List NodeId
  | 0, _ => []
  | _ + 1, [] => []
  | n + 1, id :: stack => id :: walk next n (next id ++ stack)

namespace Tree

/-- The number of links from a node to a child. -/
def linkCount (t : Tree) : Nat := (t.nodes.items.toList.flatMap fun n => n.children).length

/-- A bound for the length of a walk.  Every visit follows a path of child links from the start.
Where no such path meets a node twice it is determined by the set of its links, so there are no more
paths than sets. -/
def walkLimit (t : Tree) : Nat := Nat.pow 2 t.linkCount

/-- A node and all nodes below it, in pre-order. -/
def descendants (t : Tree) (id : NodeId) : List NodeId := walk t.children t.walkLimit [id]

/-- The nodes below a node that its scope holds: the walk does not enter functions. -/
def scope (t : Tree) (id : NodeId) : List NodeId :=
  (walk (fun i => if t.kind i = .function then [] else t.children i) t.walkLimit [id]).filter
    fun i => t.kind i ≠ .function

end Tree

end VariantFold
