/-
Moving nodes.

Both directions of a link change together: a node that is attached to a parent leaves its earlier
parent first.  Attaching a node below itself is refused, and so is replacing a node by one of its own
ancestors.
-/
import VariantFold.Tree.Ancestry

namespace VariantFold

/-- Why a node cannot go where it was to go. -/
inductive Misplacement where
  /-- It would lie below itself. -/
  | belowItself
  /-- It would take the place of itself or of a node below it. -/
  | aboveReplaced
  deriving DecidableEq, Repr

/-- The complaint about a node that cannot go where it was to go. -/
def Misplacement.message : Misplacement → String
  | belowItself => "attaching a node below itself would create a cycle"
  | aboveReplaced => "a node cannot replace itself or one of its own descendants"

namespace Tree

/-- Gives a node a parent link, or takes it away. -/
def setParent (t : Tree) (id : NodeId) (parent : Option NodeId) : Tree :=
  t.modify id fun n => { n with parent := parent }

/-- Changes the children of a node. -/
def modifyChildren (t : Tree) (id : NodeId) (f : List NodeId → List NodeId) : Tree :=
  t.modify id fun n => { n with children := f n.children }

/-- Takes a node away from its parent, and gives the position it had there. -/
def detach (t : Tree) (id : NodeId) : Option Nat × Tree :=
  match t.parent? id with
  | none => (none, t)
  | some p =>
    let t := t.setParent id none
    ((t.children p).idxOf? id, t.modifyChildren p fun cs => cs.erase id)

/-- Takes a node away from its parent. -/
def detached (t : Tree) (id : NodeId) : Tree := (t.detach id).2

/-- Moves a node to the end of the children of a parent that is not below it. -/
def attach (t : Tree) (parent child : NodeId) : Tree :=
  ((t.detached child).modifyChildren parent fun cs => cs ++ [child]).setParent child (some parent)

/-- Moves a node to the end of the children of `parent`, unless `parent` is at or below it. -/
def append (t : Tree) (parent child : NodeId) : Except Misplacement Tree :=
  if t.isAncestorOrSelf child parent then .error .belowItself
  else .ok (t.attach parent child)

/-- Moves nodes to the end of the children of `parent` in order; stops at the first that cannot. -/
def appendAll (t : Tree) (parent : NodeId) : List NodeId → Option Misplacement × Tree
  | [] => (none, t)
  | child :: rest =>
    match t.append parent child with
    | .ok t => t.appendAll parent rest
    | .error e => (some e, t)

/-- Adds a node and moves `children` below it. -/
def createWith (t : Tree) (kind : Kind) (children : List NodeId) : NodeId × Tree :=
  let (id, t) := t.create kind
  (id, children.foldl (fun t c => t.attach id c) t)

/-- Puts `new` in the place of `old`, a child of `p`, all of `new` being without a parent. -/
def splice (t : Tree) (p old : NodeId) (new : List NodeId) : Tree :=
  let (position, t) := t.detach old
  let position := position.getD (t.children p).length
  let t := t.modifyChildren p fun cs => cs.take position ++ new ++ cs.drop position
  new.foldl (fun t n => t.setParent n (some p)) t

/-- Puts the nodes `new`, in order, in the place of `old`.  They may come from anywhere, from below
`old` too.  In place of the root there is one node: any other number of them goes into a new block. -/
def replaceWith (t : Tree) (old : NodeId) (new : List NodeId) : Except Misplacement Tree :=
  if new = [old] then .ok t
  else if new.any fun n => t.isAncestorOrSelf n old then .error .aboveReplaced
  else if old = t.root ∧ new.length ≠ 1 then
    let (block, t) := t.createWith .block new
    .ok { t with root := block }
  else
    let t := new.foldl detached t
    match t.parent? old, new with
    | some p, _ => .ok (t.splice p old new)
    | none, [n] => .ok (if old = t.root then { t with root := n } else t)
    | none, _ => .ok t

/-- Puts the node `new` in the place of `old`. -/
def replace (t : Tree) (old new : NodeId) : Except Misplacement Tree := t.replaceWith old [new]

end Tree

end VariantFold
