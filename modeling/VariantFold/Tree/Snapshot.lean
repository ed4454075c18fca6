/-
Trees without names.

A `Snapshot` is a node with its subtrees in place of their names.  It is what a tree looks like from
outside: JSON text spells a snapshot, and a tree is laid out from one.
-/
import VariantFold.Text.Quoted
import VariantFold.Tree.Edit

namespace VariantFold

/-- A node with its subtrees. -/
inductive Snapshot where
  | node (kind : Kind) (attributes : Attributes) (children : List Snapshot)

namespace Snapshot

/-- The kind of the topmost node. -/
def kind : Snapshot → Kind
  | node kind _ _ => kind

/-- The attributes of the topmost node. -/
def attributes : Snapshot → Attributes
  | node _ attributes _ => attributes

/-- The subtrees. -/
def children : Snapshot → List Snapshot
  | node _ _ children => children

/-- The value of an attribute of the topmost node that is a string. -/
def str? (s : Snapshot) (name : String) : Option String :=
  s.attributes.get? name >>= Scalar.str?

/-- The number of nodes. -/
def size : Snapshot → Nat
  | node _ _ children => (children.map size).foldr (· + ·) 1

/-- What an expression in parentheses shows of a node besides its kind. -/
def label? (s : Snapshot) : Option String :=
  match s.kind with
  | .operation => s.str? Attr.operator
  | .loop => s.str? Attr.loopType
  | .keyValue => s.str? Attr.key
  | .definition => s.str? Attr.identifier
  | _ => none

/-- A snapshot as a nested expression in parentheses: literals by their text, names as they are, any
other node as its kind, its label and its subtrees. -/
def sexp : Snapshot → String
  | s@(node kind _ children) =>
    match kind with
    | .constant =>
      let text := (s.str? Attr.value).getD ""
      if s.str? Attr.constantType = some "string" then Text.quoted text else text
    | .identifier => (s.str? Attr.name).getD ""
    | .dottedName => ".".intercalate (children.filterMap fun c => c.str? Attr.name)
    | _ =>
      let head := match s.label? with
        | some label => kind.name ++ ":" ++ label
        | none => kind.name
      "(" ++ " ".intercalate (head :: children.map sexp) ++ ")"

end Snapshot

namespace Tree

/-- The subtree of a node, cut off below a depth. -/
def unfold (t : Tree) : (depth : Nat) → NodeId → Snapshot
  | 0, id => .node (t.kind id) (t.attributes id) []
  | n + 1, id => .node (t.kind id) (t.attributes id) ((t.children id).map (t.unfold n))

/-- The subtree of a node.  A path down the tree meets no more nodes than there are. -/
def snapshot (t : Tree) (id : NodeId) : Snapshot := t.unfold t.size id

/-- The subtree of a node as a nested expression in parentheses. -/
def sexp (t : Tree) (id : NodeId) : String := (t.snapshot id).sexp

/-- Adds a child for each of the given snapshots, and puts each on the stack of nodes to fill. -/
def addChildren (id : NodeId) (t : Tree) (stack : List (NodeId × Snapshot)) :
    List Snapshot → Tree × List (NodeId × Snapshot)
  | [] => (t, stack)
  | s :: rest =>
    let (child, t) := t.create s.kind
    addChildren id (t.attach id child) ((child, s) :: stack) rest

/-- Fills nodes with the attributes and children of their snapshots, the node on top of the stack
first, at most `limit` nodes. -/
def fill (t : Tree) : (limit : Nat) → (stack : List (NodeId × Snapshot)) → Tree
  | 0, _ => t
  | _ + 1, [] => t
  | n + 1, (id, s) :: stack =>
    let t := t.modify id fun node => { node with attributes := s.attributes }
    let (t, stack) := t.addChildren id stack s.children
    t.fill n stack

/-- Lays a tree out from a snapshot. -/
def ofSnapshot (s : Snapshot) : Tree := (single s.kind).fill s.size [(0, s)]

end Tree

end VariantFold
