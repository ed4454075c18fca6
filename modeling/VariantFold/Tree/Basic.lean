/-
Syntax trees.

A tree is a store of nodes together with the name of its root.  Every node knows its children and its
parent.  A node that has been cut out of the tree stays in the store, so names never go stale; whether
it still belongs to the tree is a question of where its parent links lead.
-/
import VariantFold.Tree.Node

namespace VariantFold

/-- A store of nodes with a root. -/
structure Tree where
  /-- All nodes, those that were cut out included. -/
  nodes : Store Node
  /-- The name of the root. -/
  root : NodeId

namespace Tree

/-- The tree of a single node. -/
def single (kind : Kind) : Tree := ⟨(Store.empty.alloc { kind := kind }).2, 0⟩

instance : Inhabited Tree := ⟨single .file⟩

/-- The number of nodes, those that were cut out included. -/
def size (t : Tree) : Nat := t.nodes.size

/-- The node of a name; a name outside the tree reads as an empty block. -/
def node (t : Tree) (id : NodeId) : Node := (t.nodes.get? id).getD default

/-- The kind of a node. -/
def kind (t : Tree) (id : NodeId) : Kind := (t.node id).kind

/-- The attributes of a node. -/
def attributes (t : Tree) (id : NodeId) : Attributes := (t.node id).attributes

/-- The children of a node, in order. -/
def children (t : Tree) (id : NodeId) : List NodeId := (t.node id).children

/-- The parent of a node. -/
def parent? (t : Tree) (id : NodeId) : Option NodeId := (t.node id).parent

/-- Changes a node in place. -/
def modify (t : Tree) (id : NodeId) (f : Node → Node) : Tree :=
  { t with nodes := t.nodes.modify id f }

/-- Adds a node without attributes, children or parent. -/
def create (t : Tree) (kind : Kind) : NodeId × Tree :=
  let (id, nodes) := t.nodes.alloc { kind := kind }
  (id, { t with nodes := nodes })

/-- Gives an attribute of a node a value. -/
def set (t : Tree) (id : NodeId) (name : String) (value : Scalar) : Tree :=
  t.modify id fun n => n.set name value

/-- The children of a node that are not comments. -/
def contents (t : Tree) (id : NodeId) : List NodeId :=
  (t.children id).filter fun c => !(t.kind c).isComment

/-- The first child of a kind. -/
def childOfKind? (t : Tree) (id : NodeId) (kind : Kind) : Option NodeId :=
  (t.children id).find? fun c => t.kind c = kind

/-! ### What the operations do to a node -/

@[simp] theorem size_modify (t : Tree) (id : NodeId) (f : Node → Node) :
    (t.modify id f).size = t.size := by
  simp [modify, size]

@[simp] theorem root_modify (t : Tree) (id : NodeId) (f : Node → Node) :
    (t.modify id f).root = t.root := rfl

theorem node_modify (t : Tree) (id i : NodeId) (f : Node → Node) :
    (t.modify id f).node i = if id = i ∧ i < t.size then f (t.node i) else t.node i := by
  simp only [modify, node, Store.get?_modify, size]
  by_cases h : id = i
  · by_cases hi : i < t.nodes.size
    · have hi' : i < t.nodes.items.size := hi
      simp [h, hi, Store.get?, hi']
    · have hi' : ¬ i < t.nodes.items.size := hi
      simp [hi, Store.get?, hi']
  · simp [h]

@[simp] theorem size_create (t : Tree) (kind : Kind) : (t.create kind).2.size = t.size + 1 := by
  simp [create, size]

@[simp] theorem root_create (t : Tree) (kind : Kind) : (t.create kind).2.root = t.root := rfl

@[simp] theorem create_fst (t : Tree) (kind : Kind) : (t.create kind).1 = t.size := rfl

theorem node_create (t : Tree) (kind : Kind) (i : NodeId) :
    (t.create kind).2.node i = if i = t.size then { kind := kind } else t.node i := by
  simp only [create, node, Store.get?_alloc, size]
  by_cases h : i = t.nodes.size <;> simp [h]

end Tree

end VariantFold
