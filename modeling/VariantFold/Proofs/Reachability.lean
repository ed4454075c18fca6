/-
Up and down the links.

There are two ways to find out what is below a node.  A walk goes down: it follows child links with a stack
of what is still to visit.  A climb goes up: it follows parent links from a node to the node without a
parent.  In a well-linked tree both come to an end by themselves, and they agree.  The walk is the pre-order
that is given by recursion (`Preorder`), and it meets exactly the nodes from which a climb meets its start.

The main result is `descendants_preorder`.
-/
import VariantFold.Proofs.InPlace
import VariantFold.Proofs.Preorder

namespace VariantFold.Tree

variable {t : Tree} {x : NodeId} {out : List NodeId}

/-- The pre-order of a node: the node, and then the pre-orders of its children, one after the other. -/
inductive Preorder (t : Tree) : NodeId → List NodeId → Prop
  | node {x : NodeId} {parts : List (List NodeId)}
      (children : List.Forall₂ (Preorder t) (t.children x) parts) : Preorder t x (x :: parts.flatten)

namespace WellLinked

/-! ### Down -/

/-- A walk yields a pre-order. -/
lemma preorder_descendants (h : t.WellLinked) (x : NodeId) : t.Preorder x (t.descendants x) := by
  induction x using h.induction_from_leaves with
  | step x ih =>
    have hparts : List.Forall₂ t.Preorder (t.children x) ((t.children x).map t.descendants) := by
      rw [List.forall₂_map_right_iff, List.forall₂_same]
      exact ih
    have hnode := Preorder.node hparts
    rwa [← List.flatMap_def, ← h.descendants_eq] at hnode

/-- There is no other pre-order. -/
lemma preorder_iff (h : t.WellLinked) : t.Preorder x out ↔ out = t.descendants x := by
  constructor
  · intro hout
    induction x using h.induction_from_leaves generalizing out with
    | step x ih =>
      cases hout with
      | @node _ parts hparts =>
        have hall : List.Forall₂ (fun c part => part = t.descendants c) (t.children x) parts := by
          refine List.forall₂_iff_zip.2 ⟨hparts.length_eq, fun {c part} hzip => ?_⟩
          exact ih c (List.of_mem_zip hzip).1 ((List.forall₂_iff_zip.1 hparts).2 hzip)
        have hmap : parts = (t.children x).map t.descendants := by
          rw [← List.forall₂_eq_eq_eq, List.forall₂_map_right_iff]
          exact hall.flip
        rw [hmap, ← List.flatMap_def, ← h.descendants_eq]
  · rintro rfl
    exact h.preorder_descendants x

lemma walks_descendants (h : t.WellLinked) (x : NodeId) :
    Walks t.children [x] (t.descendants x) :=
  h.walks_of_walk (fun _ => List.Sublist.refl _) x

/-- A walk is over after as many visits as there are nodes. -/
lemma length_descendants_le (h : t.WellLinked) (x : NodeId) :
    (t.descendants x).length ≤ t.size := by
  by_cases hx : x < t.size
  · refine length_le_size (h.nodup_descendants x) fun y hy => ?_
    exact (h.mem_descendants.1 hy).lt hx
  · -- a name outside the store has no children
    have hnil : t.children x = [] := by
      rw [children, node_of_le (not_lt.1 hx)]
      rfl
    rw [h.descendants_eq, hnil]
    exact Nat.one_le_of_lt h.root_lt

/-! ### Up -/

/-- A climb is over after as many steps as there are nodes. -/
lemma chain_of_le (h : t.WellLinked) (y : NodeId) {limit : Nat} (hlimit : t.size ≤ limit) :
    t.chain limit (t.parent? y) = t.ancestors y := by
  induction limit, hlimit using Nat.le_induction with
  | base => rfl
  | succ n hn ih =>
    have hlt : (t.chain n (t.parent? y)).length < n := by
      by_cases hy : y < t.size
      · exact (h.length_chain_lt hy n).trans_le hn
      · -- a name outside the store has no parent
        have hnone : t.parent? y = none := by
          rw [parent?, node_of_le (not_lt.1 hy)]
          rfl
        obtain ⟨m, rfl⟩ := Nat.exists_eq_succ_of_ne_zero (Nat.ne_zero_of_lt (h.root_lt.trans_le hn))
        rw [hnone]
        exact Nat.succ_pos m
    rw [chain_stable hlt, ih]

end WellLinked

/-- What is below a node, found from above and from below.  A walk down from a node ends by itself, after no
more visits than there are nodes; what it visits is the pre-order of the node, the only one that there is; it
visits nothing twice, and it visits a node exactly if a climb from there, which ends by itself as well, meets
the start.  So the nodes from which parent links lead to the root are those that the walk from the root
visits. -/
theorem descendants_preorder (h : t.WellLinked) (x : NodeId) :
    (Walks t.children [x] (t.descendants x) ∧
      ∀ limit, t.size ≤ limit → walk t.children limit [x] = t.descendants x) ∧
    (∀ out, t.Preorder x out ↔ out = t.descendants x) ∧
    (t.descendants x).Nodup ∧
    (∀ y, y ∈ t.descendants x ↔ t.isAncestorOrSelf x y = true) ∧
    (∀ y limit, t.size ≤ limit → t.ancestorsOrSelf y = y :: t.chain limit (t.parent? y)) ∧
    ∀ y, t.isAttached y = true ↔ y ∈ t.descendants t.root := by
  refine ⟨⟨h.walks_descendants x, fun limit hlimit => ?_⟩, fun out => h.preorder_iff,
    h.nodup_descendants x, fun y => ?_, fun y limit hlimit => ?_, fun y => ?_⟩
  · exact (h.walks_descendants x).walk_eq ((h.length_descendants_le x).trans hlimit)
  · rw [h.mem_descendants, h.isAncestorOrSelf_iff]
  · rw [ancestorsOrSelf, h.chain_of_le y hlimit]
  · rw [h.isAttached_iff, h.mem_descendants]

/-- A block has been cut out, with the block in it. -/
theorem descendants_preorder_cutOut :
    (nestedBlocks.detached 2).WellLinked ∧
    (nestedBlocks.detached 2).Preorder 2 [2, 4, 5] ∧
    (5 ∈ (nestedBlocks.detached 2).descendants 2 ↔
      (nestedBlocks.detached 2).isAncestorOrSelf 2 5 = true) ∧
    (nestedBlocks.detached 2).isAttached 3 = true ∧
    (nestedBlocks.detached 2).isAttached 5 = false := by
  have h : (nestedBlocks.detached 2).WellLinked := by decide
  obtain ⟨-, hpreorder, -, hmem, -, hattached⟩ := descendants_preorder h 2
  refine ⟨h, (hpreorder _).2 (by decide), hmem 5, (hattached 3).2 (by decide), ?_⟩
  rw [← Bool.not_eq_true, hattached 5]
  decide

end VariantFold.Tree
