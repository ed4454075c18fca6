/-
Subtrees.

What a walk or a snapshot shows of a node depends on the node and on what is below it, and on nothing
else.  So where a rewrite changes nothing below a node (`SameBelow`), the node looks the same from
outside.

* `WellLinked.snapshot_eq`: the recursive description of snapshots;
* `SameBelow.snapshot_eq`, `SameBelow.descendants_eq`: subtrees that agree look the same;
* `Graft.sameBelow`: a graft leaves alone what is not above the node that goes.
-/
import VariantFold.Literal
import VariantFold.Proofs.Graft
import VariantFold.Proofs.Preorder
import VariantFold.Tree.Snapshot

namespace VariantFold

namespace Tree

variable {t t₁ t₂ t' u : Tree} {b c old x y z : NodeId} {new : List NodeId}

/-! ### Snapshots -/

/-- Depth beyond the end of every path makes no difference. -/
lemma WellLinked.unfold_eq (h : t.WellLinked) {n m : Nat} (hn : t.size ≤ n + (t.ancestors x).length)
    (hm : t.size ≤ m + (t.ancestors x).length) : t.unfold n x = t.unfold m x := by
  -- where no depth is left the node is not in the store and has no children
  have hleaf : t.size ≤ (t.ancestors x).length → t.children x = [] := by
    intro hle
    rcases Nat.lt_or_ge x t.size with hx | hx
    · exact absurd (h.length_ancestors_lt hx) (not_lt.2 hle)
    · rw [children, node_of_le hx]
      rfl
  induction n generalizing m x with
  | zero =>
    rw [Nat.zero_add] at hn
    cases m with
    | zero => rfl
    | succ m => rw [unfold, unfold, hleaf hn, List.map_nil]
  | succ n ih =>
    cases m with
    | zero =>
      rw [Nat.zero_add] at hm
      rw [unfold, unfold, hleaf hm, List.map_nil]
    | succ m =>
      have hparts : (t.children x).map (t.unfold n) = (t.children x).map (t.unfold m) := by
        refine List.map_congr_left fun c hc => ?_
        have hlen : (t.ancestors c).length = (t.ancestors x).length + 1 := by
          rw [h.ancestors_eq (h.parent_of_mem hc), List.length_cons]
        refine ih (by omega) (by omega) fun hle => ?_
        exact absurd (h.length_ancestors_lt (h.child_lt hc)) (not_lt.2 hle)
      rw [unfold, unfold, hparts]

/-- The snapshot of a node is the node with the snapshots of its children. -/
lemma WellLinked.snapshot_eq (h : t.WellLinked) (x : NodeId) :
    t.snapshot x = .node (t.kind x) (t.attributes x) ((t.children x).map t.snapshot) := by
  obtain ⟨n, hn⟩ := Nat.exists_eq_succ_of_ne_zero (Nat.ne_zero_of_lt h.root_lt)
  have hparts : (t.children x).map (t.unfold n) = (t.children x).map t.snapshot := by
    refine List.map_congr_left fun c hc => h.unfold_eq ?_ (by omega)
    rw [h.ancestors_eq (h.parent_of_mem hc), List.length_cons]
    omega
  rw [snapshot, hn, unfold, hparts]

/-! ### Nodes that agree -/

/-- Two trees agree on the kind and the attributes of a node. -/
structure SameLabel (t t' : Tree) (x : NodeId) : Prop where
  kind_eq : t'.kind x = t.kind x
  attributes_eq : t'.attributes x = t.attributes x

namespace SameLabel

lemma refl (t : Tree) (x : NodeId) : t.SameLabel t x := ⟨rfl, rfl⟩

lemma trans (h : t.SameLabel t₁ x) (h' : t₁.SameLabel t₂ x) : t.SameLabel t₂ x :=
  ⟨h'.kind_eq.trans h.kind_eq, h'.attributes_eq.trans h.attributes_eq⟩

lemma str?_eq (h : t.SameLabel t' x) (attr : String) :
    (t'.node x).str? attr = (t.node x).str? attr := by
  have heq : (t'.node x).attributes = (t.node x).attributes := h.attributes_eq
  rw [Node.str?, Node.str?, Node.get?, Node.get?, heq]

lemma line?_eq (h : t.SameLabel t' x) : (t'.node x).line? = (t.node x).line? := by
  rw [Node.line?, Node.line?, Node.get?, Node.get?,
    show (t'.node x).attributes = (t.node x).attributes from h.attributes_eq]

lemma isStringLiteral_eq (h : t.SameLabel t' x) :
    (t'.node x).isStringLiteral = (t.node x).isStringLiteral := by
  have hkind : (t'.node x).kind = (t.node x).kind := h.kind_eq
  rw [Node.isStringLiteral, Node.isStringLiteral, Node.constantType?, Node.constantType?,
    Node.isConstant, Node.isConstant, hkind, h.str?_eq]

lemma literalText_eq (h : t.SameLabel t' x) :
    (t'.node x).literalText = (t.node x).literalText := by
  rw [Node.literalText, Node.literalText, h.str?_eq]

lemma decode?_eq (h : t.SameLabel t' x) : (t'.node x).decode? = (t.node x).decode? :=
  Node.decode?_congr h.kind_eq (h.str?_eq _) (h.str?_eq _) (h.str?_eq _)

end SameLabel

lemma contents_congr (hchildren : t'.children x = t.children x)
    (hsame : ∀ c ∈ t.children x, t.SameLabel t' c) : t'.contents x = t.contents x := by
  rw [contents, contents, hchildren]
  exact List.filter_congr fun c hc => by rw [(hsame c hc).kind_eq]

lemma childOfKind?_congr (hchildren : t'.children x = t.children x)
    (hsame : ∀ c ∈ t.children x, t.SameLabel t' c) (k : Kind) :
    t'.childOfKind? x k = t.childOfKind? x k := by
  rw [childOfKind?, childOfKind?, hchildren]
  rw [← List.head?_filter, ← List.head?_filter,
    List.filter_congr fun c hc => by rw [(hsame c hc).kind_eq]]

lemma Graft.sameLabel (g : t.Graft u old new t') (hx : x < t.size) : t.SameLabel t' x :=
  ⟨g.kind_eq hx, g.attributes_eq hx⟩

/-! ### Subtrees that agree -/

/-- Two trees agree on all nodes at or below a node. -/
def SameBelow (t t' : Tree) (z : NodeId) : Prop :=
  ∀ y, t.AtOrBelow z y → t.SameLabel t' y ∧ t'.children y = t.children y

namespace SameBelow

lemma refl (t : Tree) (z : NodeId) : t.SameBelow t z := fun y _ => ⟨SameLabel.refl t y, rfl⟩

lemma mono (h : t.SameBelow t' z) (hle : t.AtOrBelow z y) : t.SameBelow t' y :=
  fun x hx => h x (hle.trans hx)

lemma child (h : t.SameBelow t' z) (ht : t.WellLinked) (hc : c ∈ t.children z) :
    t.SameBelow t' c :=
  h.mono (ht.below_child hc).atOrBelow

lemma atOrBelow_iff (h : t.SameBelow t' z) (ht : t.WellLinked) (ht' : t'.WellLinked) :
    t'.AtOrBelow z y ↔ t.AtOrBelow z y := by
  constructor
  · intro hy
    induction hy with
    | refl => exact AtOrBelow.refl t z
    | @tail p c _ hc ih =>
      have hmem := ht'.mem_of_parent hc
      rw [(h p ih).2] at hmem
      exact ih.trans (ht.below_child hmem).atOrBelow
  · intro hy
    induction hy with
    | refl => exact AtOrBelow.refl t' z
    | @tail p c hp hc ih =>
      have hmem := ht.mem_of_parent hc
      rw [← (h p hp).2] at hmem
      exact ih.trans (ht'.below_child hmem).atOrBelow

lemma trans (h : t.SameBelow t₁ z) (h' : t₁.SameBelow t₂ z) (ht : t.WellLinked)
    (ht₁ : t₁.WellLinked) : t.SameBelow t₂ z := by
  intro y hy
  obtain ⟨hlabel, hchildren⟩ := h y hy
  obtain ⟨hlabel', hchildren'⟩ := h' y ((h.atOrBelow_iff ht ht₁).2 hy)
  exact ⟨hlabel.trans hlabel', hchildren'.trans hchildren⟩

lemma snapshot_eq (h : t.SameBelow t' z) (ht : t.WellLinked) (ht' : t'.WellLinked) :
    t'.snapshot z = t.snapshot z := by
  induction z using ht.induction_from_leaves with
  | step z ih =>
    obtain ⟨hlabel, hchildren⟩ := h z (AtOrBelow.refl t z)
    rw [ht.snapshot_eq, ht'.snapshot_eq, hlabel.kind_eq, hlabel.attributes_eq, hchildren,
      List.map_congr_left fun c hc => ih c hc (h.child ht hc)]

lemma descendants_eq (h : t.SameBelow t' z) (ht : t.WellLinked) (ht' : t'.WellLinked) :
    t'.descendants z = t.descendants z := by
  induction z using ht.induction_from_leaves with
  | step z ih =>
    obtain ⟨-, hchildren⟩ := h z (AtOrBelow.refl t z)
    rw [ht.descendants_eq, ht'.descendants_eq, hchildren,
      List.flatMap_congr fun c hc => ih c hc (h.child ht hc)]

end SameBelow

/-! ### Changes elsewhere -/

/-- A new node changes nothing below a node if it takes no children from there. -/
lemma CreatedWith.sameBelow {k : Kind} {cs : List NodeId} (hnew : t.CreatedWith k cs u)
    (h : t.WellLinked) (hz : z < t.size) (hcs : ∀ c ∈ cs, ¬ t.Below z c) : t.SameBelow u z := by
  intro y hy
  have hne : y ≠ t.size := Nat.ne_of_lt (hy.lt hz)
  refine ⟨⟨hnew.kind_eq y hne, hnew.attributes_eq y hne⟩, ?_⟩
  rw [hnew.children_eq y hne]
  refine List.filter_eq_self.2 fun d hd => decide_eq_true fun hmem => ?_
  exact hcs d hmem (hy.trans_below (h.below_child hd))

/-- What a new node looks like that is put above nodes without a parent. -/
lemma CreatedWith.snapshot_new {k : Kind} {cs : List NodeId} (hnew : t.CreatedWith k cs u)
    (h : t.WellLinked) (hcs : ∀ c ∈ cs, c < t.size ∧ t.parent? c = none) :
    u.snapshot t.size = .node k KeyMap.empty (cs.map t.snapshot) := by
  rw [hnew.wellLinked.snapshot_eq, hnew.kind_new, hnew.attributes_new, hnew.children_new]
  congr 1
  refine List.map_congr_left fun c hc => ?_
  exact (hnew.sameBelow h (hcs c hc).1 fun d hd =>
    not_below_of_parent_none (hcs d hd).2).snapshot_eq h hnew.wellLinked

/-- A node that goes from one place to another changes nothing where neither place is. -/
lemma WellLinked.sameBelow_attach {p : NodeId} (h : t.WellLinked) (hp : p < t.size)
    (hc : ¬ t.Below z c) (hz : ¬ t.AtOrBelow z p) : t.SameBelow (t.attach p c) z := by
  intro y hy
  have hne : y ≠ p := fun heq => hz (heq ▸ hy)
  have hsame := sameNodes_attach t p c
  refine ⟨⟨hsame.kind_eq y, hsame.attributes_eq y⟩, ?_⟩
  rw [h.children_attach hp, if_neg hne, List.append_nil]
  refine List.filter_eq_self.2 fun d hd => decide_eq_true fun heq => ?_
  exact hc (heq ▸ hy.trans_below (h.below_child hd))

/-- A graft changes nothing below a node that is not above the one that goes, unless the node is cut
out. -/
lemma Graft.sameBelow (g : t.Graft u old new t') (hb : b < t.size) (hnot : ¬ t.Below b old)
    (hatt : t'.AtOrBelow t'.root b) : t.SameBelow t' b := by
  intro y hy
  have hylt := hy.lt hb
  -- a node below `b` is cut out only if `b` is
  have hatty : t'.AtOrBelow t'.root y := by
    obtain ⟨hatt₀, hcase⟩ := g.attached_before hb hatt
    refine (g.attached_iff hylt).2 ⟨hatt₀.trans hy, ?_⟩
    rcases hcase with hnot' | ⟨n, hn, hnb⟩
    · refine Or.inl fun hold => ?_
      rcases hold.total hy with hle | hle
      · exact hnot' hle
      · rcases Tree.atOrBelow_iff.1 hle with heq | hbelow
        · exact hnot' (heq ▸ AtOrBelow.refl t _)
        · exact hnot hbelow
    · exact Or.inr ⟨n, hn, hnb.trans hy⟩
  refine ⟨g.sameLabel hylt, ?_⟩
  rw [g.children_eq hylt hatty]
  refine substitute_of_not_mem fun hold => hnot ?_
  exact hy.trans_below (g.wellLinked_before.below_child hold)

end Tree

end VariantFold
