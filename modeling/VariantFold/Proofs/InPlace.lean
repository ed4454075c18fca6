/-
What takes the place of a node.

`replaceWith_effect` says what becomes of the links when nodes take the place of a node: they stand where
it stood, in order, whether they came from elsewhere in the tree, from among its siblings or from below
it, and nothing else changes.

The second part is about a single new node without links, such as a literal.  `TakesPlace t x c t'` says
that `c` stands in `t'` where `x` stood in `t`.  What was below `x` is left out of account, so that two such
changes make one if the second is further up (`TakesPlace.trans`): the tree around the outer place is what
it was.
-/
import VariantFold.Proofs.NewNodes
import VariantFold.Proofs.Subtrees

namespace VariantFold.Tree

variable {t t' t₁ t₂ u : Tree} {a b c d old p x y : NodeId} {new : List NodeId}

/-! ### Several nodes -/

/-- A node, put together. -/
lemma node_eq_mk {k : Kind} {as : Attributes} {o : Option NodeId} (hkind : t.kind x = k)
    (hattributes : t.attributes x = as) (hchildren : t.children x = new) (hparent : t.parent? x = o) :
    t.node x = ⟨k, as, new, o⟩ := by
  subst hkind hattributes hchildren hparent
  rfl

lemma WellLinked.ne_root_of_parent (h : t.WellLinked) (hx : t.parent? x = some p) : x ≠ t.root := by
  rintro rfl
  rw [h.root_parent] at hx
  exact absurd hx (by simp)

lemma place_of_parent (h : t.WellLinked) (hold : t.parent? old = some p) :
    t.place old new = some p := by
  rw [place, if_neg fun hc => h.ne_root_of_parent hold hc.1, hold]

lemma place_of_length (hlen : new.length = 1) : t.place old new = t.parent? old := by
  rw [place, if_neg fun hc => hc.2 hlen]

namespace Replaced

variable (r : t.Replaced old new t')
include r

lemma parent_new (hx : x ∈ new) : t'.parent? x = t.place old new := by
  rw [r.parent_eq, if_pos hx]

/-- Where there is no block for the root, no node is added. -/
lemma size_of_ne (hold : old = t.root → new.length = 1) : t'.size = t.size := by
  rw [r.size_eq, if_neg fun hc => hc.2 (hold hc.1)]

/-- Among the children of the parent the nodes stand where the old one stood. -/
lemma children_parent (h : t.WellLinked) (hnot : old ∉ new) (hold : t.parent? old = some p) :
    ∃ before after, (t.children p).filter (· ∉ new) = before ++ old :: after ∧
      t'.children p = before ++ new ++ after := by
  have hmem : old ∈ (t.children p).filter (· ∉ new) :=
    List.mem_filter.2 ⟨h.mem_of_parent hold, decide_eq_true hnot⟩
  obtain ⟨before, after, hrow⟩ := List.append_of_mem hmem
  have hnd := (h.nodup_children p).filter (· ∉ new)
  refine ⟨before, after, hrow, ?_⟩
  rw [r.children_eq p (h.parent_lt hold)]
  rw [hrow] at hnd ⊢
  exact substitute_append_cons hnd

/-- All other lists of children lose the nodes that move, and no more. -/
lemma children_other (h : t.WellLinked) (hx : x < t.size) (hold : t.parent? old ≠ some x) :
    t'.children x = (t.children x).filter (· ∉ new) := by
  rw [r.children_eq x hx]
  refine substitute_of_not_mem fun hmem => hold ?_
  exact h.parent_of_mem (List.mem_of_mem_filter hmem)

end Replaced

/-- Take nodes of a well-linked tree that differ from each other, none of which is the root, the node
`old` or above it.  They take the place of `old`: among the children of its parent, if it has one; as the
root, if it is the root and there is one of them; as the children of a new block that becomes the root, if
there are more or none.  If `old` is neither a child nor the root, they are only taken away from their
parents.  In all cases `old` is without a parent afterwards, every other list of children loses the nodes
that moved and no more, and no other link, kind or attribute changes. -/
theorem replaceWith_effect (h : t.WellLinked) (hnd : new.Nodup) (hlt : ∀ n ∈ new, n < t.size)
    (hroot : t.root ∉ new) (habove : ∀ n ∈ new, ¬ t.AtOrBelow n old) :
    ∃ t', t.replaceWith old new = .ok t' ∧
      (∀ p, t.parent? old = some p → t'.root = t.root ∧ t'.size = t.size ∧
        (∀ n ∈ new, t'.parent? n = some p) ∧
        ∃ before after, (t.children p).filter (· ∉ new) = before ++ old :: after ∧
          t'.children p = before ++ new ++ after) ∧
      (∀ n, old = t.root → new = [n] →
        t'.root = n ∧ t'.size = t.size ∧ t'.parent? n = none) ∧
      (old = t.root → new.length ≠ 1 → t'.root = t.size ∧ t'.size = t.size + 1 ∧
        t'.node t.size = { kind := .block, children := new } ∧
        ∀ n ∈ new, t'.parent? n = some t.size) ∧
      (t.parent? old = none → old ≠ t.root → t'.root = t.root ∧ t'.size = t.size ∧
        ∀ n ∈ new, t'.parent? n = none) ∧
      t'.parent? old = none ∧
      (∀ x < t.size, t.parent? old ≠ some x → t'.children x = (t.children x).filter (· ∉ new)) ∧
      (∀ x < t.size, x ∉ new → x ≠ old → t'.parent? x = t.parent? x) ∧
      ∀ x < t.size, t'.kind x = t.kind x ∧ t'.attributes x = t.attributes x := by
  have hr : t.Replaceable old new := ⟨hnd, hlt, fun n hn heq => hroot (heq ▸ hn), habove⟩
  obtain ⟨t', hok, r⟩ := h.replaceWith_ok hr
  refine ⟨t', hok, ?_, ?_, ?_, ?_, ?_, ?_, ?_, ?_⟩
  · intro p hp
    have hne := h.ne_root_of_parent hp
    refine ⟨r.root_eq.trans (newRoot_of_ne hne), r.size_of_ne fun heq => absurd heq hne, ?_,
      r.children_parent h hr.ne_old hp⟩
    intro n hn
    rw [r.parent_new hn, place_of_parent h hp]
  · rintro n rfl rfl
    refine ⟨r.root_eq.trans (newRoot_single n), r.size_of_ne fun _ => rfl, ?_⟩
    rw [r.parent_new (List.mem_singleton_self n), place_of_length rfl, h.root_parent]
  · rintro rfl hlen
    have hplace : t.place t.root new = some t.size := if_pos ⟨rfl, hlen⟩
    obtain ⟨hkind, hattributes, hchildren⟩ := r.block rfl hlen
    have hnew : t.size ∉ new := fun hmem => absurd (hlt _ hmem) (lt_irrefl _)
    have hparent : t'.parent? t.size = none := by
      rw [r.parent_eq, if_neg hnew, if_neg h.root_lt.ne', parent?, node_of_le le_rfl]
      rfl
    refine ⟨r.root_eq.trans (newRoot_block hlen), ?_, ?_, fun n hn => (r.parent_new hn).trans hplace⟩
    · rw [r.size_eq, if_pos ⟨rfl, hlen⟩]
    · exact node_eq_mk hkind hattributes hchildren hparent
  · intro hp hne
    refine ⟨r.root_eq.trans (newRoot_of_ne hne), r.size_of_ne fun heq => absurd heq hne, ?_⟩
    intro n hn
    rw [r.parent_new hn, place, if_neg fun hc => hne hc.1, hp]
  · rw [r.parent_eq, if_neg hr.ne_old, if_pos rfl]
  · intro x hx hp
    exact r.children_other h hx hp
  · intro x _ hnew hne
    rw [r.parent_eq, if_neg hnew, if_neg hne]
  · intro x hx
    exact ⟨r.kind_eq x hx, r.attributes_eq x hx⟩

/-- A file with three children, the second of which holds a block in a block. -/
def nestedBlocks : Tree where
  root := 0
  nodes := ⟨#[
    { kind := .file, children := [1, 2, 3] },
    { kind := .emptyStatement, parent := some 0 },
    { kind := .block, children := [4], parent := some 0 },
    { kind := .emptyStatement, parent := some 0 },
    { kind := .block, children := [5], parent := some 2 },
    { kind := .block, parent := some 4 }]⟩

/-- A child of the node that goes, a sibling before it and a child of the first of them. -/
theorem replaceWith_effect_nestedBlocks :
    nestedBlocks.WellLinked ∧ [4, 1, 5].Nodup ∧ nestedBlocks.root ∉ [4, 1, 5] ∧
    (∀ n ∈ [4, 1, 5], nestedBlocks.isAncestorOrSelf n 2 = false) ∧
    ∃ t', nestedBlocks.replaceWith 2 [4, 1, 5] = .ok t' ∧ t'.children 0 = [4, 1, 5, 3] ∧
      t'.children 2 = [] ∧ t'.children 4 = [] ∧ t'.parent? 2 = none ∧
      ∀ n ∈ [4, 1, 5], t'.parent? n = some 0 := by
  have h : nestedBlocks.WellLinked := by decide
  have hnot : ∀ n ∈ [4, 1, 5], nestedBlocks.isAncestorOrSelf n 2 = false := by decide
  have habove : ∀ n ∈ [4, 1, 5], ¬ nestedBlocks.AtOrBelow n 2 :=
    fun n hn hle => absurd (h.isAncestorOrSelf_iff.2 hle) (by simp [hnot n hn])
  obtain ⟨t', hok, hchild, -, -, -, hnone, hothers, -, -⟩ :=
    replaceWith_effect h (by decide) (by decide) (by decide) habove
  obtain ⟨-, -, hparents, before, after, hrow, hchildren⟩ := hchild 0 rfl
  refine ⟨h, by decide, by decide, hnot, t', hok, ?_, hothers 2 (by decide) (by decide),
    hothers 4 (by decide) (by decide), hnone, hparents⟩
  -- of the children of the file only the old node and the one after it do not move
  have hsplit : [] ++ 2 :: [3] = before ++ 2 :: after := hrow
  obtain ⟨rfl, -, rfl⟩ := (List.append_cons_inj_of_notMem (by decide) (by decide)).1 hsplit
  exact hchildren

/-! ### A single new node -/

/-- In `t'` the new node `c` stands where `x` stood in `t`.  Outside the part below `x` nothing else has
changed. -/
structure TakesPlace (t : Tree) (x c : NodeId) (t' : Tree) : Prop where
  wellLinked_before : t.WellLinked
  wellLinked : t'.WellLinked
  le : t.size ≤ c
  lt : c < t'.size
  root_eq : t'.root = if x = t.root then c else t.root
  label : ∀ y < t.size, t.SameLabel t' y
  parent_new : t'.parent? c = t.parent? x
  parent_old : t'.parent? x = none
  parent_eq : ∀ y < t.size, ¬ t.AtOrBelow x y → t'.parent? y = t.parent? y
  children_eq : ∀ y < t.size, ¬ t.AtOrBelow x y → t'.children y = substitute x [c] (t.children y)

namespace NewLeaf

variable {k : Kind} {as : Attributes}

/-- A new node without links can take the place of any node. -/
lemma replaceable (leaf : t.NewLeaf k as c u) (h : t.WellLinked) (hx : x < t.size) :
    u.Replaceable x [c] := by
  refine leaf.grown.replaceable h hx (fun n hn => Or.inl ?_) (List.nodup_singleton c)
  rw [List.mem_singleton.1 hn]
  exact ⟨leaf.le, leaf.lt, leaf.parent_new⟩

/-- Only the links of the node that goes and of its parent change. -/
lemma takesPlace (leaf : t.NewLeaf k as c u) (h : t.WellLinked) (hx : x < t.size) :
    ∃ t', u.replaceWith x [c] = .ok t' ∧ t.TakesPlace x c t' ∧ t'.size = t.size + 1 ∧
      t'.kind c = k ∧ t'.attributes c = as := by
  obtain ⟨t', hok, r⟩ := leaf.grown.wellLinked.replaceWith_ok (leaf.replaceable h hx)
  have hsize : t'.size = t.size + 1 := (r.size_of_ne fun _ => rfl).trans leaf.size_eq
  have hroot := leaf.grown.root_eq
  have hlt : ∀ y < t.size, y < u.size := fun y hy => hy.trans_le leaf.grown.size_le
  have hnew : ∀ y < t.size, y ∉ [c] := by
    intro y hy hmem
    exact absurd hy (not_lt.2 (List.mem_singleton.1 hmem ▸ leaf.le))
  refine ⟨t', hok, ⟨h, r.wellLinked, leaf.le, ?_, ?_, ?_, ?_, ?_, ?_, ?_⟩, hsize,
    (r.kind_eq c leaf.lt).trans leaf.kind_new, (r.attributes_eq c leaf.lt).trans leaf.attributes_new⟩
  · rw [hsize, leaf.eq_size]
    exact Nat.lt_succ_self _
  · rw [r.root_eq, newRoot, hroot]
  · intro y hy
    exact ⟨(r.kind_eq y (hlt y hy)).trans (leaf.grown.kind_eq hy),
      (r.attributes_eq y (hlt y hy)).trans (leaf.grown.attributes_eq hy)⟩
  · rw [r.parent_new (List.mem_singleton_self c), place_of_length rfl, leaf.grown.parent_eq hx]
  · rw [r.parent_eq, if_neg (hnew x hx), if_pos rfl]
  · intro y hy hnot
    have hne : y ≠ x := fun heq => hnot (heq ▸ AtOrBelow.refl t y)
    rw [r.parent_eq, if_neg (hnew y hy), if_neg hne, leaf.grown.parent_eq hy]
  · intro y hy _
    have hkeep : (t.children y).filter (· ∉ [c]) = t.children y :=
      List.filter_eq_self.2 fun z hz => decide_eq_true (hnew z (h.child_lt hz))
    rw [r.children_eq y (hlt y hy), leaf.grown.children_eq hy, hkeep]

end NewLeaf

namespace TakesPlace

variable (s : t.TakesPlace x c t')
include s

lemma size_le : t.size ≤ t'.size := s.le.trans s.lt.le

/-- Outside the part below the node that goes nothing is above or below anything else than before. -/
lemma atOrBelow_outside (hy : y < t.size) (hnot : ¬ t.AtOrBelow x y) :
    t'.AtOrBelow a y ↔ t.AtOrBelow a y := by
  refine s.wellLinked_before.atOrBelow_congr fun b hb => ?_
  exact s.parent_eq b (s.wellLinked_before.atOrBelow_lt hb hy) fun hxb => hnot (hxb.trans hb)

/-- A node keeps its children unless it is the parent of the node that goes. -/
lemma children_kept (hy : y < t.size) (hnot : ¬ t.AtOrBelow x y) (hp : t.parent? x ≠ some y) :
    t'.children y = t.children y := by
  rw [s.children_eq y hy hnot]
  exact substitute_of_not_mem fun hmem => hp (s.wellLinked_before.parent_of_mem hmem)

/-- The new node has the ancestors of the one that goes. -/
lemma ancestors_eq : t'.ancestors c = t.ancestors x := by
  have h := s.wellLinked_before
  rcases hp : t.parent? x with _ | p
  · rw [ancestors_of_parent_none hp, ancestors_of_parent_none (s.parent_new.trans hp)]
  · have hnot : ¬ t.AtOrBelow x p := h.not_atOrBelow_of_below (below_of_parent hp)
    rw [h.ancestors_eq hp, s.wellLinked.ancestors_eq (s.parent_new.trans hp)]
    congr 1
    refine h.ancestors_congr s.wellLinked fun b hb => ?_
    exact s.parent_eq b (h.atOrBelow_lt hb (h.parent_lt hp)) fun hxb => hnot (hxb.trans hb)

/-- What was above the node that goes is above the new one. -/
lemma below_new : t'.Below a c ↔ t.Below a x := by
  rw [← s.wellLinked.mem_ancestors_iff, ← s.wellLinked_before.mem_ancestors_iff, s.ancestors_eq]

/-- Nothing changes below a node that is neither above the place nor below it. -/
lemma sameBelow (hb : b < t.size) (hbx : ¬ t.AtOrBelow b x) (hxb : ¬ t.AtOrBelow x b) :
    t.SameBelow t' b := by
  have h := s.wellLinked_before
  intro y hy
  refine ⟨s.label y (hy.lt hb), s.children_kept (hy.lt hb) (fun hxy => ?_) fun hp => ?_⟩
  · rcases hxy.total hy with hle | hle
    · exact hxb hle
    · exact hbx hle
  · exact hbx (hy.trans (below_of_parent hp).atOrBelow)

/-- Two changes, the second further up. -/
lemma trans (s' : t'.TakesPlace y d t₂) (hyx : t.Below y x) : t.TakesPlace y d t₂ := by
  have h := s.wellLinked_before
  obtain ⟨p, hp, hyp⟩ := below_iff.1 hyx
  have hlt : y < t.size := h.atOrBelow_lt hyp (h.parent_lt hp)
  have hroot : t'.root = t.root := by rw [s.root_eq, if_neg (h.ne_root_of_parent hp)]
  have hxy : ¬ t.AtOrBelow x y := h.not_atOrBelow_of_below hyx
  -- what is outside the outer place is outside the inner one
  have hout : ∀ z, ¬ t.AtOrBelow y z → ¬ t.AtOrBelow x z :=
    fun z hnot hxz => hnot (hyx.atOrBelow.trans hxz)
  have hout' : ∀ z < t.size, ¬ t.AtOrBelow y z → ¬ t'.AtOrBelow y z := by
    intro z hz hnot
    rwa [s.atOrBelow_outside hz (hout z hnot)]
  have hle : ∀ z < t.size, z < t'.size := fun z hz => hz.trans_le s.size_le
  refine ⟨h, s'.wellLinked, s.size_le.trans s'.le, s'.lt, ?_, ?_, ?_, s'.parent_old, ?_, ?_⟩
  · rw [s'.root_eq, hroot]
  · intro z hz
    exact (s.label z hz).trans (s'.label z (hle z hz))
  · rw [s'.parent_new, s.parent_eq y hlt hxy]
  · intro z hz hnot
    rw [s'.parent_eq z (hle z hz) (hout' z hz hnot), s.parent_eq z hz (hout z hnot)]
  · intro z hz hnot
    have hnp : t.parent? x ≠ some z := fun hpz =>
      hnot (Option.some_injective _ (hp.symm.trans hpz) ▸ hyp)
    rw [s'.children_eq z (hle z hz) (hout' z hz hnot), s.children_kept hz (hout z hnot) hnp]

end TakesPlace

end VariantFold.Tree
