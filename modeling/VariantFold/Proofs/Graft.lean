/-
Grafts: what a rewrite does to the part of a tree that belongs to it.

A rewrite first adds nodes, which are not linked with the others yet (`Grown`), and then puts nodes in
the place of a node that belongs to the tree.  Those that come in are new, or were below the one that
goes (`Graft`).  Of the nodes that there were before, those that still belong to the tree afterwards

* belonged to it before, and were not below the node that went or are below one that came
  (`Graft.attached_iff`);
* are above one another exactly if they were before (`Graft.atOrBelow_iff`);
* have the children they had, but for the node that went (`Graft.children_eq`).
-/
import VariantFold.Proofs.Replace

namespace VariantFold.Tree

variable {t u t' : Tree} {a b c d n m p q x y old : NodeId} {new l : List NodeId}

/-! ### Adding nodes -/

/-- The tree `u` is `t` with some more nodes, which are not linked with those of `t`. -/
structure Grown (t u : Tree) : Prop where
  wellLinked : u.WellLinked
  size_le : t.size ≤ u.size
  root_eq : u.root = t.root
  node_eq : ∀ x, x < t.size → u.node x = t.node x

namespace Grown

lemma refl (h : t.WellLinked) : t.Grown t := ⟨h, le_rfl, rfl, fun _ _ => rfl⟩

lemma trans {t₁ t₂ t₃ : Tree} (h : t₁.Grown t₂) (h' : t₂.Grown t₃) : t₁.Grown t₃ :=
  ⟨h'.wellLinked, h.size_le.trans h'.size_le, h'.root_eq.trans h.root_eq,
    fun x hx => (h'.node_eq x (hx.trans_le h.size_le)).trans (h.node_eq x hx)⟩

lemma kind_eq (h : t.Grown u) (hx : x < t.size) : u.kind x = t.kind x := by
  rw [kind, kind, h.node_eq x hx]

lemma attributes_eq (h : t.Grown u) (hx : x < t.size) : u.attributes x = t.attributes x := by
  rw [attributes, attributes, h.node_eq x hx]

lemma children_eq (h : t.Grown u) (hx : x < t.size) : u.children x = t.children x := by
  rw [children, children, h.node_eq x hx]

lemma parent_eq (h : t.Grown u) (hx : x < t.size) : u.parent? x = t.parent? x := by
  rw [parent?, parent?, h.node_eq x hx]

/-- The parent of a new node is new. -/
lemma le_parent (h : t.Grown u) (ht : t.WellLinked) (hx : t.size ≤ x) (hp : u.parent? x = some p) :
    t.size ≤ p := by
  by_contra hlt
  have hmem := h.wellLinked.mem_of_parent hp
  rw [h.children_eq (not_le.1 hlt)] at hmem
  exact absurd (ht.child_lt hmem) (not_lt.2 hx)

/-- The children of a new node are new. -/
lemma le_child (h : t.Grown u) (ht : t.WellLinked) (hp : t.size ≤ p) (hc : c ∈ u.children p) :
    t.size ≤ c := by
  by_contra hlt
  have hparent := h.wellLinked.parent_of_mem hc
  rw [h.parent_eq (not_le.1 hlt)] at hparent
  exact absurd (ht.parent_lt hparent) (not_lt.2 hp)

lemma atOrBelow_iff (h : t.Grown u) (ht : t.WellLinked) (hx : x < t.size) :
    u.AtOrBelow a x ↔ t.AtOrBelow a x :=
  ht.atOrBelow_congr fun _ hb => h.parent_eq (ht.atOrBelow_lt hb hx)

lemma create (h : t.Grown u) (k : Kind) : t.Grown (u.create k).2 where
  wellLinked := (h.wellLinked.create k).1
  size_le := by
    rw [size_create]
    exact Nat.le_succ_of_le h.size_le
  root_eq := h.root_eq
  node_eq x hx := by
    have hne : x ≠ u.size := fun heq => absurd (hx.trans_le h.size_le) (heq ▸ lt_irrefl _)
    rw [node_create, if_neg hne, h.node_eq x hx]

/-- Attributes of new nodes can be set. -/
lemma set (h : t.Grown u) (hx : t.size ≤ x) (name : String) (value : Scalar) :
    t.Grown (u.set x name value) where
  wellLinked := h.wellLinked.set x name value
  size_le := by
    rw [size_set]
    exact h.size_le
  root_eq := h.root_eq
  node_eq y hy := by
    have hne : ¬ (x = y ∧ y < u.size) := fun hc => absurd hy (not_lt.2 (hc.1 ▸ hx))
    rw [Tree.set, node_modify, if_neg hne, h.node_eq y hy]

/-- New nodes can be put below another new node. -/
lemma createWith {cs : List NodeId} (h : t.Grown u) (ht : t.WellLinked) (k : Kind)
    (hcs : ∀ c ∈ cs, t.size ≤ c ∧ c < u.size) (hnd : cs.Nodup) :
    t.Grown (u.createWith k cs).2 := by
  have hroot : ∀ c ∈ cs, c ≠ u.root := fun c hc heq =>
    absurd ht.root_lt (not_lt.2 (h.root_eq ▸ heq ▸ (hcs c hc).1))
  obtain ⟨-, hnew⟩ := h.wellLinked.createWith k (fun c hc => ⟨(hcs c hc).2, hroot c hc⟩) hnd
  refine ⟨hnew.wellLinked, ?_, hnew.root_eq.trans h.root_eq, fun x hx => ?_⟩
  · rw [hnew.size_eq]
    exact Nat.le_succ_of_le h.size_le
  · have hne : x ≠ u.size := fun heq => absurd (hx.trans_le h.size_le) (heq ▸ lt_irrefl _)
    have hnot : x ∉ cs := fun hmem => absurd hx (not_lt.2 (hcs x hmem).1)
    have hchildren : (u.createWith k cs).2.children x = u.children x := by
      rw [hnew.children_eq x hne, h.children_eq hx]
      refine List.filter_eq_self.2 fun y hy => decide_eq_true fun hmem => ?_
      exact absurd (ht.child_lt hy) (not_lt.2 (hcs y hmem).1)
    rw [← h.node_eq x hx]
    refine node_ext (hnew.kind_eq x hne) (hnew.attributes_eq x hne) hchildren ?_
    rw [hnew.parent_eq, if_neg hnot]

end Grown

/-! ### Grafts -/

/-- In `t'` the nodes `new` have taken the place that `old` had in `t`.  They are nodes that `u` has
more than `t`, or nodes that were below `old`, and none of them is below another. -/
structure Graft (t u : Tree) (old : NodeId) (new : List NodeId) (t' : Tree) : Prop where
  wellLinked_before : t.WellLinked
  grown : t.Grown u
  replaced : u.Replaced old new t'
  attached_old : t.AtOrBelow t.root old
  source : ∀ n ∈ new, (t.size ≤ n ∧ n < u.size ∧ u.parent? n = none) ∨ t.Below old n
  antichain : ∀ m ∈ new, ∀ n ∈ new, ¬ t.Below m n

/-- New nodes without a parent and nodes from below `old` can take its place. -/
lemma Grown.replaceable (h : t.Grown u) (ht : t.WellLinked) (hold : old < t.size)
    (hsource : ∀ n ∈ new, (t.size ≤ n ∧ n < u.size ∧ u.parent? n = none) ∨ t.Below old n)
    (hnd : new.Nodup) : u.Replaceable old new := by
  refine ⟨hnd, fun n hn => ?_, fun n hn => ?_, fun n hn hle => ?_⟩
  · rcases hsource n hn with ⟨-, hlt, -⟩ | hbelow
    · exact hlt
    · exact (hbelow.atOrBelow.lt hold).trans_le h.size_le
  · rintro rfl
    rcases hsource _ hn with ⟨hle, -, -⟩ | hbelow
    · exact absurd ht.root_lt (not_lt.2 (h.root_eq ▸ hle))
    · rw [h.root_eq] at hbelow
      exact not_below_of_parent_none ht.root_parent hbelow
  · rw [h.atOrBelow_iff ht hold] at hle
    rcases hsource n hn with ⟨hlen, -, -⟩ | hbelow
    · exact absurd (ht.atOrBelow_lt hle hold) (not_lt.2 hlen)
    · exact ht.not_atOrBelow_of_below hbelow hle

/-- The conditions under which nodes can be grafted. -/
lemma Grown.graft (h : t.Grown u) (ht : t.WellLinked) (hatt : t.AtOrBelow t.root old)
    (hsource : ∀ n ∈ new, (t.size ≤ n ∧ n < u.size ∧ u.parent? n = none) ∨ t.Below old n)
    (hanti : ∀ m ∈ new, ∀ n ∈ new, ¬ t.Below m n) (hnd : new.Nodup) :
    ∃ t', u.replaceWith old new = .ok t' ∧ t.Graft u old new t' := by
  obtain ⟨t', hok, hrep⟩ :=
    h.wellLinked.replaceWith_ok (h.replaceable ht (hatt.lt ht.root_lt) hsource hnd)
  exact ⟨t', hok, ht, h, hrep, hatt, hsource, hanti⟩

lemma Grown.graft_single (h : t.Grown u) (ht : t.WellLinked) (hatt : t.AtOrBelow t.root old)
    (hn : (t.size ≤ n ∧ n < u.size ∧ u.parent? n = none) ∨ t.Below old n) :
    ∃ t', u.replaceWith old [n] = .ok t' ∧ t.Graft u old [n] t' := by
  refine h.graft ht hatt (List.forall_mem_singleton.2 hn) ?_ (List.nodup_singleton n)
  exact List.forall_mem_singleton.2 (List.forall_mem_singleton.2 ht.not_below_self)

namespace Graft

variable (g : t.Graft u old new t')

include g

lemma wellLinked : t'.WellLinked := g.replaced.wellLinked

lemma old_lt : old < t.size := g.attached_old.lt g.wellLinked_before.root_lt

lemma size_le : t.size ≤ t'.size := by
  have hle := g.grown.size_le
  rw [g.replaced.size_eq]
  split <;> omega

lemma kind_eq (hx : x < t.size) : t'.kind x = t.kind x := by
  rw [g.replaced.kind_eq x (hx.trans_le g.grown.size_le), g.grown.kind_eq hx]

lemma attributes_eq (hx : x < t.size) : t'.attributes x = t.attributes x := by
  rw [g.replaced.attributes_eq x (hx.trans_le g.grown.size_le), g.grown.attributes_eq hx]

/-- A node that comes in and is not new was below the one that goes. -/
lemma below_old (hn : n ∈ new) (hlt : n < t.size) : t.Below old n := by
  rcases g.source n hn with ⟨hle, -, -⟩ | hbelow
  · exact absurd hlt (not_lt.2 hle)
  · exact hbelow

lemma old_not_mem : old ∉ new := fun hmem =>
  g.wellLinked_before.not_below_self (g.below_old hmem g.old_lt)

/-- A node that neither goes nor comes in keeps its parent. -/
lemma parent_eq (hx : x < t.size) (hnew : x ∉ new) (hold : x ≠ old) :
    t'.parent? x = t.parent? x := by
  rw [g.replaced.parent_eq, if_neg hnew, if_neg hold, g.grown.parent_eq hx]

lemma parent_old : t'.parent? old = none := by
  rw [g.replaced.parent_eq, if_neg g.old_not_mem, if_pos rfl]

/-- The node that goes no longer belongs to the tree. -/
lemma not_attached_old : ¬ t'.AtOrBelow t'.root old := by
  rw [atOrBelow_of_parent_none g.parent_old, g.replaced.root_eq]
  intro heq
  by_cases hroot : old = u.root
  · subst hroot
    by_cases hlen : new.length = 1
    · obtain ⟨n, hn⟩ := List.length_eq_one_iff.1 hlen
      rw [hn, newRoot_single] at heq
      exact g.old_not_mem (by rw [hn, ← heq]; exact List.mem_singleton_self _)
    · rw [newRoot_block hlen] at heq
      exact absurd g.grown.wellLinked.root_lt (heq ▸ lt_irrefl _)
  · rw [newRoot_of_ne hroot] at heq
    exact hroot heq

/-- Outside the part below the node that goes parents stay the same, all the way up. -/
lemma parent_above (hx : x < t.size) (hnot : ¬ t.AtOrBelow old x) (hb : t.AtOrBelow b x) :
    t'.parent? b = t.parent? b := by
  have hnot' : ¬ t.AtOrBelow old b := fun hle => hnot (hle.trans hb)
  have hlt : b < t.size := g.wellLinked_before.atOrBelow_lt hb hx
  refine g.parent_eq hlt (fun hmem => hnot' (g.below_old hmem hlt).atOrBelow) fun heq => ?_
  exact hnot' (heq ▸ AtOrBelow.refl t b)

/-- Outside the part below the node that goes nothing is above or below anything else than before. -/
lemma atOrBelow_outside (hx : x < t.size) (hnot : ¬ t.AtOrBelow old x) :
    t'.AtOrBelow a x ↔ t.AtOrBelow a x :=
  g.wellLinked_before.atOrBelow_congr fun _ hb => g.parent_above hx hnot hb

/-- Where the nodes that come in end up. -/
lemma place_cases :
    (old ≠ t.root ∧ t'.root = t.root ∧ ∃ p, t.parent? old = some p ∧ u.place old new = some p) ∨
    (old = t.root ∧ ∃ n, new = [n] ∧ t'.root = n ∧ u.place old new = none) ∨
    (old = t.root ∧ t'.root = u.size ∧ u.place old new = some u.size ∧
      t'.children u.size = new ∧ t'.kind u.size = .block) := by
  have hroot := g.replaced.root_eq
  have hparent := g.grown.parent_eq g.old_lt
  by_cases heq : old = t.root
  · have heq' : old = u.root := heq.trans g.grown.root_eq.symm
    by_cases hlen : new.length = 1
    · obtain ⟨n, rfl⟩ := List.length_eq_one_iff.1 hlen
      refine Or.inr (Or.inl ⟨heq, n, rfl, ?_, ?_⟩)
      · rw [hroot, heq', newRoot_single]
      · rw [place, if_neg fun hc => hc.2 rfl, heq', g.grown.wellLinked.root_parent]
    · obtain ⟨hkind, -, hchildren⟩ := g.replaced.block heq' hlen
      refine Or.inr (Or.inr ⟨heq, ?_, if_pos ⟨heq', hlen⟩, hchildren, hkind⟩)
      rw [hroot, heq', newRoot_block hlen]
  · have heq' : old ≠ u.root := fun hc => heq (hc.trans g.grown.root_eq)
    refine Or.inl ⟨heq, ?_, ?_⟩
    · rw [hroot, newRoot_of_ne heq', g.grown.root_eq]
    · rcases hp : t.parent? old with _ | p
      · rw [atOrBelow_of_parent_none hp |>.1 g.attached_old] at heq
        exact absurd rfl heq
      · exact ⟨p, rfl, by rw [place, if_neg fun hc => heq' hc.1, hparent, hp]⟩

/-- What belonged to the tree outside the part below the node that goes still belongs to it. -/
lemma attached_outside (hatt : t.AtOrBelow t.root x) (hnot : ¬ t.AtOrBelow old x) :
    t'.AtOrBelow t'.root x := by
  have hne : old ≠ t.root := fun heq => hnot (heq ▸ hatt)
  rcases g.place_cases with ⟨-, hroot, -⟩ | ⟨heq, -⟩ | ⟨heq, -⟩
  · rw [hroot, g.atOrBelow_outside (hatt.lt g.wellLinked_before.root_lt) hnot]
    exact hatt
  · exact absurd heq hne
  · exact absurd heq hne

/-- What comes in belongs to the tree. -/
lemma attached_new (hn : n ∈ new) : t'.AtOrBelow t'.root n := by
  have hparent := g.replaced.parent_eq n
  rw [if_pos hn] at hparent
  rcases g.place_cases with ⟨-, hroot, p, hp, hplace⟩ | ⟨-, m, hm, hroot, -⟩ |
    ⟨-, hroot, hplace, -, -⟩
  · have hatt : t.AtOrBelow t.root p := by
      rcases Tree.atOrBelow_iff.1 g.attached_old with heq | hbelow
      · rw [heq, g.wellLinked_before.root_parent] at hp
        exact absurd hp (by simp)
      · exact (below_of_parent_iff hp).1 hbelow
    have hnot : ¬ t.AtOrBelow old p :=
      g.wellLinked_before.not_atOrBelow_of_below (below_of_parent hp)
    have hp' := g.attached_outside hatt hnot
    exact hp'.trans (below_of_parent (hparent.trans hplace)).atOrBelow
  · rw [hm, List.mem_singleton] at hn
    rw [hroot, hn]
    exact AtOrBelow.refl t' m
  · rw [hroot]
    exact (below_of_parent (hparent.trans hplace)).atOrBelow

omit g in
/-- A single node that comes in has the ancestors of the one that goes. -/
lemma ancestors_single {n : NodeId} (g : t.Graft u old [n] t') :
    t'.ancestors n = t.ancestors old := by
  have hparent := g.replaced.parent_eq n
  rw [if_pos (List.mem_singleton_self n)] at hparent
  rcases g.place_cases with ⟨-, -, p, hp, hplace⟩ | ⟨heq, -, -, -, hplace⟩ |
    ⟨-, -, hplace, -, -⟩
  · have hnot : ¬ t.AtOrBelow old p :=
      g.wellLinked_before.not_atOrBelow_of_below (below_of_parent hp)
    rw [g.wellLinked.ancestors_eq (hparent.trans hplace), g.wellLinked_before.ancestors_eq hp,
      g.wellLinked_before.ancestors_congr g.wellLinked fun b hb =>
        g.parent_above (g.wellLinked_before.parent_lt hp) hnot hb]
  · rw [ancestors_of_parent_none (hparent.trans hplace), heq,
      ancestors_of_parent_none g.wellLinked_before.root_parent]
  · rw [place, if_neg fun hc => hc.2 rfl] at hplace
    exact absurd (g.grown.wellLinked.parent_lt hplace) (lt_irrefl _)

/-- A path down from a node that comes in stays as it is. -/
lemma atOrBelow_of_new (hn : n ∈ new) (hlt : n < t.size) (ha : t.AtOrBelow n a)
    (hx : t.AtOrBelow a x) : t'.AtOrBelow a x := by
  induction hx with
  | refl => exact AtOrBelow.refl t' a
  | @tail p x hap hpx ih =>
    have hbelow : t.Below n x := (ha.trans hap).trans_below (below_of_parent hpx)
    have hne : x ≠ old := by
      rintro rfl
      exact g.wellLinked_before.not_atOrBelow_of_below (g.below_old hn hlt) hbelow.atOrBelow
    have hnew : x ∉ new := fun hmem => g.antichain n hn x hmem hbelow
    have hparent := g.parent_eq (lt_of_parent hpx) hnew hne
    exact ih.trans (below_of_parent (hparent.trans hpx)).atOrBelow

/-- No two of the nodes that come in are above the same node. -/
lemma eq_of_atOrBelow (hm : m ∈ new) (hn : n ∈ new) (hmx : t.AtOrBelow m x)
    (hnx : t.AtOrBelow n x) : m = n := by
  rcases hmx.total hnx with hmn | hnm
  · rcases Tree.atOrBelow_iff.1 hmn with heq | hbelow
    · exact heq.symm
    · exact absurd hbelow (g.antichain m hm n hn)
  · rcases Tree.atOrBelow_iff.1 hnm with heq | hbelow
    · exact heq
    · exact absurd hbelow (g.antichain n hn m hm)

/-- Above a node that comes in there are the nodes that were above the one that goes. -/
lemma below_new (hn : n ∈ new) (ha : a < t.size) : t'.Below a n ↔ t.Below a old := by
  have hparent := g.replaced.parent_eq n
  rw [if_pos hn] at hparent
  rcases g.place_cases with ⟨-, -, p, hp, hplace⟩ | ⟨hroot, m, -, -, hplace⟩ |
    ⟨hroot, hroot', hplace, -, -⟩
  · have hnot : ¬ t.AtOrBelow old p :=
      g.wellLinked_before.not_atOrBelow_of_below (below_of_parent hp)
    rw [hplace] at hparent
    rw [below_of_parent_iff hparent, below_of_parent_iff hp,
      g.atOrBelow_outside (g.wellLinked_before.parent_lt hp) hnot]
  · rw [hplace] at hparent
    have hnone : t.parent? old = none := hroot ▸ g.wellLinked_before.root_parent
    exact iff_of_false (not_below_of_parent_none hparent) (not_below_of_parent_none hnone)
  · rw [hplace] at hparent
    have hnone : t.parent? old = none := hroot ▸ g.wellLinked_before.root_parent
    have hnone' : t'.parent? u.size = none := hroot' ▸ g.wellLinked.root_parent
    refine iff_of_false (fun hbelow => ?_) (not_below_of_parent_none hnone)
    -- above the new block there is nothing but itself
    rw [below_of_parent_iff hparent, atOrBelow_of_parent_none hnone'] at hbelow
    exact absurd ha (not_lt.2 (hbelow ▸ g.grown.size_le))

/-- A node that there was and that does not come in has the parent that it had, if it has one. -/
lemma parent_before (hx : x < t.size) (hnew : x ∉ new) (hp : t'.parent? x = some p) :
    x ≠ old ∧ t.parent? x = some p := by
  have hne : x ≠ old := by
    rintro rfl
    exact absurd (g.parent_old.symm.trans hp) (by simp)
  exact ⟨hne, (g.parent_eq hx hnew hne).symm.trans hp⟩

/-- Above a node that belongs to the tree afterwards there is the root, or its parent also belongs to
the tree. -/
lemma attached_parent (hatt : t'.AtOrBelow t'.root x) (hp : t'.parent? x = some p) :
    t'.AtOrBelow t'.root p := by
  rcases Tree.atOrBelow_iff.1 hatt with heq | hbelow
  · rw [heq, g.wellLinked.root_parent] at hp
    exact absurd hp (by simp)
  · exact (below_of_parent_iff hp).1 hbelow

lemma attached_before (hx : x < t.size) (hatt : t'.AtOrBelow t'.root x) :
    t.AtOrBelow t.root x ∧ (¬ t.AtOrBelow old x ∨ ∃ n ∈ new, t.AtOrBelow n x) := by
  induction x using g.wellLinked.induction_from_top with
  | top x hnone =>
    have heq : x = t'.root := (atOrBelow_of_parent_none hnone).1 hatt
    rcases g.place_cases with ⟨hne, hroot, -⟩ | ⟨-, n, hn, hroot, -⟩ | ⟨-, hroot, -⟩
    · rw [heq, hroot]
      exact ⟨AtOrBelow.refl t _, Or.inl fun hle => hne (g.wellLinked_before.atOrBelow_root.1 hle)⟩
    · have hmem : x ∈ new := by rw [hn, heq, hroot]; exact List.mem_singleton_self n
      exact ⟨g.attached_old.trans (g.below_old hmem hx).atOrBelow,
        Or.inr ⟨x, hmem, AtOrBelow.refl t x⟩⟩
    · rw [heq, hroot] at hx
      exact absurd hx (not_lt.2 g.grown.size_le)
  | step x p hp ih =>
    by_cases hnew : x ∈ new
    · exact ⟨g.attached_old.trans (g.below_old hnew hx).atOrBelow,
        Or.inr ⟨x, hnew, AtOrBelow.refl t x⟩⟩
    · obtain ⟨hne, hp'⟩ := g.parent_before hx hnew hp
      have hstep := (below_of_parent hp').atOrBelow
      obtain ⟨hatt', hcase⟩ := ih (g.wellLinked_before.parent_lt hp') (g.attached_parent hatt hp)
      refine ⟨hatt'.trans hstep, hcase.imp (fun hnot hle => ?_) fun ⟨n, hn, hle⟩ =>
        ⟨n, hn, hle.trans hstep⟩⟩
      rcases Tree.atOrBelow_iff.1 hle with heq | hbelow
      · exact hne heq
      · exact hnot ((below_of_parent_iff hp').1 hbelow)

/-- Of the nodes that there were, those belong to the tree afterwards that belonged to it and were not
below the node that went, or were below a node that came. -/
lemma attached_iff (hx : x < t.size) : t'.AtOrBelow t'.root x ↔
    t.AtOrBelow t.root x ∧ (¬ t.AtOrBelow old x ∨ ∃ n ∈ new, t.AtOrBelow n x) := by
  refine ⟨g.attached_before hx, fun ⟨hatt, hcase⟩ => ?_⟩
  rcases hcase with hnot | ⟨n, hn, hle⟩
  · exact g.attached_outside hatt hnot
  · have hlt : n < t.size := g.wellLinked_before.atOrBelow_lt hle hx
    exact (g.attached_new hn).trans (g.atOrBelow_of_new hn hlt (AtOrBelow.refl t n) hle)

/-- A node that belongs to the tree afterwards has none of the nodes that come in among the children
that it had. -/
lemma not_mem_children (hx : x < t.size) (hatt : t'.AtOrBelow t'.root x) (hn : n ∈ new) :
    n ∉ t.children x := by
  intro hmem
  have hp := g.wellLinked_before.parent_of_mem hmem
  have hbelow := (below_of_parent_iff hp).1 (g.below_old hn (lt_of_parent hp))
  rcases (g.attached_before hx hatt).2 with hnot | ⟨m, hm, hle⟩
  · exact hnot hbelow
  · exact g.antichain m hm n hn (hle.trans_below (below_of_parent hp))

/-- A node that belongs to the tree afterwards keeps its children, but for the one that goes. -/
lemma children_eq (hx : x < t.size) (hatt : t'.AtOrBelow t'.root x) :
    t'.children x = substitute old new (t.children x) := by
  rw [g.replaced.children_eq x (hx.trans_le g.grown.size_le), g.grown.children_eq hx]
  congr 1
  exact List.filter_eq_self.2 fun n hmem =>
    decide_eq_true fun hn => g.not_mem_children hx hatt hn hmem

lemma atOrBelow_before (hx : x < t.size) (hatt : t'.AtOrBelow t'.root x) (ha : a < t.size)
    (hle : t'.AtOrBelow a x) : t.AtOrBelow a x := by
  induction hle with
  | refl => exact AtOrBelow.refl t a
  | @tail p x hap hpx ih =>
    by_cases hnew : x ∈ new
    · have hold := (g.below_new hnew ha).1 (AtOrBelow.trans_below hap (below_of_parent hpx))
      exact hold.atOrBelow.trans (g.below_old hnew hx).atOrBelow
    · obtain ⟨-, hp⟩ := g.parent_before hx hnew hpx
      have hap' := ih (g.wellLinked_before.parent_lt hp) (g.attached_parent hatt hpx)
      exact hap'.trans (below_of_parent hp).atOrBelow

lemma atOrBelow_after (hx : x < t.size) (hattx : t'.AtOrBelow t'.root x)
    (hatta : t'.AtOrBelow t'.root a) (hle : t.AtOrBelow a x) : t'.AtOrBelow a x := by
  have ha : a < t.size := g.wellLinked_before.atOrBelow_lt hle hx
  rcases (g.attached_before hx hattx).2 with hnot | ⟨n, hn, hnx⟩
  · exact (g.atOrBelow_outside hx hnot).2 hle
  have hlt : n < t.size := g.wellLinked_before.atOrBelow_lt hnx hx
  rcases (g.attached_before ha hatta).2 with hnot | ⟨m, hm, hma⟩
  · -- the upper node is above the node that goes, hence above the one that comes in
    have hold : t.Below a old := by
      rcases hle.total ((g.below_old hn hlt).atOrBelow.trans hnx) with hao | hoa
      · rcases Tree.atOrBelow_iff.1 hao with heq | hbelow
        · exact absurd (heq ▸ AtOrBelow.refl t a) hnot
        · exact hbelow
      · exact absurd hoa hnot
    exact ((g.below_new hn ha).2 hold).atOrBelow.trans
      (g.atOrBelow_of_new hn hlt (AtOrBelow.refl t n) hnx)
  · -- both nodes are below nodes that come in, which are then the same
    obtain rfl := g.eq_of_atOrBelow hm hn (hma.trans hle) hnx
    exact g.atOrBelow_of_new hn hlt hma hle

/-- Of the nodes that there were and that belong to the tree afterwards, one is above another exactly
if it was before. -/
lemma atOrBelow_iff (hx : x < t.size) (ha : a < t.size) (hattx : t'.AtOrBelow t'.root x)
    (hatta : t'.AtOrBelow t'.root a) : t'.AtOrBelow a x ↔ t.AtOrBelow a x :=
  ⟨g.atOrBelow_before hx hattx ha, g.atOrBelow_after hx hattx hatta⟩

lemma below_iff (hx : x < t.size) (ha : a < t.size) (hattx : t'.AtOrBelow t'.root x)
    (hatta : t'.AtOrBelow t'.root a) : t'.Below a x ↔ t.Below a x := by
  rw [g.wellLinked.below_iff_ne, g.wellLinked_before.below_iff_ne, g.atOrBelow_iff hx ha hattx hatta]

/-! ### Nodes that are added -/

/-- A node that is added keeps the children with which it is added. -/
lemma children_added (hy : t.size ≤ y) (hlt : y < u.size) : t'.children y = u.children y := by
  have hmem : ∀ c ∈ u.children y, t.size ≤ c := fun c hc =>
    g.grown.le_child g.wellLinked_before hy hc
  have hfilter : (u.children y).filter (· ∉ new) = u.children y := by
    refine List.filter_eq_self.2 fun c hc => decide_eq_true fun hn => ?_
    rcases g.source c hn with ⟨-, -, hnone⟩ | hbelow
    · rw [g.grown.wellLinked.parent_of_mem hc] at hnone
      exact absurd hnone (by simp)
    · exact absurd (hbelow.atOrBelow.lt g.old_lt) (not_lt.2 (hmem c hc))
  rw [g.replaced.children_eq y hlt, hfilter]
  exact substitute_of_not_mem fun hold => absurd g.old_lt (not_lt.2 (hmem old hold))

/-- A node that is added and belongs to the tree is the block for the root, or comes in itself, or was
added as a child. -/
lemma added_cases (hatt : t'.AtOrBelow t'.root y) (hy : t.size ≤ y) :
    (y = u.size ∧ t'.kind y = .block) ∨ y ∈ new ∨
      ∃ p, t'.AtOrBelow t'.root p ∧ t.size ≤ p ∧ p < u.size ∧ u.parent? y = some p ∧
        t'.parent? y = some p := by
  rcases hp : t'.parent? y with _ | p
  · have hroot : y = t'.root := (atOrBelow_of_parent_none hp).1 hatt
    rcases g.place_cases with ⟨-, hroot', -⟩ | ⟨-, n, rfl, hroot', -⟩ | ⟨-, hroot', -, -, hblock⟩
    · rw [hroot, hroot'] at hy
      exact absurd g.wellLinked_before.root_lt (not_lt.2 hy)
    · exact Or.inr (Or.inl (List.mem_singleton.2 (hroot.trans hroot')))
    · exact Or.inl ⟨hroot.trans hroot', by rw [hroot, hroot', hblock]⟩
  by_cases hnew : y ∈ new
  · exact Or.inr (Or.inl hnew)
  have hattp := g.attached_parent hatt hp
  have hmem := g.wellLinked.mem_of_parent hp
  have hne : y ≠ old := fun heq => absurd g.old_lt (not_lt.2 (heq ▸ hy))
  have hpu : u.parent? y = some p := by
    rw [← hp, g.replaced.parent_eq, if_neg hnew, if_neg hne]
  exact Or.inr (Or.inr ⟨p, hattp, g.grown.le_parent g.wellLinked_before hy hpu,
    g.grown.wellLinked.parent_lt hpu, hpu, rfl⟩)

end Graft

end VariantFold.Tree
