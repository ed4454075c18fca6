/-
Changes in one place.

A row of children of a node gives way to others, and nothing changes outside (`LocalChange`).  Such
changes can be made one after the other: in the same place, in a row, or further down, where they count
as changes of every node above.
-/
import VariantFold.Proofs.Subtrees

namespace VariantFold

namespace Tree

variable {t t₁ t₂ t' u : Tree} {a b c old p q x y z : NodeId}
  {left new post pre right xs xs' xs₁ xs₂ ys ys₂ : List NodeId}

/-- A later state of a tree: nodes stay what they are, and a node that was cut out stays cut out. -/
structure Later (t t' : Tree) : Prop where
  wellLinked : t'.WellLinked
  size_le : t.size ≤ t'.size
  root_eq : t'.root = t.root
  label : ∀ y < t.size, t.SameLabel t' y
  attached_before : ∀ y < t.size, t'.AtOrBelow t'.root y → t.AtOrBelow t.root y

lemma Later.refl (h : t.WellLinked) : t.Later t :=
  ⟨h, le_rfl, rfl, fun y _ => SameLabel.refl t y, fun _ _ hatt => hatt⟩

lemma Later.trans (h : t.Later t₁) (h' : t₁.Later t₂) : t.Later t₂ where
  wellLinked := h'.wellLinked
  size_le := h.size_le.trans h'.size_le
  root_eq := h'.root_eq.trans h.root_eq
  label y hy := (h.label y hy).trans (h'.label y (hy.trans_le h.size_le))
  attached_before y hy hatt :=
    h.attached_before y hy (h'.attached_before y (hy.trans_le h.size_le) hatt)

/-- The children `xs` of `p`, between `pre` and `post`, have given way to `xs'`.  Nothing has changed
outside. -/
structure LocalChange (t : Tree) (p : NodeId) (pre xs post : List NodeId) (t' : Tree)
    (xs' : List NodeId) : Prop extends t.Later t' where
  wellLinked_before : t.WellLinked
  attached_parent : t.AtOrBelow t.root p
  before : t.children p = pre ++ xs ++ post
  after : t'.children p = pre ++ xs' ++ post
  outside : ∀ y, t.AtOrBelow t.root y → y ≠ p → (∀ x ∈ xs, ¬ t.AtOrBelow x y) →
    t'.children y = t.children y

namespace LocalChange

lemma refl (h : t.WellLinked) (hp : t.AtOrBelow t.root p)
    (hchildren : t.children p = pre ++ xs ++ post) : t.LocalChange p pre xs post t xs :=
  ⟨Later.refl h, h, hp, hchildren, hchildren, fun _ _ _ _ => rfl⟩

section Frame

variable (l : t.LocalChange p pre xs post t' xs')
include l

lemma mem_children (hx : x ∈ xs) : x ∈ t.children p := by
  rw [l.before]
  exact List.mem_append_left _ (List.mem_append_right _ hx)

lemma not_atOrBelow_parent (hx : x ∈ xs) : ¬ t.AtOrBelow x p :=
  l.wellLinked_before.not_atOrBelow_of_below
    (l.wellLinked_before.below_child (l.mem_children hx))

/-- Parents stay the same outside. -/
lemma parent_eq (hatt : t.AtOrBelow t.root y) (hy : ∀ x ∈ xs, ¬ t.AtOrBelow x y)
    (hq : t.parent? y = some q) : t'.parent? y = some q := by
  have h := l.wellLinked_before
  have hmem := h.mem_of_parent hq
  refine l.wellLinked.parent_of_mem ?_
  by_cases hqp : q = p
  · subst hqp
    have hnot : y ∉ xs := fun hyxs => hy y hyxs (AtOrBelow.refl t y)
    rw [l.before] at hmem
    rw [l.after]
    simp only [List.mem_append] at hmem ⊢
    tauto
  · have hle := (below_of_parent hq).atOrBelow
    rw [l.outside q (h.attached_above hle hatt) hqp fun x hx hxq => hy x hx (hxq.trans hle)]
    exact hmem

/-- What belonged to the tree outside still belongs to it. -/
lemma attached_outside (hatt : t.AtOrBelow t.root y) (hy : ∀ x ∈ xs, ¬ t.AtOrBelow x y) :
    t'.AtOrBelow t'.root y := by
  have h := l.wellLinked_before
  induction y using h.induction_from_top with
  | top y hnone =>
    rw [atOrBelow_of_parent_none hnone] at hatt
    rw [hatt, l.root_eq]
    exact AtOrBelow.refl t' t.root
  | step y q hq ih =>
    have hle := (below_of_parent hq).atOrBelow
    have hattq := ih (h.attached_above hle hatt) fun x hx hxq => hy x hx (hxq.trans hle)
    exact hattq.trans (below_of_parent (l.parent_eq hatt hy hq)).atOrBelow

lemma attached_parent_after : t'.AtOrBelow t'.root p :=
  l.attached_outside l.attached_parent fun _ hx => l.not_atOrBelow_parent hx

lemma mem_after (hx : x ∈ xs') : x ∈ t'.children p := by
  rw [l.after]
  exact List.mem_append_left _ (List.mem_append_right _ hx)

/-- What comes in belongs to the tree. -/
lemma attached_new (hx : x ∈ xs') : t'.AtOrBelow t'.root x :=
  l.attached_parent_after.trans
    (l.wellLinked.below_child (l.mem_after hx)).atOrBelow

/-- What was outside is not below what comes in. -/
lemma not_atOrBelow_new (hatt : t.AtOrBelow t.root y) (hy : ∀ x ∈ xs, ¬ t.AtOrBelow x y)
    (hx : x ∈ xs') : ¬ t'.AtOrBelow x y := by
  have h := l.wellLinked_before
  have hparent := l.wellLinked.parent_of_mem (l.mem_after hx)
  induction y using h.induction_from_top with
  | top y hnone =>
    rw [atOrBelow_of_parent_none hnone] at hatt
    rw [hatt, ← l.root_eq, l.wellLinked.atOrBelow_root]
    rintro rfl
    rw [l.wellLinked.root_parent] at hparent
    exact absurd hparent (by simp)
  | step y q hq ih =>
    have hle := (below_of_parent hq).atOrBelow
    have hq' := l.parent_eq hatt hy hq
    intro hxy
    rcases Tree.atOrBelow_iff.1 hxy with rfl | hbelow
    · -- it would be among the children twice
      obtain rfl : q = p := Option.some_injective _ (hq'.symm.trans hparent)
      have hnd := l.wellLinked.nodup_children q
      have hmem := h.mem_of_parent hq
      have hnot : y ∉ xs := fun hyxs => hy y hyxs (AtOrBelow.refl t y)
      rw [l.after] at hnd
      rw [l.before] at hmem
      simp only [List.mem_append] at hmem
      rw [List.nodup_append, List.nodup_append] at hnd
      rcases hmem with (hpre | hxs) | hpost
      · exact hnd.1.2.2 y hpre y hx rfl
      · exact hnot hxs
      · exact hnd.2.2 y (List.mem_append_right _ hx) y hpost rfl
    · refine ih (h.attached_above hle hatt) (fun x hx hxq => hy x hx (hxq.trans hle)) ?_
      exact (below_of_parent_iff hq').1 hbelow

/-- Nothing changes below a node that is neither above the place nor in it. -/
lemma sameBelow (hatt : t.AtOrBelow t.root z) (hp : ¬ t.AtOrBelow z p)
    (hz : ∀ x ∈ xs, ¬ t.AtOrBelow x z) : t.SameBelow t' z := by
  have h := l.wellLinked_before
  intro y hy
  have hatty := hatt.trans hy
  refine ⟨l.label y (hatty.lt h.root_lt), l.outside y hatty ?_ fun x hx hxy => ?_⟩
  · rintro rfl
    exact hp hy
  · rcases hxy.total hy with hle | hle
    · exact hz x hx hle
    · rcases Tree.atOrBelow_iff.1 hle with rfl | hbelow
      · exact hz x hx (AtOrBelow.refl t x)
      · exact hp ((below_of_parent_iff (h.parent_of_mem (l.mem_children hx))).1 hbelow)

/-- Nothing changes below the other children. -/
lemma sameBelow_sibling (hz : z ∈ pre ∨ z ∈ post) : t.SameBelow t' z := by
  have h := l.wellLinked_before
  have hmem : z ∈ t.children p := by
    rw [l.before]
    simp only [List.mem_append]
    tauto
  have hparent := h.parent_of_mem hmem
  refine l.sameBelow (l.attached_parent.trans (below_of_parent hparent).atOrBelow)
    (h.not_atOrBelow_of_below (below_of_parent hparent)) fun x hx hxz => ?_
  have hne : x ≠ z := by
    rintro rfl
    have hnd := h.nodup_children p
    rw [l.before, List.nodup_append, List.nodup_append] at hnd
    rcases hz with hz | hz
    · exact hnd.1.2.2 x hz x hx rfl
    · exact hnd.2.2 x (List.mem_append_right _ hx) x hz rfl
  exact h.siblings_apart (l.mem_children hx) hmem hne hxz (AtOrBelow.refl t z)

/-- What the node looks like afterwards. -/
lemma snapshot_eq : t'.snapshot p = .node (t.kind p) (t.attributes p)
    (pre.map t.snapshot ++ xs'.map t'.snapshot ++ post.map t.snapshot) := by
  have hlabel := l.label p (l.attached_parent.lt l.wellLinked_before.root_lt)
  have hsame : ∀ z, z ∈ pre ∨ z ∈ post → t'.snapshot z = t.snapshot z := fun z hz =>
    (l.sameBelow_sibling hz).snapshot_eq l.wellLinked_before l.wellLinked
  rw [l.wellLinked.snapshot_eq, hlabel.kind_eq, hlabel.attributes_eq, l.after, List.map_append,
    List.map_append, List.map_congr_left fun z hz => hsame z (Or.inl hz),
    List.map_congr_left fun z hz => hsame z (Or.inr hz)]

end Frame

/-- Two changes in the same place. -/
lemma trans (l : t.LocalChange p pre xs post t₁ xs₁) (l' : t₁.LocalChange p pre xs₁ post t₂ xs₂) :
    t.LocalChange p pre xs post t₂ xs₂ where
  toLater := l.toLater.trans l'.toLater
  wellLinked_before := l.wellLinked_before
  attached_parent := l.attached_parent
  before := l.before
  after := l'.after
  outside y hatt hne hy :=
    (l'.outside y (l.attached_outside hatt hy) hne fun _ hx => l.not_atOrBelow_new hatt hy hx).trans
      (l.outside y hatt hne hy)

/-- Two changes in a row. -/
lemma append (l : t.LocalChange p pre xs (ys ++ post) t₁ xs₁)
    (l' : t₁.LocalChange p (pre ++ xs₁) ys post t₂ ys₂) :
    t.LocalChange p pre (xs ++ ys) post t₂ (xs₁ ++ ys₂) where
  toLater := l.toLater.trans l'.toLater
  wellLinked_before := l.wellLinked_before
  attached_parent := l.attached_parent
  before := by simp only [l.before, List.append_assoc]
  after := by simp only [l'.after, List.append_assoc]
  outside y hatt hne hy := by
    have hxs : ∀ x ∈ xs, ¬ t.AtOrBelow x y := fun x hx => hy x (List.mem_append_left ys hx)
    refine (l'.outside y (l.attached_outside hatt hxs) hne fun x hx hxy => ?_).trans
      (l.outside y hatt hne hxs)
    have hsame := l.sameBelow_sibling (z := x) (Or.inr (List.mem_append_left post hx))
    exact hy x (List.mem_append_right xs hx)
      ((hsame.atOrBelow_iff l.wellLinked_before l.wellLinked).1 hxy)

/-- A change further down. -/
lemma up (l : t.LocalChange p pre xs post t' xs') (hq : t.children q = left ++ [z] ++ right)
    (hz : t.AtOrBelow z p) : t.LocalChange q left [z] right t' [z] := by
  have h := l.wellLinked_before
  have hmem : z ∈ t.children q := by
    rw [hq]
    simp
  have hbelow : t.Below q p := (h.below_child hmem).trans_left hz
  have hattq := h.attached_above hbelow.atOrBelow l.attached_parent
  refine ⟨l.toLater, h, hattq, hq, ?_, fun y hatt _ hy => ?_⟩
  · rw [l.outside q hattq (fun heq => h.not_below_self (heq ▸ hbelow)) fun x hx hxq => ?_, hq]
    exact l.not_atOrBelow_parent hx (hxq.trans hbelow.atOrBelow)
  · have hnot := hy z (List.mem_singleton_self z)
    refine l.outside y hatt (fun heq => hnot (heq ▸ hz)) fun x hx hxy => hnot ?_
    exact hz.trans ((h.below_child (l.mem_children hx)).atOrBelow.trans hxy)

end LocalChange

/-- A graft below a node is a change of its children. -/
lemma Graft.localChange (g : t.Graft u old new t') (hp : t.children p = pre ++ [old] ++ post) :
    t.LocalChange p pre [old] post t' new := by
  have h := g.wellLinked_before
  have hmem : old ∈ t.children p := by
    rw [hp]
    simp
  have hparent := h.parent_of_mem hmem
  have hattp := h.attached_above (below_of_parent hparent).atOrBelow g.attached_old
  have hchildren : ∀ y, t.AtOrBelow t.root y → ¬ t.AtOrBelow old y →
      t'.children y = substitute old new (t.children y) := fun y hatt hy =>
    g.children_eq (hatt.lt h.root_lt) (g.attached_outside hatt hy)
  have hroot : t'.root = t.root := by
    rcases g.place_cases with ⟨-, hroot, -⟩ | ⟨heq, -⟩ | ⟨heq, -⟩
    · exact hroot
    · rw [heq, h.root_parent] at hparent
      exact absurd hparent (by simp)
    · rw [heq, h.root_parent] at hparent
      exact absurd hparent (by simp)
  refine ⟨⟨g.wellLinked, g.size_le, hroot, fun y hy => g.sameLabel hy,
    fun y hy hatt => (g.attached_before hy hatt).1⟩, h, hattp, hp, ?_, fun y hatt hne hy => ?_⟩
  · have hnd := h.nodup_children p
    rw [hchildren p hattp (h.not_atOrBelow_of_below (below_of_parent hparent))]
    rw [hp, List.append_assoc, List.singleton_append] at hnd ⊢
    exact substitute_append_cons hnd
  · rw [hchildren y hatt (hy old (List.mem_singleton_self old))]
    refine substitute_of_not_mem fun hold => hne ?_
    exact Option.some_injective _ ((h.parent_of_mem hold).symm.trans hparent)

end Tree

end VariantFold
