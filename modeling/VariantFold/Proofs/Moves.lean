/-
What moving nodes does to the links of a tree.

Each operation that moves nodes is described by what it makes of the parent link and of the list of
children of every node, and each keeps a well-linked tree well-linked.  The reason is always the same:
the nodes that move all get one new parent, and no node above that parent moves.

* `WellLinked.detachedAll`: nodes are taken away from their parents;
* `WellLinked.createWith`: a new node takes nodes as its children;
* `WellLinked.splice`: nodes without parents take the place of a child.
-/
import Mathlib.Data.List.Dedup
import VariantFold.Proofs.Links

namespace VariantFold.Tree

variable {t : Tree} {a b c d n p q x y old : NodeId} {new : List NodeId}

/-! ### Single changes -/

@[simp] lemma size_setParent (t : Tree) (c : NodeId) (o : Option NodeId) :
    (t.setParent c o).size = t.size := size_modify ..

@[simp] lemma root_setParent (t : Tree) (c : NodeId) (o : Option NodeId) :
    (t.setParent c o).root = t.root := rfl

@[simp] lemma kind_setParent (t : Tree) (c : NodeId) (o : Option NodeId) (x : NodeId) :
    (t.setParent c o).kind x = t.kind x := by
  rw [kind, setParent, node_modify]
  split <;> rfl

@[simp] lemma attributes_setParent (t : Tree) (c : NodeId) (o : Option NodeId) (x : NodeId) :
    (t.setParent c o).attributes x = t.attributes x := by
  rw [attributes, setParent, node_modify]
  split <;> rfl

@[simp] lemma children_setParent (t : Tree) (c : NodeId) (o : Option NodeId) (x : NodeId) :
    (t.setParent c o).children x = t.children x := by
  rw [children, setParent, node_modify]
  split <;> rfl

lemma parent?_setParent (hc : c < t.size) (o : Option NodeId) (x : NodeId) :
    (t.setParent c o).parent? x = if x = c then o else t.parent? x := by
  rw [parent?, setParent, node_modify]
  by_cases hx : c = x
  · subst hx
    simp [hc]
  · simp [hx, Ne.symm hx, parent?]

@[simp] lemma size_modifyChildren (t : Tree) (p : NodeId) (f : List NodeId → List NodeId) :
    (t.modifyChildren p f).size = t.size := size_modify ..

@[simp] lemma root_modifyChildren (t : Tree) (p : NodeId) (f : List NodeId → List NodeId) :
    (t.modifyChildren p f).root = t.root := rfl

@[simp] lemma kind_modifyChildren (t : Tree) (p : NodeId) (f : List NodeId → List NodeId)
    (x : NodeId) : (t.modifyChildren p f).kind x = t.kind x := by
  rw [kind, modifyChildren, node_modify]
  split <;> rfl

@[simp] lemma attributes_modifyChildren (t : Tree) (p : NodeId) (f : List NodeId → List NodeId)
    (x : NodeId) : (t.modifyChildren p f).attributes x = t.attributes x := by
  rw [attributes, modifyChildren, node_modify]
  split <;> rfl

@[simp] lemma parent?_modifyChildren (t : Tree) (p : NodeId) (f : List NodeId → List NodeId)
    (x : NodeId) : (t.modifyChildren p f).parent? x = t.parent? x := by
  rw [parent?, modifyChildren, node_modify]
  split <;> rfl

lemma children_modifyChildren (hp : p < t.size) (f : List NodeId → List NodeId) (x : NodeId) :
    (t.modifyChildren p f).children x = if x = p then f (t.children p) else t.children x := by
  rw [children, modifyChildren, node_modify]
  by_cases hx : p = x
  · subst hx
    simp [hp, children]
  · simp [hx, Ne.symm hx, children]

@[simp] lemma size_set (t : Tree) (n : NodeId) (name : String) (value : Scalar) :
    (t.set n name value).size = t.size := size_modify ..

@[simp] lemma root_set (t : Tree) (n : NodeId) (name : String) (value : Scalar) :
    (t.set n name value).root = t.root := rfl

@[simp] lemma kind_set (t : Tree) (n : NodeId) (name : String) (value : Scalar) (x : NodeId) :
    (t.set n name value).kind x = t.kind x := by
  rw [kind, set, node_modify]
  split <;> rfl

@[simp] lemma children_set (t : Tree) (n : NodeId) (name : String) (value : Scalar) (x : NodeId) :
    (t.set n name value).children x = t.children x := by
  rw [children, set, node_modify]
  split <;> rfl

@[simp] lemma parent?_set (t : Tree) (n : NodeId) (name : String) (value : Scalar) (x : NodeId) :
    (t.set n name value).parent? x = t.parent? x := by
  rw [parent?, set, node_modify]
  split <;> rfl

lemma attributes_set (hn : n < t.size) (name : String) (value : Scalar) (x : NodeId) :
    (t.set n name value).attributes x =
      if x = n then (t.attributes n).insert name value else t.attributes x := by
  rw [attributes, set, node_modify]
  by_cases hx : n = x
  · subst hx
    simp [hn, attributes, Node.set]
  · simp [hx, Ne.symm hx, attributes]

/-- Whether a tree is well-linked depends on its links only. -/
lemma WellLinked.of_links {t' : Tree} (h : t.WellLinked) (hsize : t'.size = t.size)
    (hroot : t'.root = t.root) (hchildren : ∀ y, t'.children y = t.children y)
    (hparent : ∀ y, t'.parent? y = t.parent? y) : t'.WellLinked where
  mem_children_iff p c := by
    rw [hchildren, hparent]
    exact h.mem_children_iff p c
  nodup_children p := by
    rw [hchildren]
    exact h.nodup_children p
  chains_end := by
    refine Subrelation.wf (fun {p c} hp => ?_) h.chains_end
    rwa [IsParent, hparent] at hp
  root_lt := by
    rw [hroot, hsize]
    exact h.root_lt
  root_parent := by
    rw [hroot, hparent]
    exact h.root_parent

lemma WellLinked.set (h : t.WellLinked) (n : NodeId) (name : String) (value : Scalar) :
    (t.set n name value).WellLinked :=
  h.of_links (size_set t n name value) (root_set t n name value) (children_set t n name value)
    (parent?_set t n name value)

/-- Two trees have the same nodes and the same root; the links may differ. -/
structure SameNodes (t t' : Tree) : Prop where
  size_eq : t'.size = t.size
  root_eq : t'.root = t.root
  kind_eq : ∀ x, t'.kind x = t.kind x
  attributes_eq : ∀ x, t'.attributes x = t.attributes x

lemma SameNodes.refl (t : Tree) : t.SameNodes t := ⟨rfl, rfl, fun _ => rfl, fun _ => rfl⟩

lemma SameNodes.trans {t₁ t₂ t₃ : Tree} (h : t₁.SameNodes t₂) (h' : t₂.SameNodes t₃) :
    t₁.SameNodes t₃ :=
  ⟨h'.size_eq.trans h.size_eq, h'.root_eq.trans h.root_eq,
    fun x => (h'.kind_eq x).trans (h.kind_eq x),
    fun x => (h'.attributes_eq x).trans (h.attributes_eq x)⟩

lemma sameNodes_setParent (t : Tree) (c : NodeId) (o : Option NodeId) :
    t.SameNodes (t.setParent c o) := ⟨by simp, by simp, by simp, by simp⟩

lemma sameNodes_modifyChildren (t : Tree) (p : NodeId) (f : List NodeId → List NodeId) :
    t.SameNodes (t.modifyChildren p f) := ⟨by simp, by simp, by simp, by simp⟩

/-! ### Chains after a move -/

/-- If no node at or above `q` changes its parent, the nodes above `q` stay the same. -/
lemma WellLinked.atOrBelow_congr {t' : Tree} (h : t.WellLinked)
    (habove : ∀ a, t.AtOrBelow a q → t'.parent? a = t.parent? a) :
    t'.AtOrBelow b q ↔ t.AtOrBelow b q := by
  induction q using h.induction_from_top with
  | top q hq =>
    have hq' : t'.parent? q = none := (habove q (AtOrBelow.refl t q)).trans hq
    rw [atOrBelow_of_parent_none hq, atOrBelow_of_parent_none hq']
  | step q p hq ih =>
    have hq' : t'.parent? q = some p := (habove q (AtOrBelow.refl t q)).trans hq
    have hp := ih fun a ha => habove a (ha.trans (below_of_parent hq).atOrBelow)
    rw [atOrBelow_iff, atOrBelow_iff, below_of_parent_iff hq, below_of_parent_iff hq', hp]

/-- If no node at or above `q` changes its parent, the list of its ancestors stays the same. -/
lemma WellLinked.ancestors_congr {t' : Tree} (h : t.WellLinked) (h' : t'.WellLinked)
    (habove : ∀ a, t.AtOrBelow a q → t'.parent? a = t.parent? a) :
    t'.ancestors q = t.ancestors q := by
  induction q using h.induction_from_top with
  | top q hq =>
    have hq' : t'.parent? q = none := (habove q (AtOrBelow.refl t q)).trans hq
    rw [ancestors_of_parent_none hq, ancestors_of_parent_none hq']
  | step q p hq ih =>
    have hq' : t'.parent? q = some p := (habove q (AtOrBelow.refl t q)).trans hq
    rw [h.ancestors_eq hq, h'.ancestors_eq hq',
      ih fun a ha => habove a (ha.trans (below_of_parent hq).atOrBelow)]

/-- Nodes that move all get the parent `q`, and no node at or above `q` moves: then chains of parents
end after the move if they ended before. -/
lemma chains_end_of_moved {t' : Tree} (h : WellFounded t.IsParent)
    (habove : ∀ a, t.AtOrBelow a q → t'.parent? a = t.parent? a ∨ t'.parent? a = none)
    (hmoved : ∀ x, t'.parent? x = t.parent? x ∨ t'.parent? x = none ∨ t'.parent? x = some q) :
    WellFounded t'.IsParent := by
  have hacc : ∀ a, t.AtOrBelow a q → Acc t'.IsParent a := by
    intro a
    induction a using h.induction with
    | _ a ih =>
      intro ha
      refine Acc.intro a fun p hp => ?_
      rcases habove a ha with heq | heq
      · have hpa : t.parent? a = some p := heq ▸ hp
        exact ih p hpa ((below_of_parent hpa).atOrBelow.trans ha)
      · exact absurd (heq ▸ hp : none = some p) (by simp)
  constructor
  intro x
  induction x using h.induction with
  | _ x ih =>
    refine Acc.intro x fun p hp => ?_
    rcases hmoved x with heq | heq | heq
    · exact ih p (heq ▸ hp : t.parent? x = some p)
    · exact absurd (heq ▸ hp : none = some p) (by simp)
    · have hpq : p = q := (Option.some_injective _ (heq ▸ hp : some q = some p)).symm
      exact hpq ▸ hacc q (AtOrBelow.refl t q)

/-! ### Taking nodes away from their parents -/

lemma sameNodes_detached (t : Tree) (c : NodeId) : t.SameNodes (t.detached c) := by
  rw [detached, detach]
  split
  · exact SameNodes.refl t
  · rename_i p _
    exact (sameNodes_setParent t c none).trans
      (sameNodes_modifyChildren (t.setParent c none) p fun cs => cs.erase c)

lemma parent?_detached (t : Tree) (c x : NodeId) :
    (t.detached c).parent? x = if x = c then none else t.parent? x := by
  rw [detached, detach]
  split
  · rename_i hc
    by_cases hx : x = c
    · simp [hx, hc]
    · simp [hx]
  · rename_i p hc
    simp [parent?_setParent (lt_of_parent hc)]

lemma WellLinked.children_detached (h : t.WellLinked) (c x : NodeId) :
    (t.detached c).children x = (t.children x).filter (· ≠ c) := by
  have hkeep : t.parent? c ≠ some x → (t.children x).filter (· ≠ c) = t.children x := by
    intro hne
    refine List.filter_eq_self.2 fun y hy => decide_eq_true ?_
    rintro rfl
    exact hne (h.parent_of_mem hy)
  rw [detached, detach]
  split
  · rename_i hc
    exact (hkeep (by simp [hc])).symm
  · rename_i p hc
    rw [children_modifyChildren (by simpa using h.parent_lt hc)]
    by_cases hx : x = p
    · subst hx
      rw [if_pos rfl, children_setParent, (h.nodup_children x).erase_eq_filter]
      exact List.filter_congr fun y _ => by simp [bne, beq_eq_decide]
    · rw [if_neg hx, children_setParent, hkeep (by rw [hc]; simpa using Ne.symm hx)]

lemma WellLinked.detached (h : t.WellLinked) (c : NodeId) : (t.detached c).WellLinked where
  mem_children_iff p x := by
    rw [h.children_detached, List.mem_filter, parent?_detached, h.mem_children_iff]
    by_cases hx : x = c <;> simp [hx]
  nodup_children p := by
    rw [h.children_detached]
    exact (h.nodup_children p).filter _
  chains_end := by
    refine Subrelation.wf (r := t.IsParent) (fun {p x} hp => ?_) h.chains_end
    rw [IsParent, parent?_detached] at hp
    split at hp
    · exact absurd hp (by simp)
    · exact hp
  root_lt := by
    rw [(sameNodes_detached t c).root_eq, (sameNodes_detached t c).size_eq]
    exact h.root_lt
  root_parent := by
    rw [(sameNodes_detached t c).root_eq, parent?_detached, h.root_parent]
    simp

/-- Several nodes lose their parents. -/
lemma WellLinked.detachedAll (h : t.WellLinked) (new : List NodeId) :
    (new.foldl Tree.detached t).WellLinked ∧ t.SameNodes (new.foldl Tree.detached t) ∧
      (∀ x, (new.foldl Tree.detached t).parent? x = if x ∈ new then none else t.parent? x) ∧
      ∀ x, (new.foldl Tree.detached t).children x = (t.children x).filter (· ∉ new) := by
  induction new generalizing t with
  | nil => simp [h, SameNodes.refl]
  | cons n rest ih =>
    obtain ⟨hwl, hsame, hparent, hchildren⟩ := ih (h.detached n)
    refine ⟨hwl, (sameNodes_detached t n).trans hsame, fun x => ?_, fun x => ?_⟩
    · rw [List.foldl_cons, hparent, parent?_detached]
      by_cases hx : x = n <;> simp [hx]
    · rw [List.foldl_cons, hchildren, h.children_detached, List.filter_filter]
      refine List.filter_congr fun y _ => ?_
      simp [Bool.and_comm]

/-! ### Taking nodes as children -/

lemma sameNodes_attach (t : Tree) (p c : NodeId) : t.SameNodes (t.attach p c) :=
  ((sameNodes_detached t c).trans (sameNodes_modifyChildren ..)).trans (sameNodes_setParent ..)

lemma parent?_attach (hc : c < t.size) (p x : NodeId) :
    (t.attach p c).parent? x = if x = c then some p else t.parent? x := by
  rw [attach, parent?_setParent (by simpa [(sameNodes_detached t c).size_eq] using hc),
    parent?_modifyChildren, parent?_detached]
  by_cases hx : x = c <;> simp [hx]

lemma WellLinked.children_attach (h : t.WellLinked) (hp : p < t.size) (c x : NodeId) :
    (t.attach p c).children x =
      (t.children x).filter (· ≠ c) ++ if x = p then [c] else [] := by
  rw [attach, children_setParent,
    children_modifyChildren (by rwa [(sameNodes_detached t c).size_eq]), h.children_detached,
    h.children_detached]
  by_cases hx : x = p <;> simp [hx]

/-- A node that is not the root can go below any node that is not at or below it. -/
lemma WellLinked.attach (h : t.WellLinked) (hp : p < t.size) (hc : c < t.size) (hroot : c ≠ t.root)
    (hcp : ¬ t.AtOrBelow c p) : (t.attach p c).WellLinked where
  mem_children_iff q x := by
    rw [h.children_attach hp, parent?_attach hc, List.mem_append, List.mem_filter,
      h.mem_children_iff]
    by_cases hx : x = c
    · by_cases hq : q = p <;> simp [hx, hq, Ne.symm]
    · by_cases hq : q = p <;> simp [hx, hq]
  nodup_children q := by
    rw [h.children_attach hp]
    refine List.Nodup.append ((h.nodup_children q).filter _) ?_ ?_
    · split <;> simp
    · intro x hx hx'
      split at hx' <;> simp_all
  chains_end := by
    refine chains_end_of_moved (q := p) h.chains_end (fun a ha => ?_) (fun x => ?_)
    · have hac : a ≠ c := fun hac => hcp (hac ▸ ha)
      exact Or.inl (by rw [parent?_attach hc, if_neg hac])
    · rw [parent?_attach hc]
      by_cases hx : x = c <;> simp [hx]
  root_lt := by
    rw [(sameNodes_attach t p c).root_eq, (sameNodes_attach t p c).size_eq]
    exact h.root_lt
  root_parent := by
    rw [(sameNodes_attach t p c).root_eq, parent?_attach hc, if_neg (Ne.symm hroot), h.root_parent]

/-- Several nodes go below `p`, in order, after the children that `p` keeps.  A node that is named more
than once ends up where it is named last. -/
lemma WellLinked.attachAll_dedup {cs : List NodeId} (h : t.WellLinked) (hp : p < t.size)
    (hcs : ∀ c ∈ cs, c < t.size ∧ c ≠ t.root ∧ ¬ t.AtOrBelow c p) :
    (cs.foldl (fun t c => t.attach p c) t).WellLinked ∧
      t.SameNodes (cs.foldl (fun t c => t.attach p c) t) ∧
      (∀ x, (cs.foldl (fun t c => t.attach p c) t).parent? x =
        if x ∈ cs then some p else t.parent? x) ∧
      ∀ x, (cs.foldl (fun t c => t.attach p c) t).children x =
        (t.children x).filter (· ∉ cs) ++ if x = p then cs.dedup else [] := by
  induction cs generalizing t with
  | nil => simp [h, SameNodes.refl]
  | cons c rest ih =>
    obtain ⟨hc, hroot, hcp⟩ := hcs c List.mem_cons_self
    have hsame := sameNodes_attach t p c
    have habove : ∀ a, t.AtOrBelow a p → (t.attach p c).parent? a = t.parent? a := by
      intro a ha
      have hac : a ≠ c := fun hac => hcp (hac ▸ ha)
      rw [parent?_attach hc, if_neg hac]
    obtain ⟨hwl, hsame', hparent, hchildren⟩ := ih (h.attach hp hc hroot hcp)
      (by rwa [hsame.size_eq]) (fun y hy => by
        obtain ⟨hy, hyroot, hyp⟩ := hcs y (List.mem_cons_of_mem _ hy)
        rw [hsame.size_eq, hsame.root_eq, h.atOrBelow_congr habove]
        exact ⟨hy, hyroot, hyp⟩)
    refine ⟨hwl, hsame.trans hsame', fun x => ?_, fun x => ?_⟩
    · rw [List.foldl_cons, hparent, parent?_attach hc]
      by_cases hx : x = c <;> simp [hx]
    · rw [List.foldl_cons, hchildren, h.children_attach hp, List.filter_append,
        List.filter_filter]
      have hfilter : (t.children x).filter (fun y => decide (y ∉ rest) && decide (y ≠ c)) =
          (t.children x).filter (· ∉ c :: rest) :=
        List.filter_congr fun y _ => by simp [Bool.and_comm]
      rw [hfilter, List.append_assoc]
      by_cases hnamed : c ∈ rest <;> by_cases hx : x = p <;> simp [hx, hnamed]

lemma WellLinked.attachAll {cs : List NodeId} (h : t.WellLinked) (hp : p < t.size)
    (hcs : ∀ c ∈ cs, c < t.size ∧ c ≠ t.root ∧ ¬ t.AtOrBelow c p) (hnd : cs.Nodup) :
    (cs.foldl (fun t c => t.attach p c) t).WellLinked ∧
      t.SameNodes (cs.foldl (fun t c => t.attach p c) t) ∧
      (∀ x, (cs.foldl (fun t c => t.attach p c) t).parent? x =
        if x ∈ cs then some p else t.parent? x) ∧
      ∀ x, (cs.foldl (fun t c => t.attach p c) t).children x =
        (t.children x).filter (· ∉ cs) ++ if x = p then cs else [] := by
  have hall := h.attachAll_dedup hp hcs
  rwa [hnd.dedup] at hall

lemma WellLinked.create (h : t.WellLinked) (k : Kind) :
    (t.create k).2.WellLinked ∧ (∀ x, (t.create k).2.parent? x = t.parent? x) ∧
      ∀ x, (t.create k).2.children x = t.children x := by
  have hparent : ∀ x, (t.create k).2.parent? x = t.parent? x := by
    intro x
    rw [parent?, parent?, node_create]
    split
    · rename_i hx
      rw [hx, node_of_le le_rfl]
      rfl
    · rfl
  have hchildren : ∀ x, (t.create k).2.children x = t.children x := by
    intro x
    rw [children, children, node_create]
    split
    · rename_i hx
      rw [hx, node_of_le le_rfl]
      rfl
    · rfl
  refine ⟨⟨fun p c => ?_, fun p => ?_, ?_, ?_, ?_⟩, hparent, hchildren⟩
  · rw [hchildren, hparent, h.mem_children_iff]
  · rw [hchildren]
    exact h.nodup_children p
  · exact Subrelation.wf (fun {p x} hp => (hparent x ▸ hp : t.parent? x = some p)) h.chains_end
  · rw [root_create, size_create]
    exact Nat.lt_succ_of_lt h.root_lt
  · rw [root_create, hparent, h.root_parent]

/-- A new node with the given children: what it is and what becomes of the other nodes. -/
structure CreatedWith (t : Tree) (k : Kind) (cs : List NodeId) (t' : Tree) : Prop where
  wellLinked : t'.WellLinked
  size_eq : t'.size = t.size + 1
  root_eq : t'.root = t.root
  kind_new : t'.kind t.size = k
  attributes_new : t'.attributes t.size = KeyMap.empty
  children_new : t'.children t.size = cs
  kind_eq : ∀ x, x ≠ t.size → t'.kind x = t.kind x
  attributes_eq : ∀ x, x ≠ t.size → t'.attributes x = t.attributes x
  parent_eq : ∀ x, t'.parent? x = if x ∈ cs then some t.size else t.parent? x
  children_eq : ∀ x, x ≠ t.size → t'.children x = (t.children x).filter (· ∉ cs)

/-- The new node has no parent. -/
lemma CreatedWith.parent_new {t' : Tree} {k : Kind} {cs : List NodeId} (hnew : t.CreatedWith k cs t')
    (hcs : ∀ c ∈ cs, c < t.size) : t'.parent? t.size = none := by
  rw [hnew.parent_eq, if_neg fun hmem => lt_irrefl _ (hcs _ hmem), parent?, node_of_le le_rfl]
  rfl

/-- A new node takes nodes as its children, each once. -/
lemma WellLinked.createWith_dedup {cs : List NodeId} (h : t.WellLinked) (k : Kind)
    (hcs : ∀ c ∈ cs, c < t.size ∧ c ≠ t.root) :
    t.CreatedWith k cs.dedup (t.createWith k cs).2 := by
  obtain ⟨hwl, hparent, hchildren⟩ := h.create k
  have htop : (t.create k).2.parent? t.size = none := by
    rw [hparent, parent?, node_of_le le_rfl]
    rfl
  obtain ⟨hwl', hsame, hparent', hchildren'⟩ := hwl.attachAll_dedup (p := t.size) (by simp)
    (fun c hc => by
      refine ⟨by simpa using Nat.lt_succ_of_lt (hcs c hc).1, (hcs c hc).2, fun hle => ?_⟩
      have heq : t.size = c := (atOrBelow_of_parent_none htop).1 hle
      exact absurd (hcs c hc).1 (heq ▸ lt_irrefl _))
  refine ⟨hwl', ?_, ?_, ?_, ?_, ?_, fun x hx => ?_, fun x hx => ?_, fun x => ?_, fun x hx => ?_⟩
  · exact hsame.size_eq.trans (size_create t k)
  · exact hsame.root_eq
  · exact (hsame.kind_eq _).trans (by simp [kind, node_create])
  · exact (hsame.attributes_eq _).trans (by simp [attributes, node_create])
  · refine (hchildren' _).trans ?_
    rw [hchildren, children, node_of_le le_rfl]
    simp [default]
  · exact (hsame.kind_eq x).trans (by simp [kind, node_create, hx])
  · exact (hsame.attributes_eq x).trans (by simp [attributes, node_create, hx])
  · exact (hparent' x).trans (by rw [hparent]; simp only [List.mem_dedup])
  · refine (hchildren' x).trans ?_
    rw [hchildren, if_neg hx, List.append_nil]
    simp only [List.mem_dedup]

lemma WellLinked.createWith {cs : List NodeId} (h : t.WellLinked) (k : Kind)
    (hcs : ∀ c ∈ cs, c < t.size ∧ c ≠ t.root) (hnd : cs.Nodup) :
    (t.createWith k cs).1 = t.size ∧ t.CreatedWith k cs (t.createWith k cs).2 := by
  have hnew := h.createWith_dedup k hcs
  rw [hnd.dedup] at hnew
  exact ⟨rfl, hnew⟩

end VariantFold.Tree
