/-
Putting nodes in the place of a node.

`Replaced t old new t'` says in full what `t'` is when the nodes `new` have taken the place of `old`
in `t`: which node has which parent and which children, and what the root is.  In a well-linked tree
nodes can take the place of a node if they are different from each other, none of them is the root, and
the replaced node is not at or below one of them.
-/
import VariantFold.Proofs.Moves

namespace VariantFold.Tree

variable {t t' : Tree} {a b c d p q x y old : NodeId} {new l : List NodeId}

/-- A list with `new` in the place of `old`. -/
def substitute (old : NodeId) (new l : List NodeId) : List NodeId :=
  l.flatMap fun c => if c = old then new else [c]

lemma mem_substitute : c ∈ substitute old new l ↔ (c ∈ l ∧ c ≠ old) ∨ (old ∈ l ∧ c ∈ new) := by
  rw [substitute, List.mem_flatMap]
  constructor
  · rintro ⟨y, hy, hc⟩
    split at hc
    · rename_i heq
      exact Or.inr ⟨heq ▸ hy, hc⟩
    · rename_i hne
      rw [List.mem_singleton] at hc
      exact Or.inl ⟨hc ▸ hy, hc ▸ hne⟩
  · rintro (⟨hc, hne⟩ | ⟨hold, hc⟩)
    · exact ⟨c, hc, by simp [hne]⟩
    · exact ⟨old, hold, by simpa using hc⟩

lemma substitute_of_not_mem (h : old ∉ l) : substitute old new l = l := by
  induction l with
  | nil => rfl
  | cons y rest ih =>
    rw [List.mem_cons, not_or] at h
    rw [substitute, List.flatMap_cons, if_neg (Ne.symm h.1), ← substitute, ih h.2]
    rfl

lemma substitute_append_cons {l₁ l₂ : List NodeId} (h : (l₁ ++ old :: l₂).Nodup) :
    substitute old new (l₁ ++ old :: l₂) = l₁ ++ new ++ l₂ := by
  have hdisj : old ∉ l₁ ∧ old ∉ l₂ := by
    rw [List.nodup_middle, List.nodup_cons, List.mem_append, not_or] at h
    exact h.1
  have h₁ : substitute old new l₁ = l₁ := substitute_of_not_mem hdisj.1
  have h₂ : substitute old new l₂ = l₂ := substitute_of_not_mem hdisj.2
  rw [substitute] at h₁ h₂ ⊢
  rw [List.flatMap_append, List.flatMap_cons, h₁, h₂, if_pos rfl, List.append_assoc]

lemma nodup_substitute (hl : l.Nodup) (hnew : new.Nodup) (hdisj : ∀ n ∈ new, n ∉ l) :
    (substitute old new l).Nodup := by
  rw [substitute, List.nodup_flatMap]
  refine ⟨fun y _ => ?_, ?_⟩
  · split
    · exact hnew
    · exact List.nodup_singleton y
  · refine hl.imp_of_mem fun {y z} hy hz hne => ?_
    refine List.disjoint_left.2 fun c hcy hcz => ?_
    dsimp only at hcy hcz
    -- a node of the list stays itself or becomes one of the new nodes, which are not in the list
    split at hcy <;> split at hcz
    · simp_all
    · rw [List.mem_singleton] at hcz
      exact hdisj c hcy (hcz ▸ hz)
    · rw [List.mem_singleton] at hcy
      exact hdisj c hcz (hcy ▸ hy)
    · rw [List.mem_singleton] at hcy hcz
      exact hne (hcy.symm.trans hcz)

/-! ### In the place of a child -/

lemma setParents (ns : List NodeId) (hns : ∀ n ∈ ns, n < t.size) (o : Option NodeId) :
    t.SameNodes (ns.foldl (fun t n => t.setParent n o) t) ∧
      (∀ x, (ns.foldl (fun t n => t.setParent n o) t).parent? x =
        if x ∈ ns then o else t.parent? x) ∧
      ∀ x, (ns.foldl (fun t n => t.setParent n o) t).children x = t.children x := by
  induction ns generalizing t with
  | nil => simp [SameNodes.refl]
  | cons n rest ih =>
    obtain ⟨hsame, hparent, hchildren⟩ := ih (t := t.setParent n o)
      fun m hm => by simpa using hns m (List.mem_cons_of_mem _ hm)
    refine ⟨(sameNodes_setParent t n o).trans hsame, fun x => ?_, fun x => ?_⟩
    · rw [List.foldl_cons, hparent, parent?_setParent (hns n List.mem_cons_self)]
      by_cases hx : x = n <;> simp [hx]
    · rw [List.foldl_cons, hchildren, children_setParent]

/-- A child is taken away from the position at which it was found. -/
lemma WellLinked.detach_eq (h : t.WellLinked) {l₁ l₂ : List NodeId} (hold : t.parent? old = some p)
    (hl : t.children p = l₁ ++ old :: l₂) :
    t.detach old = (some l₁.length, t.detached old) ∧
      (t.detached old).children p = l₁ ++ l₂ := by
  have hnd := h.nodup_children p
  rw [hl, List.nodup_middle, List.nodup_cons, List.mem_append, not_or] at hnd
  have hpos : (t.children p).idxOf? old = some l₁.length := by
    rw [hl, List.idxOf?, List.findIdx?_append, List.findIdx?_eq_none_iff.2]
    · simp [List.findIdx?_cons]
    · intro y hy
      simpa using fun heq : y = old => hnd.1.1 (heq ▸ hy)
  have hdet : t.detach old = (some l₁.length, t.detached old) := by
    rw [Tree.detached, detach, hold]
    simp [hpos]
  refine ⟨hdet, ?_⟩
  rw [h.children_detached, hl, List.filter_append, List.filter_cons]
  have hkeep : ∀ l : List NodeId, old ∉ l → l.filter (· ≠ old) = l := fun l hnot =>
    List.filter_eq_self.2 fun y hy => decide_eq_true fun heq => hnot (heq ▸ hy)
  rw [hkeep l₁ hnd.1.1, hkeep l₂ hnd.1.2]
  simp

/-- What becomes of parents and children when nodes are put in the place of a child of `p`. -/
lemma WellLinked.splice_links (h : t.WellLinked) (hold : t.parent? old = some p)
    (hnew : ∀ n ∈ new, n < t.size) :
    t.SameNodes (t.splice p old new) ∧
      (∀ x, (t.splice p old new).parent? x =
        if x ∈ new then some p else if x = old then none else t.parent? x) ∧
      ∀ x, (t.splice p old new).children x = substitute old new (t.children x) := by
  obtain ⟨l₁, l₂, hl⟩ := List.append_of_mem (h.mem_of_parent hold)
  obtain ⟨hdet, hrest⟩ := h.detach_eq hold hl
  have hsame₁ := sameNodes_detached t old
  have hp : p < (t.detached old).size := by
    rw [hsame₁.size_eq]
    exact h.parent_lt hold
  have hsplice : t.splice p old new = new.foldl (fun t n => t.setParent n (some p))
      ((t.detached old).modifyChildren p fun cs =>
        cs.take l₁.length ++ new ++ cs.drop l₁.length) := by
    rw [Tree.splice, hdet]
    rfl
  obtain ⟨hsame₂, hparent, hchildren⟩ := setParents new
    (t := (t.detached old).modifyChildren p fun cs =>
      cs.take l₁.length ++ new ++ cs.drop l₁.length)
    (fun n hn => by simpa [hsame₁.size_eq] using hnew n hn) (some p)
  rw [← hsplice] at hsame₂ hparent hchildren
  refine ⟨(hsame₁.trans (sameNodes_modifyChildren ..)).trans hsame₂, fun x => ?_, fun x => ?_⟩
  · rw [hparent, parent?_modifyChildren, parent?_detached]
  · rw [hchildren, children_modifyChildren hp]
    by_cases hx : x = p
    · subst hx
      rw [if_pos rfl, hrest, hl, substitute_append_cons (hl ▸ h.nodup_children x)]
      simp
    · have hnot : old ∉ t.children x := fun hmem =>
        hx (Option.some_injective _ ((h.parent_of_mem hmem).symm.trans hold))
      rw [if_neg hx, substitute_of_not_mem hnot, h.children_detached]
      exact List.filter_eq_self.2 fun y hy => decide_eq_true fun heq => hnot (heq ▸ hy)

/-- Nodes without parents take the place of a child of `p`. -/
lemma WellLinked.splice (h : t.WellLinked) (hold : t.parent? old = some p) (hnd : new.Nodup)
    (hnew : ∀ n ∈ new, n < t.size ∧ n ≠ t.root ∧ t.parent? n = none ∧ ¬ t.AtOrBelow n p) :
    (t.splice p old new).WellLinked ∧ t.SameNodes (t.splice p old new) ∧
      (∀ x, (t.splice p old new).parent? x =
        if x ∈ new then some p else if x = old then none else t.parent? x) ∧
      ∀ x, (t.splice p old new).children x = substitute old new (t.children x) := by
  obtain ⟨hsame, hparent, hchildren⟩ := h.splice_links hold fun n hn => (hnew n hn).1
  have hnot : ∀ q, ∀ n ∈ new, n ∉ t.children q := by
    intro q n hn hmem
    exact absurd ((hnew n hn).2.2.1.symm.trans (h.parent_of_mem hmem)) (by simp)
  refine ⟨⟨fun q x => ?_, fun q => ?_, ?_, ?_, ?_⟩, hsame, hparent, hchildren⟩
  · rw [hchildren, hparent, mem_substitute, h.mem_children_iff, h.mem_children_iff, hold]
    by_cases hx : x ∈ new
    · simp [hx, (hnew x hx).2.2.1]
    · by_cases hxo : x = old
      · subst hxo
        simp [hx]
      · simp [hx, hxo]
  · rw [hchildren]
    exact nodup_substitute (h.nodup_children q) hnd (hnot q)
  · refine chains_end_of_moved (q := p) h.chains_end (fun a ha => ?_) (fun x => ?_)
    · have hanew : a ∉ new := fun hmem => (hnew a hmem).2.2.2 ha
      rw [hparent, if_neg hanew]
      split <;> simp
    · rw [hparent]
      split
      · exact Or.inr (Or.inr rfl)
      · split <;> simp
  · rw [hsame.root_eq, hsame.size_eq]
    exact h.root_lt
  · have hroot : t.root ∉ new := fun hmem => (hnew _ hmem).2.1 rfl
    rw [hsame.root_eq, hparent, if_neg hroot, h.root_parent]
    simp

/-! ### In the place of any node -/

/-- The nodes `new` can take the place of `old`. -/
structure Replaceable (t : Tree) (old : NodeId) (new : List NodeId) : Prop where
  /-- They are different from each other. -/
  nodup : new.Nodup
  /-- They are in the store. -/
  lt : ∀ n ∈ new, n < t.size
  /-- None of them is the root. -/
  ne_root : ∀ n ∈ new, n ≠ t.root
  /-- None of them is the replaced node or above it. -/
  not_above : ∀ n ∈ new, ¬ t.AtOrBelow n old

/-- The parent of the nodes that take the place of `old`: that of `old`, unless `old` is the root and
they go into a new block. -/
def place (t : Tree) (old : NodeId) (new : List NodeId) : Option NodeId :=
  if old = t.root ∧ new.length ≠ 1 then some t.size else t.parent? old

/-- The root after `new` has taken the place of `old`. -/
def newRoot (t : Tree) (old : NodeId) (new : List NodeId) : NodeId :=
  if old = t.root then
    match new with
    | [n] => n
    | _ => t.size
  else t.root

lemma newRoot_of_ne (h : old ≠ t.root) : t.newRoot old new = t.root := by
  simp [newRoot, h]

lemma newRoot_single (n : NodeId) : t.newRoot t.root [n] = n := by
  simp [newRoot]

lemma newRoot_block (h : new.length ≠ 1) : t.newRoot t.root new = t.size := by
  match new, h with
  | [], _ => simp [newRoot]
  | [n], h => simp at h
  | _ :: _ :: _, _ => simp [newRoot]

/-- In `t'` the nodes `new` have taken the place that `old` had in `t`. -/
structure Replaced (t : Tree) (old : NodeId) (new : List NodeId) (t' : Tree) : Prop where
  wellLinked : t'.WellLinked
  /-- At most a block for the root is added. -/
  size_eq : t'.size = if old = t.root ∧ new.length ≠ 1 then t.size + 1 else t.size
  root_eq : t'.root = t.newRoot old new
  kind_eq : ∀ x, x < t.size → t'.kind x = t.kind x
  attributes_eq : ∀ x, x < t.size → t'.attributes x = t.attributes x
  parent_eq : ∀ x, t'.parent? x =
    if x ∈ new then t.place old new else if x = old then none else t.parent? x
  children_eq : ∀ x, x < t.size → t'.children x =
    substitute old new ((t.children x).filter (· ∉ new))
  /-- The block that is added for the root. -/
  block : old = t.root → new.length ≠ 1 → t'.kind t.size = .block ∧
    t'.attributes t.size = KeyMap.empty ∧ t'.children t.size = new

namespace Replaceable

lemma ne_old (h : t.Replaceable old new) : old ∉ new :=
  fun hmem => h.not_above old hmem (AtOrBelow.refl t old)

/-- The nodes that take the place of a child are without parents once they were taken away. -/
lemma splice_detachedAll (h : t.Replaceable old new) (hwl : t.WellLinked)
    (hold : t.parent? old = some p) :
    ∀ n ∈ new, n < (new.foldl Tree.detached t).size ∧ n ≠ (new.foldl Tree.detached t).root ∧
      (new.foldl Tree.detached t).parent? n = none ∧
      ¬ (new.foldl Tree.detached t).AtOrBelow n p := by
  obtain ⟨-, hsame, hparent, -⟩ := hwl.detachedAll new
  have habove : ∀ a, t.AtOrBelow a p → (new.foldl Tree.detached t).parent? a = t.parent? a := by
    intro a ha
    have hanew : a ∉ new := fun hmem =>
      h.not_above a hmem (ha.trans (below_of_parent hold).atOrBelow)
    rw [hparent, if_neg hanew]
  intro n hn
  rw [hsame.size_eq, hsame.root_eq, hwl.atOrBelow_congr habove]
  refine ⟨h.lt n hn, h.ne_root n hn, by rw [hparent, if_pos hn], fun hle => ?_⟩
  exact h.not_above n hn (hle.trans (below_of_parent hold).atOrBelow)

end Replaceable

lemma substitute_children (h : t.WellLinked) (hold : t.parent? old = none) (x : NodeId) :
    substitute old new ((t.children x).filter (· ∉ new)) = (t.children x).filter (· ∉ new) := by
  refine substitute_of_not_mem fun hmem => ?_
  have hparent := h.parent_of_mem (List.mem_of_mem_filter hmem)
  exact absurd (hold.symm.trans hparent) (by simp)

namespace WellLinked

/-- The root gives way to a new block. -/
lemma replaced_root_block (h : t.WellLinked) (hr : t.Replaceable t.root new)
    (hlen : new.length ≠ 1) :
    t.Replaced t.root new { (t.createWith .block new).2 with root := t.size } := by
  obtain ⟨-, hnew⟩ := h.createWith .block
    (fun n hn => ⟨hr.lt n hn, hr.ne_root n hn⟩) hr.nodup
  have hplace : t.place t.root new = some t.size := if_pos ⟨rfl, hlen⟩
  have hne : ∀ x, x < t.size → x ≠ t.size := fun x hx heq => absurd hx (heq ▸ lt_irrefl _)
  refine ⟨⟨hnew.wellLinked.mem_children_iff, hnew.wellLinked.nodup_children,
    hnew.wellLinked.chains_end, ?_, ?_⟩, ?_, ?_, fun x hx => hnew.kind_eq x (hne x hx),
    fun x hx => hnew.attributes_eq x (hne x hx), fun x => ?_, fun x hx => ?_, fun _ _ =>
      ⟨hnew.kind_new, hnew.attributes_new, hnew.children_new⟩⟩
  · exact (Nat.lt_succ_self t.size).trans_eq hnew.size_eq.symm
  · refine (hnew.parent_eq t.size).trans ?_
    rw [if_neg fun hmem => absurd (hr.lt _ hmem) (lt_irrefl _), parent?, node_of_le le_rfl]
    rfl
  · rw [if_pos ⟨rfl, hlen⟩]
    exact hnew.size_eq
  · exact (newRoot_block hlen).symm
  · refine (hnew.parent_eq x).trans ?_
    rw [hplace]
    by_cases hx : x = t.root
    · simp [hx, h.root_parent]
    · simp [hx]
  · rw [substitute_children h h.root_parent]
    exact hnew.children_eq x (hne x hx)

/-- A child gives way. -/
lemma replaced_child (h : t.WellLinked) (hr : t.Replaceable old new)
    (hold : t.parent? old = some p) :
    t.Replaced old new ((new.foldl Tree.detached t).splice p old new) := by
  have hroot : old ≠ t.root := fun heq => by
    rw [heq, h.root_parent] at hold
    exact absurd hold (by simp)
  obtain ⟨hwl, hsame, hparent, hchildren⟩ := h.detachedAll new
  have hold' : (new.foldl Tree.detached t).parent? old = some p := by
    rw [hparent, if_neg hr.ne_old, hold]
  obtain ⟨hwl', hsame', hparent', hchildren'⟩ :=
    hwl.splice hold' hr.nodup (hr.splice_detachedAll h hold)
  have hs := hsame.trans hsame'
  have hplace : t.place old new = some p := by
    rw [place, if_neg fun hc => hroot hc.1, hold]
  refine ⟨hwl', ?_, ?_, fun x _ => hs.kind_eq x, fun x _ => hs.attributes_eq x, fun x => ?_,
    fun x _ => ?_, fun heq => absurd heq hroot⟩
  · rw [if_neg fun hc => hroot hc.1, hs.size_eq]
  · rw [newRoot_of_ne hroot, hs.root_eq]
  · rw [hparent', hparent, hplace]
    by_cases hx : x ∈ new <;> simp [hx]
  · rw [hchildren', hchildren]

/-- A node without a parent gives way: if it is the root, there is one node to become the root. -/
lemma replaced_top (h : t.WellLinked) (hr : t.Replaceable old new)
    (hold : t.parent? old = none) (hlen : old = t.root → new.length = 1) :
    t.Replaced old new { new.foldl Tree.detached t with root := t.newRoot old new } := by
  obtain ⟨hwl, hsame, hparent, hchildren⟩ := h.detachedAll new
  have hplace : t.place old new = none := by
    rw [place, if_neg fun hc => hc.2 (hlen hc.1), hold]
  have hnewRoot : t.newRoot old new < t.size ∧
      (new.foldl Tree.detached t).parent? (t.newRoot old new) = none := by
    by_cases hroot : old = t.root
    · obtain ⟨n, rfl⟩ := List.length_eq_one_iff.1 (hlen hroot)
      rw [hroot, newRoot_single, hparent, if_pos (by simp)]
      exact ⟨hr.lt n (by simp), rfl⟩
    · rw [newRoot_of_ne hroot, hparent, h.root_parent]
      exact ⟨h.root_lt, by simp⟩
  refine ⟨⟨hwl.mem_children_iff, hwl.nodup_children, hwl.chains_end, ?_, hnewRoot.2⟩, ?_, rfl,
    fun x _ => hsame.kind_eq x, fun x _ => hsame.attributes_eq x, fun x => ?_, fun x _ => ?_,
    fun heq hne => absurd (hlen heq) hne⟩
  · exact hnewRoot.1.trans_eq hsame.size_eq.symm
  · rw [if_neg fun hc => hc.2 (hlen hc.1)]
    exact hsame.size_eq
  · refine (hparent x).trans ?_
    rw [hplace]
    by_cases hx : x = old <;> simp [hx, hold]
  · rw [substitute_children h hold]
    exact hchildren x

/-- Nodes that can take the place of a node do so. -/
theorem replaceWith_ok (h : t.WellLinked) (hr : t.Replaceable old new) :
    ∃ t', t.replaceWith old new = .ok t' ∧ t.Replaced old new t' := by
  have hself : new ≠ [old] := fun heq => hr.ne_old (heq ▸ List.mem_singleton_self old)
  have hany : ¬ (new.any fun n => t.isAncestorOrSelf n old) = true := by
    rw [List.any_eq_true]
    rintro ⟨n, hn, hle⟩
    exact hr.not_above n hn (h.isAncestorOrSelf_iff.1 hle)
  rw [replaceWith, if_neg hself, if_neg hany]
  by_cases hblock : old = t.root ∧ new.length ≠ 1
  · obtain ⟨rfl, hlen⟩ := hblock
    rw [if_pos ⟨rfl, hlen⟩]
    exact ⟨_, rfl, h.replaced_root_block hr hlen⟩
  · rw [if_neg hblock]
    obtain ⟨-, hsame, hparent, -⟩ := h.detachedAll new
    have hparent' : (new.foldl Tree.detached t).parent? old = t.parent? old := by
      rw [hparent, if_neg hr.ne_old]
    rcases hold : t.parent? old with _ | p
    · have hlen : old = t.root → new.length = 1 := fun heq =>
        not_not.1 fun hne => hblock ⟨heq, hne⟩
      have hkeep : old ≠ t.root → { new.foldl Tree.detached t with root := t.newRoot old new } =
          new.foldl Tree.detached t := fun hroot => by
        rw [newRoot_of_ne hroot, ← hsame.root_eq]
      refine ⟨_, ?_, h.replaced_top hr hold hlen⟩
      simp only [hparent'.trans hold]
      split
      · rename_i heq
        exact absurd heq (by simp)
      · by_cases hroot : old = t.root
        · rw [if_pos (hroot.trans hsame.root_eq.symm), hroot, newRoot_single]
        · rw [if_neg fun heq => hroot (heq.trans hsame.root_eq), hkeep hroot]
      · rename_i hne
        refine congrArg Except.ok (hkeep fun hroot => ?_).symm
        obtain ⟨n, hn⟩ := List.length_eq_one_iff.1 (hlen hroot)
        exact hne n hn
    · refine ⟨_, ?_, h.replaced_child hr hold⟩
      simp only [hparent'.trans hold]

end WellLinked

end VariantFold.Tree
