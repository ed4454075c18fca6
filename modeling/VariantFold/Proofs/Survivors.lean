/-
What a run leaves of the nodes that there were.

A rewrite puts nodes in the place of one that was above them, in the order in which they were.  So what is
left of the nodes that there were is met by a walk in the order of the walk before, and one is above
another as it was before (`Remains`).  This holds from any point of a run to any later one, so a node that
was cut out never comes back.
-/
import Mathlib.Data.List.Flatten
import VariantFold.Proofs.SecondPass

namespace VariantFold

namespace Tree

variable {t t₁ t₂ t' u : Tree} {n old x y : NodeId} {new : List NodeId}

/-! ### The walk after a rewrite -/

/-- The part of a walk that goes through nodes of the first `size`. -/
def walkWithin (t : Tree) (size : Nat) (x : NodeId) : List NodeId :=
  (t.descendants x).filter (· < size)

/-- The walks from those of the nodes that there are. -/
def walksFrom (t : Tree) (new : List NodeId) : List NodeId :=
  new.flatMap fun n => if n < t.size then t.descendants n else []

namespace Graft

variable (g : t.Graft u old new t')
include g

/-- Below a new node that comes in there are new nodes only. -/
lemma le_of_new (hn : n ∈ new) (hle : t.size ≤ n) (hy : t'.AtOrBelow n y) :
    t.size ≤ y ∧ y < u.size := by
  induction hy with
  | refl =>
    rcases g.source n hn with ⟨-, hlt, -⟩ | hbelow
    · exact ⟨hle, hlt⟩
    · exact absurd (hbelow.atOrBelow.lt g.old_lt) (not_lt.2 hle)
  | @tail p c _ hc ih =>
    have hmem := g.wellLinked.mem_of_parent hc
    rw [g.children_added ih.1 ih.2] at hmem
    exact ⟨g.grown.le_child g.wellLinked_before ih.1 hmem, g.grown.wellLinked.child_lt hmem⟩

/-- The walk from a node that comes in goes where it went before, and nowhere if the node is new. -/
lemma walkWithin_new (hn : n ∈ new) :
    t'.walkWithin t.size n = if n < t.size then t.descendants n else [] := by
  split
  · rename_i hlt
    have hbelow := g.below_old hn hlt
    have hsame : t.SameBelow t' n := g.sameBelow hlt
      (fun habove => g.wellLinked_before.not_atOrBelow_of_below habove hbelow.atOrBelow)
      (g.attached_new hn)
    rw [walkWithin, hsame.descendants_eq g.wellLinked_before g.wellLinked]
    refine List.filter_eq_self.2 fun y hy => decide_eq_true ?_
    exact (g.wellLinked_before.mem_descendants.1 hy).lt hlt
  · rename_i hge
    refine List.filter_eq_nil_iff.2 fun y hy => ?_
    have hle := (g.le_of_new hn (not_lt.1 hge) (g.wellLinked.mem_descendants.1 hy)).1
    simpa using hle

section Order

variable (hnew : (t.walksFrom new).Sublist (t.descendants old))
include hnew

lemma walkWithin_news : (new.flatMap (t'.walkWithin t.size)).Sublist (t.descendants old) := by
  rw [List.flatMap_congr fun n hn => g.walkWithin_new hn]
  exact hnew

/-- The walk from a node that is left meets what is left in the order in which it was met before. -/
lemma walkWithin_sublist (hx : x < t.size) (hatt : t'.AtOrBelow t'.root x) :
    (t'.walkWithin t.size x).Sublist (t.descendants x) := by
  induction x using g.wellLinked.induction_from_leaves with
  | step x ih =>
    have hchildren := g.children_eq hx hatt
    rw [walkWithin, g.wellLinked.descendants_eq, g.wellLinked_before.descendants_eq,
      List.filter_cons_of_pos (by simpa using hx), List.filter_flatMap, hchildren, substitute,
      List.flatMap_assoc]
    refine List.Sublist.cons_cons x (List.Sublist.flatMap_right _ fun c hc => ?_)
    split
    · rename_i heq
      rw [heq]
      exact g.walkWithin_news hnew
    · rename_i hne
      have hc' : c ∈ t'.children x := by
        rw [hchildren, mem_substitute]
        exact Or.inl ⟨hc, hne⟩
      rw [List.flatMap_singleton]
      exact ih c hc' (g.wellLinked_before.child_lt hc)
        (hatt.trans (g.wellLinked.below_child hc').atOrBelow)

lemma walkWithin_root : (t'.walkWithin t.size t'.root).Sublist (t.descendants t.root) := by
  rcases g.place_cases with ⟨-, hroot, -⟩ | ⟨hold, n, rfl, hroot, -⟩ | ⟨hold, hroot, -, hchildren, -⟩
  · rw [hroot]
    exact g.walkWithin_sublist hnew g.wellLinked_before.root_lt (hroot ▸ AtOrBelow.refl t' t'.root)
  · have hwalk := g.walkWithin_news hnew
    rwa [List.flatMap_singleton, ← hroot, hold] at hwalk
  · -- the block that becomes the root is new, and below it there is what comes in
    have hwalk := g.walkWithin_news hnew
    have hblock : ¬ u.size < t.size := not_lt.2 g.grown.size_le
    rw [walkWithin, hroot, g.wellLinked.descendants_eq, hchildren,
      List.filter_cons_of_neg (by simpa using hblock), List.filter_flatMap]
    rwa [hold] at hwalk

end Order

end Graft

/-- What comes in was met in the same order below the node that goes. -/
lemma Reason.walksFrom_sublist (r : t.Reason u x old new) (h : t.WellLinked) :
    (t.walksFrom new).Sublist (t.descendants old) := by
  -- the walk from a slot goes through the walks from what is in it
  have hslot : ∀ k, (t.walksFrom (t.childrenOf? (t.childOfKind? old k))).Sublist
      (t.descendants old) := by
    intro k
    rcases hfound : t.childOfKind? old k with _ | slot
    · exact List.nil_sublist _
    have hbelow := h.below_child (childOfKind?_some hfound).1
    refine List.Sublist.trans ?_ (h.descendants_sublist hbelow.atOrBelow)
    have hwalks : t.walksFrom (t.children slot) = (t.children slot).flatMap t.descendants :=
      List.flatMap_congr fun n hn => if_pos (h.child_lt hn)
    rw [h.descendants_eq slot, ← hwalks]
    exact List.sublist_cons_self slot _
  have hfresh : ∀ {l : List NodeId}, (∀ n ∈ l, t.size ≤ n) → t.walksFrom l = [] := by
    intro l hl
    exact List.flatMap_eq_nil_iff.2 fun n hn => if_neg (not_lt.2 (hl n hn))
  cases r with
  | literal _ _ leaf =>
    rw [hfresh fun m hm => by rw [List.mem_singleton.1 hm]; exact leaf.le]
    exact List.nil_sublist _
  | @entry b _ _ value =>
    have hwalk := h.descendants_sublist value.below.atOrBelow
    rw [walksFrom, List.flatMap_singleton]
    split
    · exact hwalk
    · exact List.nil_sublist _
  | operand condition => exact hslot _
  | @branch _ _ extra condition _ _ ending =>
    have happend : t.walksFrom (t.childrenOf? (t.branchSlot old condition) ++ extra) =
        t.walksFrom (t.childrenOf? (t.branchSlot old condition)) ++ t.walksFrom extra :=
      List.flatMap_append
    rw [happend, hfresh fun n hn => (ending.isNew.2 n hn).1, List.append_nil]
    exact hslot _

/-! ### What remains -/

/-- How the nodes of a tree are found again in a later one: they have the same kind and the same
attributes, a walk meets those that are left in the same order, and one that is left is above another as
before. -/
structure Remains (t t' : Tree) : Prop where
  size_le : t.size ≤ t'.size
  label : ∀ x < t.size, t.SameLabel t' x
  walk : (t'.walkWithin t.size t'.root).Sublist (t.descendants t.root)
  below_iff : ∀ x < t.size, ∀ y < t.size, t'.AtOrBelow t'.root x → t'.AtOrBelow t'.root y →
    (t'.Below x y ↔ t.Below x y)

namespace Remains

lemma refl (t : Tree) : t.Remains t :=
  ⟨le_rfl, fun x _ => SameLabel.refl t x, List.filter_sublist, fun _ _ _ _ _ _ => Iff.rfl⟩

/-- What is left was there before. -/
lemma attached_before (r : t.Remains t') (h : t.WellLinked) (h' : t'.WellLinked) (hx : x < t.size)
    (hatt : t'.AtOrBelow t'.root x) : t.AtOrBelow t.root x := by
  refine h.mem_descendants.1 (r.walk.subset (List.mem_filter.2 ⟨?_, by simpa using hx⟩))
  exact h'.mem_descendants.2 hatt

lemma trans (r : t.Remains t₁) (r' : t₁.Remains t₂) (h₁ : t₁.WellLinked) (h₂ : t₂.WellLinked) :
    t.Remains t₂ where
  size_le := r.size_le.trans r'.size_le
  label x hx := (r.label x hx).trans (r'.label x (hx.trans_le r.size_le))
  walk := by
    have hfilter : t₂.walkWithin t.size t₂.root =
        (t₂.walkWithin t₁.size t₂.root).filter (· < t.size) := by
      rw [walkWithin, walkWithin, List.filter_filter]
      refine List.filter_congr fun x _ => ?_
      have hle := r.size_le
      by_cases hx : x < t.size
      · simp [hx, hx.trans_le hle]
      · simp [hx]
    rw [hfilter]
    exact (r'.walk.filter _).trans r.walk
  below_iff x hx y hy hattx hatty := by
    have hx₁ := hx.trans_le r.size_le
    have hy₁ := hy.trans_le r.size_le
    rw [r'.below_iff x hx₁ y hy₁ hattx hatty]
    exact r.below_iff x hx y hy (r'.attached_before h₁ h₂ hx₁ hattx)
      (r'.attached_before h₁ h₂ hy₁ hatty)

end Remains

/-- A rewrite. -/
lemma Graft.remains (g : t.Graft u old new t') (r : t.Reason u x old new) : t.Remains t' where
  size_le := g.size_le
  label _ hx := g.sameLabel hx
  walk := g.walkWithin_root (r.walksFrom_sublist g.wellLinked_before)
  below_iff _ hx _ hy hattx hatty := g.below_iff hy hx hatty hattx

end Tree

namespace Step

variable {variants : Variants} {sites rest : List CallSite} {w w₁ : Workspace} {b : Bool}

/-! ### Runs -/

/-- From the start of a run to its end. -/
lemma visitAll_remains (variants : Variants) (h : w.tree.WellLinked)
    (hsites : Calls w.tree sites) : Ends w.tree.Remains (visitAll variants sites w) := by
  obtain ⟨w', h', ⟨-, hremains⟩, hend⟩ := visitAll_keeps
    (P := fun t => t.WellLinked ∧ w.tree.Remains t)
    (fun _ g r ⟨ht, hremains⟩ => ⟨g.wellLinked, hremains.trans (g.remains r) ht g.wellLinked⟩)
    variants h hsites ⟨h, Tree.Remains.refl w.tree⟩
  exact ⟨w', h', hremains, hend⟩

/-- From any point of a run to its end. -/
lemma visitAll_remains_after (h : w.tree.WellLinked) (hsites : Calls w.tree (sites ++ rest))
    (hrun : visitAll variants sites w = .ok b w₁) :
    Ends w₁.tree.Remains (visitAll variants (sites ++ rest) w) := by
  have hfirst : Calls w.tree sites := fun s hs => hsites s (List.mem_append_left rest hs)
  have hsecond : Calls w.tree rest := fun s hs => hsites s (List.mem_append_right sites hs)
  obtain ⟨h₁, hkept⟩ := visitAll_ok h hfirst hrun
  obtain ⟨w', h', hremains, ⟨b', hend⟩ | ⟨e, hend⟩⟩ :=
    visitAll_remains variants h₁ (hsecond.keeps hkept)
  · refine ⟨w', h', hremains, Or.inl ⟨b || b', ?_⟩⟩
    rw [visitAll_append, bind_ok hrun, bind_ok hend]
    rfl
  · refine ⟨w', h', hremains, Or.inr ⟨e, ?_⟩⟩
    rw [visitAll_append, bind_ok hrun, bind_error hend]

end Step

/-- However a run ends, the nodes that there were keep their kinds and attributes, a walk meets those that
are left in the order in which it met them before, each once, and one that is left is above another as
before.  The same holds from any point of the run on, so what is cut out at some point never comes
back. -/
theorem optimize_remains {w : Workspace} (h : w.tree.WellLinked) (namespaces : List String)
    (variants : Variants) :
    ∃ w', ((∃ changed, Step.optimize namespaces variants w = .ok changed w') ∨
        ∃ e, Step.optimize namespaces variants w = .error (.variant e) w') ∧
      w.tree.Remains w'.tree ∧ (w'.tree.descendants w'.tree.root).Nodup ∧
      ∀ sites rest changed w₁, w.tree.callSites namespaces = sites ++ rest →
        Step.visitAll variants sites w = .ok changed w₁ → w₁.tree.Remains w'.tree := by
  have hsites := Step.calls_callSites h namespaces
  obtain ⟨w', h', hremains, hend⟩ := Step.visitAll_remains variants h hsites
  rw [← Step.optimize_eq] at hend
  refine ⟨w', hend, hremains, h'.nodup_descendants _, fun sites rest changed w₁ hsplit hrun => ?_⟩
  rw [hsplit] at hsites
  obtain ⟨w₂, -, hremains₂, hend₂⟩ := Step.visitAll_remains_after h hsites hrun
  rw [← hsplit, ← Step.optimize_eq] at hend₂
  obtain rfl : w₂ = w' := by
    rcases hend with ⟨b, hend⟩ | ⟨e, hend⟩ <;> rcases hend₂ with ⟨b₂, hend₂⟩ | ⟨e₂, hend₂⟩ <;>
      rw [hend] at hend₂ <;> cases hend₂ <;> rfl
  exact hremains₂

theorem optimize_remains_callWithSelection :
    (callWithSelection [2, 6, 18]).WellLinked ∧
    ∃ w', ((∃ changed, Step.optimize ["env"] debugOn ⟨callWithSelection [2, 6, 18], {}⟩ =
          .ok changed w') ∨
        ∃ e, Step.optimize ["env"] debugOn ⟨callWithSelection [2, 6, 18], {}⟩ =
          .error (.variant e) w') ∧
      (callWithSelection [2, 6, 18]).Remains w'.tree ∧
      (w'.tree.descendants w'.tree.root).Nodup ∧
      ∀ sites rest changed w₁,
        (callWithSelection [2, 6, 18]).callSites ["env"] = sites ++ rest →
        Step.visitAll debugOn sites ⟨callWithSelection [2, 6, 18], {}⟩ = .ok changed w₁ →
        w₁.tree.Remains w'.tree :=
  ⟨by decide, optimize_remains (w := ⟨callWithSelection [2, 6, 18], {}⟩) (by decide) ["env"] debugOn⟩

end VariantFold
