/-
Walks visit every node once.

In a well-linked tree a walk with a stack goes through a node and then, child by child, through all that
follows from its children; the limit on its length is never met.  The two walks of this library are the
one through all nodes below a node and the one that stays in the scope of a function.

* `WellLinked.descendants_eq`, `WellLinked.scope_eq`: the recursive descriptions of the two walks;
* `WellLinked.mem_descendants`: the first walk visits what is at or below its start;
* `WellLinked.nodup_descendants`: it visits nothing twice;
* `WellLinked.scope_eq_filter`: the second walk leaves out the nodes to which a function leads.
-/
import Mathlib.Data.List.Flatten
import Mathlib.Data.List.Perm.Subperm
import VariantFold.Proofs.Links
import VariantFold.Tree.Walk

namespace VariantFold

variable {next : NodeId → List NodeId} {x : NodeId} {stack stack' out out' : List NodeId}

/-- The walk from a stack visits the nodes `out` and then ends. -/
inductive Walks (next : NodeId → List NodeId) : List NodeId → List NodeId → Prop
  | nil : Walks next [] []
  | cons {x : NodeId} {stack out : List NodeId} (rest : Walks next (next x ++ stack) out) :
      Walks next (x :: stack) (x :: out)

namespace Walks

lemma append (h : Walks next stack out) (h' : Walks next stack' out') :
    Walks next (stack ++ stack') (out ++ out') := by
  induction h with
  | nil => exact h'
  | @cons x stack out _ ih =>
    rw [List.append_assoc] at ih
    exact Walks.cons ih

lemma walk_eq (h : Walks next stack out) {n : Nat} (hn : out.length ≤ n) :
    walk next n stack = out := by
  induction h generalizing n with
  | nil => cases n <;> rfl
  | @cons x stack out _ ih =>
    obtain ⟨n, rfl⟩ := Nat.exists_eq_succ_of_ne_zero (Nat.ne_zero_of_lt hn)
    rw [walk, ih (Nat.le_of_succ_le_succ hn)]

lemma unique (h : Walks next stack out) (h' : Walks next stack out') : out = out' := by
  induction h generalizing out' with
  | nil =>
    cases h'
    rfl
  | cons _ ih =>
    cases h' with
    | cons h' => rw [ih h']

/-- Every visited node was on the stack at the start or follows from a visited node. -/
lemma length_eq (h : Walks next stack out) :
    out.length = stack.length + (out.flatMap next).length := by
  induction h with
  | nil => rfl
  | @cons x stack out _ ih =>
    rw [List.length_append] at ih
    rw [List.length_cons, List.length_cons, List.flatMap_cons, List.length_append]
    omega

end Walks

namespace Tree

variable {t : Tree} {a b c d p y : NodeId}

/-- The node `d` is at or below `x`, and there is no function on the way, the ends included. -/
def InScope (t : Tree) (x d : NodeId) : Prop :=
  t.AtOrBelow x d ∧ ∀ f, t.AtOrBelow x f → t.AtOrBelow f d → t.kind f ≠ .function

lemma linkCount_eq (t : Tree) :
    t.linkCount = ((List.range t.size).flatMap t.children).length := by
  rw [linkCount, List.flatMap_def, List.flatMap_def]
  congr 2
  refine List.ext_getElem (by simp [size, Store.size]) fun i hi hi' => ?_
  have hlt : i < t.nodes.items.size := by simpa using hi
  simp [children, node, Store.get?, hlt]

/-- The nodes of a list without repetition have no more children than there are links. -/
lemma length_children_le (hnd : out.Nodup) (hlt : ∀ x ∈ out, x < t.size) :
    (out.flatMap t.children).length ≤ t.linkCount := by
  have hsub : out ⊆ List.range t.size := fun x hx => List.mem_range.2 (hlt x hx)
  obtain ⟨l, hperm, hsublist⟩ := hnd.subperm hsub
  rw [linkCount_eq, ← (hperm.flatMap_right t.children).length_eq]
  exact (hsublist.flatMap t.children).length_le

namespace WellLinked

/-- A walk that follows child links visits nodes at or below its start, each once, and ends. -/
lemma exists_walks (h : t.WellLinked) (hnext : ∀ i, (next i).Sublist (t.children i)) (x : NodeId) :
    ∃ out, Walks next [x] out ∧ out.Nodup ∧ ∀ y ∈ out, t.AtOrBelow x y := by
  induction x using h.induction_from_leaves with
  | step x ih =>
    -- the same for a part of the children, which are not below each other
    have hpart : ∀ cs : List NodeId, cs.Sublist (t.children x) →
        ∃ out, Walks next cs out ∧ out.Nodup ∧ ∀ y ∈ out, ∃ c ∈ cs, t.AtOrBelow c y := by
      intro cs hcs
      induction cs with
      | nil => exact ⟨[], Walks.nil, List.nodup_nil, by simp⟩
      | cons c rest ihr =>
        have hc : c ∈ t.children x := hcs.subset List.mem_cons_self
        obtain ⟨out, hout, hnd, hmem⟩ := ih c hc
        obtain ⟨out', hout', hnd', hmem'⟩ := ihr ((List.sublist_cons_self c rest).trans hcs)
        refine ⟨out ++ out', hout.append hout', hnd.append hnd' ?_, ?_⟩
        · intro y hy hy'
          obtain ⟨c', hc', hcy'⟩ := hmem' y hy'
          have hcx' : c' ∈ t.children x := hcs.subset (List.mem_cons_of_mem _ hc')
          have hne : c ≠ c' := fun heq =>
            (List.nodup_cons.1 (hcs.nodup (h.nodup_children x))).1 (heq ▸ hc')
          exact h.siblings_apart hc hcx' hne (hmem y hy) hcy'
        · intro y hy
          rcases List.mem_append.1 hy with hy | hy
          · exact ⟨c, List.mem_cons_self, hmem y hy⟩
          · obtain ⟨c', hc', hle⟩ := hmem' y hy
            exact ⟨c', List.mem_cons_of_mem _ hc', hle⟩
    obtain ⟨out, hout, hnd, hmem⟩ := hpart (next x) (hnext x)
    have hbelow : ∀ y ∈ out, t.Below x y := by
      intro y hy
      obtain ⟨c, hc, hle⟩ := hmem y hy
      exact (h.below_child ((hnext x).subset hc)).trans_left hle
    refine ⟨x :: out, Walks.cons (by simpa using hout),
      List.nodup_cons.2 ⟨fun hx => h.not_below_self (hbelow x hx), hnd⟩, fun y hy => ?_⟩
    rcases List.mem_cons.1 hy with rfl | hy
    · exact AtOrBelow.refl t y
    · exact (hbelow y hy).atOrBelow

/-- The limit is not met. -/
lemma walks_of_walk (h : t.WellLinked) (hnext : ∀ i, (next i).Sublist (t.children i))
    (x : NodeId) : Walks next [x] (walk next t.walkLimit [x]) := by
  obtain ⟨out, hout, hnd, hmem⟩ := h.exists_walks hnext x
  by_cases hx : x < t.size
  · have hle : out.length ≤ t.linkCount + 1 := by
      have hlen := hout.length_eq
      have hnexts : (out.flatMap next).length ≤ (out.flatMap t.children).length :=
        (List.Sublist.flatMap_right out fun y _ => hnext y).length_le
      have hlinks := length_children_le hnd fun y hy => (hmem y hy).lt hx
      rw [List.length_singleton] at hlen
      omega
    have hlimit : out.length ≤ t.walkLimit := hle.trans Nat.lt_two_pow_self
    rwa [hout.walk_eq hlimit]
  · -- a name outside the store has no children
    have hnil : next x = [] := by
      have hsub := hnext x
      rwa [children, node_of_le (not_lt.1 hx), show (default : Node).children = [] from rfl,
        List.sublist_nil] at hsub
    have hone : Walks next [x] [x] := Walks.cons (by rw [hnil]; exact Walks.nil)
    have hlimit : [x].length ≤ t.walkLimit := Nat.one_le_two_pow
    rwa [hone.walk_eq hlimit]

/-- A walk goes through its start and then through what follows from it, one part after the other. -/
lemma walk_eq (h : t.WellLinked) (hnext : ∀ i, (next i).Sublist (t.children i)) (x : NodeId) :
    walk next t.walkLimit [x] = x :: (next x).flatMap fun c => walk next t.walkLimit [c] := by
  have hparts : ∀ cs : List NodeId,
      Walks next cs (cs.flatMap fun c => walk next t.walkLimit [c]) := by
    intro cs
    induction cs with
    | nil => exact Walks.nil
    | cons c rest ih => exact (h.walks_of_walk hnext c).append ih
  have hall : Walks next [x] (x :: (next x).flatMap fun c => walk next t.walkLimit [c]) :=
    Walks.cons (by simpa using hparts (next x))
  exact (h.walks_of_walk hnext x).unique hall

/-! ### The walk through all nodes -/

lemma descendants_eq (h : t.WellLinked) (x : NodeId) :
    t.descendants x = x :: (t.children x).flatMap t.descendants :=
  h.walk_eq (fun _ => List.Sublist.refl _) x

lemma nodup_descendants (h : t.WellLinked) (x : NodeId) : (t.descendants x).Nodup := by
  obtain ⟨out, hout, hnd, -⟩ := h.exists_walks (fun _ => List.Sublist.refl _) x
  rwa [descendants, (h.walks_of_walk (fun _ => List.Sublist.refl _) x).unique hout]

lemma mem_descendants (h : t.WellLinked) : y ∈ t.descendants x ↔ t.AtOrBelow x y := by
  induction x using h.induction_from_leaves with
  | step x ih =>
    rw [h.descendants_eq, List.mem_cons, List.mem_flatMap]
    constructor
    · rintro (rfl | ⟨c, hc, hy⟩)
      · exact AtOrBelow.refl t y
      · exact (h.below_child hc).atOrBelow.trans ((ih c hc).1 hy)
    · intro hle
      rcases Relation.ReflTransGen.cases_head hle with rfl | ⟨c, hc, hle⟩
      · exact Or.inl rfl
      · exact Or.inr ⟨c, h.mem_of_parent hc, (ih c (h.mem_of_parent hc)).2 hle⟩

/-- The walk from a node goes through the walk from what is below it. -/
lemma descendants_sublist (h : t.WellLinked) (hle : t.AtOrBelow x y) :
    (t.descendants y).Sublist (t.descendants x) := by
  induction hle using Relation.ReflTransGen.head_induction_on with
  | refl => exact List.Sublist.refl _
  | @head p c hstep _ ih =>
    rw [h.descendants_eq p]
    obtain ⟨l₁, l₂, hl⟩ := List.append_of_mem (h.mem_of_parent hstep)
    rw [hl, List.flatMap_append, List.flatMap_cons]
    exact ((ih.trans (List.sublist_append_left _ _)).trans (List.sublist_append_right _ _)).trans
      (List.sublist_cons_self p _)

/-! ### The walk through a scope -/

/-- A scope is left where a function begins. -/
lemma scope_eq (h : t.WellLinked) (x : NodeId) :
    t.scope x = if t.kind x = .function then [] else x :: (t.children x).flatMap t.scope := by
  have hnext : ∀ i, (if t.kind i = .function then [] else t.children i).Sublist (t.children i) := by
    intro i
    split <;> simp
  rw [scope, h.walk_eq hnext]
  by_cases hx : t.kind x = .function
  · simp [hx]
  · rw [List.filter_cons, if_pos (by simpa using hx), if_neg hx, if_neg hx, List.filter_flatMap]
    rfl

/-- A scope reaches into a child as far as the scope of the child. -/
lemma inScope_child (h : t.WellLinked) (hc : c ∈ t.children x) (hcd : t.AtOrBelow c d) :
    t.InScope x d ↔ t.kind x ≠ .function ∧ t.InScope c d := by
  have hxc := (h.below_child hc).atOrBelow
  constructor
  · rintro ⟨hxd, hpath⟩
    exact ⟨hpath x (AtOrBelow.refl t x) hxd, hcd, fun f hcf hfd => hpath f (hxc.trans hcf) hfd⟩
  · rintro ⟨hx, -, hpath⟩
    refine ⟨hxc.trans hcd, ?_⟩
    intro f hxf hfd
    -- `f` is on the way from `x` to `d`, so it is `x` or at or below the child
    rcases hfd.total hcd with hfc | hcf
    · rcases atOrBelow_iff.1 hfc with rfl | hfc
      · exact hpath _ (AtOrBelow.refl t _) hcd
      · have hfx := (below_of_parent_iff (h.parent_of_mem hc)).1 hfc
        rwa [← h.antisymm hxf hfx]
    · exact hpath f hcf hfd

open Classical in
/-- The walk through a scope is the walk through all nodes, but for those to which a function leads. -/
lemma scope_eq_filter (h : t.WellLinked) (x : NodeId) :
    t.scope x = (t.descendants x).filter fun d => t.InScope x d := by
  induction x using h.induction_from_leaves with
  | step x ih =>
    rw [h.scope_eq, h.descendants_eq]
    by_cases hx : t.kind x = .function
    · rw [if_pos hx, eq_comm, List.filter_eq_nil_iff]
      intro d hd hin
      rw [← h.descendants_eq, h.mem_descendants] at hd
      exact (of_decide_eq_true hin).2 x (AtOrBelow.refl t x) hd hx
    · have hself : t.InScope x x :=
        ⟨AtOrBelow.refl t x, fun f hxf hfx => h.antisymm hxf hfx ▸ hx⟩
      rw [if_neg hx, List.filter_cons, if_pos (decide_eq_true hself), List.filter_flatMap]
      refine congrArg (x :: ·) (List.flatMap_congr fun c hc => ?_)
      rw [ih c hc]
      refine List.filter_congr fun d hd => ?_
      rw [decide_eq_decide, h.inScope_child hc (h.mem_descendants.1 hd), and_iff_right hx]

lemma mem_scope (h : t.WellLinked) : d ∈ t.scope x ↔ t.InScope x d := by
  classical
  rw [h.scope_eq_filter, List.mem_filter, h.mem_descendants, decide_eq_true_iff]
  exact and_iff_right_of_imp And.left

end WellLinked

end Tree

end VariantFold
