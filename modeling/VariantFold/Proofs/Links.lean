/-
Trees whose links agree.

In a well-linked tree a node is listed among the children of another exactly if it names it as its
parent, no list of children repeats a name, and every chain of parents ends.  The parent links then make
a forest out of all nodes, those that were cut out included.  This module says what "below" means there
and shows that the functions which follow parent links up to a limit compute it: the limit is never met.

* `WellLinked.ancestors_eq`: the ancestors of a node are its parent and the ancestors of its parent;
* `WellLinked.isAncestorOrSelf_iff`, `WellLinked.isAttached_iff`: the two tests on ancestors;
* `WellLinked.induction_from_top`, `WellLinked.induction_from_leaves`: the two inductions along the links.
-/
import Mathlib.Data.Finset.Card
import Mathlib.Data.List.Nodup
import Mathlib.Logic.Relation
import Mathlib.Order.WellFounded
import Mathlib.Tactic.Common
import VariantFold.Tree.Edit

namespace VariantFold.Tree

variable {t : Tree} {a b c d p q x y : NodeId}

/-- The parent link of `c` names `p`. -/
def IsParent (t : Tree) (p c : NodeId) : Prop := t.parent? c = some p

/-- Parent links lead from `d` to `a`, in any number of steps: `d` is `a` or below it. -/
def AtOrBelow (t : Tree) (a d : NodeId) : Prop := Relation.ReflTransGen t.IsParent a d

/-- Parent links lead from `d` to `a`, in at least one step: `d` is below `a`. -/
def Below (t : Tree) (a d : NodeId) : Prop := Relation.TransGen t.IsParent a d

/-- The links of a tree agree.  The first three conditions are about all nodes, also about those that
were cut out.  A name outside the store reads as a node without links, so a name that occurs in a link
is a name in the store. -/
structure WellLinked (t : Tree) : Prop where
  /-- A node is among the children of exactly the node that it names as its parent. -/
  mem_children_iff : ∀ p c, c ∈ t.children p ↔ t.parent? c = some p
  /-- No child is listed twice. -/
  nodup_children : ∀ p, (t.children p).Nodup
  /-- Every chain of parents ends. -/
  chains_end : WellFounded t.IsParent
  /-- The root is in the store. -/
  root_lt : t.root < t.size
  /-- The root has no parent. -/
  root_parent : t.parent? t.root = none

/-! ### Names outside the store -/

lemma node_of_le (h : t.size ≤ x) : t.node x = default := by
  have hx : ¬ x < t.nodes.items.size := not_lt.2 h
  simp [node, Store.get?, hx]

/-- A node is its kind, its attributes and its links. -/
lemma node_ext {t' : Tree} (hkind : t'.kind x = t.kind y) (hattr : t'.attributes x = t.attributes y)
    (hchildren : t'.children x = t.children y) (hparent : t'.parent? x = t.parent? y) :
    t'.node x = t.node y := by
  rw [kind, kind] at hkind
  rw [attributes, attributes] at hattr
  rw [children, children] at hchildren
  rw [parent?, parent?] at hparent
  rcases hx : t'.node x with ⟨k, as, cs, o⟩
  rcases hy : t.node y with ⟨k', as', cs', o'⟩
  simp_all

lemma lt_of_parent (h : t.parent? c = some p) : c < t.size := by
  by_contra hc
  rw [parent?, node_of_le (not_lt.1 hc)] at h
  exact absurd h (by simp [default])

lemma lt_of_mem_children (h : c ∈ t.children p) : p < t.size := by
  by_contra hp
  rw [children, node_of_le (not_lt.1 hp)] at h
  exact absurd h (by simp [default])

/-! ### Above and below -/

lemma AtOrBelow.refl (t : Tree) (a : NodeId) : t.AtOrBelow a a := Relation.ReflTransGen.refl

lemma AtOrBelow.trans (h : t.AtOrBelow a b) (h' : t.AtOrBelow b c) : t.AtOrBelow a c :=
  Relation.ReflTransGen.trans h h'

lemma Below.atOrBelow (h : t.Below a b) : t.AtOrBelow a b := h.to_reflTransGen

lemma below_of_parent (h : t.parent? c = some p) : t.Below p c := Relation.TransGen.single h

lemma Below.trans_left (h : t.Below a b) (h' : t.AtOrBelow b c) : t.Below a c :=
  Relation.TransGen.trans_left h h'

lemma AtOrBelow.trans_below (h : t.AtOrBelow a b) (h' : t.Below b c) : t.Below a c :=
  Relation.TransGen.trans_right h h'

lemma atOrBelow_iff : t.AtOrBelow a d ↔ d = a ∨ t.Below a d :=
  Relation.reflTransGen_iff_eq_or_transGen

/-- A node is below `a` exactly if its parent is `a` or below it. -/
lemma below_iff : t.Below a d ↔ ∃ p, t.parent? d = some p ∧ t.AtOrBelow a p := by
  rw [Below, Relation.TransGen.tail'_iff]
  exact exists_congr fun p => and_comm

lemma not_below_of_parent_none (hd : t.parent? d = none) : ¬ t.Below a d := by
  rw [below_iff, hd]
  simp

lemma atOrBelow_of_parent_none (hd : t.parent? d = none) : t.AtOrBelow a d ↔ d = a := by
  rw [atOrBelow_iff, or_iff_left (not_below_of_parent_none hd)]

lemma below_of_parent_iff (hd : t.parent? d = some p) : t.Below a d ↔ t.AtOrBelow a p := by
  rw [below_iff, hd]
  simp

/-- Two nodes above a third lie on one chain. -/
lemma AtOrBelow.total (ha : t.AtOrBelow a d) (hb : t.AtOrBelow b d) :
    t.AtOrBelow a b ∨ t.AtOrBelow b a := by
  have hu : Relator.RightUnique (Function.swap t.IsParent) := by
    intro c p q hp hq
    exact Option.some_injective _ (hp.symm.trans hq)
  have h := Relation.ReflTransGen.total_of_right_unique hu
    (Relation.reflTransGen_swap.2 ha) (Relation.reflTransGen_swap.2 hb)
  simp only [Relation.reflTransGen_swap] at h
  exact h.symm

lemma Below.lt (h : t.Below a d) : d < t.size := by
  obtain ⟨p, hp, -⟩ := below_iff.1 h
  exact lt_of_parent hp

lemma AtOrBelow.lt (h : t.AtOrBelow a d) (ha : a < t.size) : d < t.size := by
  rcases atOrBelow_iff.1 h with rfl | h
  · exact ha
  · exact h.lt

namespace WellLinked

lemma parent_of_mem (h : t.WellLinked) (hc : c ∈ t.children p) : t.parent? c = some p :=
  (h.mem_children_iff p c).1 hc

lemma below_child (h : t.WellLinked) (hc : c ∈ t.children p) : t.Below p c :=
  below_of_parent (h.parent_of_mem hc)

lemma mem_of_parent (h : t.WellLinked) (hc : t.parent? c = some p) : c ∈ t.children p :=
  (h.mem_children_iff p c).2 hc

/-- A name that occurs as a parent is in the store. -/
lemma parent_lt (h : t.WellLinked) (hc : t.parent? c = some p) : p < t.size :=
  lt_of_mem_children (h.mem_of_parent hc)

/-- A name that occurs as a child is in the store. -/
lemma child_lt (h : t.WellLinked) (hc : c ∈ t.children p) : c < t.size :=
  lt_of_parent (h.parent_of_mem hc)

lemma not_below_self (h : t.WellLinked) : ¬ t.Below a a :=
  h.chains_end.transGen.irrefl.irrefl a

lemma antisymm (h : t.WellLinked) (hab : t.AtOrBelow a b) (hba : t.AtOrBelow b a) : a = b := by
  rcases atOrBelow_iff.1 hab with rfl | hlt
  · rfl
  · exact absurd (hlt.trans_left hba) h.not_below_self

lemma not_atOrBelow_of_below (h : t.WellLinked) (hab : t.Below a b) : ¬ t.AtOrBelow b a :=
  fun hba => h.not_below_self (hab.trans_left hba)

lemma below_iff_ne (h : t.WellLinked) : t.Below a d ↔ t.AtOrBelow a d ∧ d ≠ a := by
  constructor
  · intro hbelow
    exact ⟨hbelow.atOrBelow, fun heq => h.not_below_self (heq ▸ hbelow)⟩
  · rintro ⟨hle, hne⟩
    exact (atOrBelow_iff.1 hle).resolve_left hne

lemma atOrBelow_lt (h : t.WellLinked) (hab : t.AtOrBelow a b) (hb : b < t.size) : a < t.size := by
  induction hab using Relation.ReflTransGen.head_induction_on with
  | refl => exact hb
  | head hstep _ _ => exact h.parent_lt hstep

/-- Only the root is above the root. -/
lemma atOrBelow_root (h : t.WellLinked) : t.AtOrBelow a t.root ↔ a = t.root := by
  rw [atOrBelow_of_parent_none h.root_parent, eq_comm]

/-- What is above a node that belongs to the tree belongs to the tree. -/
lemma attached_above (h : t.WellLinked) (hle : t.AtOrBelow a x) (hx : t.AtOrBelow t.root x) :
    t.AtOrBelow t.root a := by
  rcases hle.total hx with har | hra
  · exact h.atOrBelow_root.1 har ▸ AtOrBelow.refl t a
  · exact hra

/-- Siblings are not below each other. -/
lemma not_below_sibling (h : t.WellLinked) (ha : a ∈ t.children p) (hb : b ∈ t.children p) :
    ¬ t.Below a b := by
  intro hbelow
  have hap := (below_of_parent_iff (h.parent_of_mem hb)).1 hbelow
  exact h.not_atOrBelow_of_below (h.below_child ha) hap

/-- Nothing is below two siblings. -/
lemma siblings_apart (h : t.WellLinked) (ha : a ∈ t.children p) (hb : b ∈ t.children p)
    (hne : a ≠ b) (hxa : t.AtOrBelow a x) (hxb : t.AtOrBelow b x) : False := by
  rcases hxa.total hxb with hle | hle
  · rcases atOrBelow_iff.1 hle with heq | hbelow
    · exact hne heq.symm
    · exact h.not_below_sibling ha hb hbelow
  · rcases atOrBelow_iff.1 hle with heq | hbelow
    · exact hne heq
    · exact h.not_below_sibling hb ha hbelow

/-! ### Following parent links up to a limit -/

/-- A chain of parents repeats no name, and its names are in the store. -/
lemma nodup_chain (h : t.WellLinked) (n : Nat) (start : Option NodeId) :
    (t.chain n start).Nodup ∧ ∀ x ∈ t.chain n start, ∃ s, start = some s ∧ t.AtOrBelow x s := by
  induction n generalizing start with
  | zero => simp [chain]
  | succ n ih =>
    cases start with
    | none => simp [chain]
    | some s =>
      obtain ⟨hnd, hmem⟩ := ih (t.parent? s)
      have habove : ∀ x ∈ t.chain n (t.parent? s), t.Below x s := by
        intro x hx
        obtain ⟨p, hp, hxp⟩ := hmem x hx
        exact hxp.trans_below (below_of_parent hp)
      rw [chain]
      refine ⟨List.nodup_cons.2 ⟨fun hs => h.not_below_self (habove s hs), hnd⟩, ?_⟩
      intro x hx
      rcases List.mem_cons.1 hx with rfl | hx
      · exact ⟨x, rfl, AtOrBelow.refl t x⟩
      · exact ⟨s, rfl, (habove x hx).atOrBelow⟩

/-- A list of names in the store without repetition is no longer than the store. -/
lemma length_le_size {l : List NodeId} (hnd : l.Nodup) (hlt : ∀ x ∈ l, x < t.size) :
    l.length ≤ t.size := by
  have hsub : l.toFinset ⊆ Finset.range t.size := fun x hx =>
    Finset.mem_range.2 (hlt x (List.mem_toFinset.1 hx))
  have hcard := Finset.card_le_card hsub
  rwa [List.toFinset_card_of_nodup hnd, Finset.card_range] at hcard

/-- The chain above a node is shorter than the store: the node itself is not on it. -/
lemma length_chain_lt (h : t.WellLinked) (hx : x < t.size) (n : Nat) :
    (t.chain n (t.parent? x)).length < t.size := by
  obtain ⟨hnd, hmem⟩ := h.nodup_chain n (t.parent? x)
  have habove : ∀ y ∈ t.chain n (t.parent? x), t.Below y x := by
    intro y hy
    obtain ⟨p, hp, hyp⟩ := hmem y hy
    exact hyp.trans_below (below_of_parent hp)
  have hcons : (x :: t.chain n (t.parent? x)).Nodup :=
    List.nodup_cons.2 ⟨fun hx => h.not_below_self (habove x hx), hnd⟩
  have hle := length_le_size (t := t) hcons (by
    intro y hy
    rcases List.mem_cons.1 hy with rfl | hy
    · exact hx
    · exact h.atOrBelow_lt (habove y hy).atOrBelow hx)
  exact Nat.lt_of_succ_le hle

end WellLinked

/-- A chain that ends before its limit does not grow with the limit. -/
lemma chain_stable {n : Nat} {start : Option NodeId} (h : (t.chain n start).length < n) :
    t.chain (n + 1) start = t.chain n start := by
  induction n generalizing start with
  | zero => simp at h
  | succ n ih =>
    cases start with
    | none => rfl
    | some s =>
      have hlt : (t.chain n (t.parent? s)).length < n := by
        simpa [chain] using h
      rw [chain, ih hlt, ← chain]

lemma ancestors_of_parent_none (h : t.parent? x = none) : t.ancestors x = [] := by
  rw [ancestors, h]
  cases t.size <;> rfl

namespace WellLinked

/-- The ancestors of a node are its parent and the ancestors of its parent. -/
lemma ancestors_eq (h : t.WellLinked) (hx : t.parent? x = some p) :
    t.ancestors x = p :: t.ancestors p := by
  obtain ⟨n, hn⟩ := Nat.exists_eq_succ_of_ne_zero (Nat.ne_zero_of_lt (lt_of_parent hx))
  have hlen := h.length_chain_lt (lt_of_parent hx) (n + 1)
  rw [hx, chain, List.length_cons, hn] at hlen
  rw [ancestors, ancestors, hx, hn, chain, chain_stable (by omega)]

lemma length_ancestors_lt (h : t.WellLinked) (hx : x < t.size) :
    (t.ancestors x).length < t.size := h.length_chain_lt hx t.size

/-- Induction from the root down: a fact passes from a node to its children. -/
lemma induction_from_top (h : t.WellLinked) {P : NodeId → Prop} (top : ∀ x, t.parent? x = none → P x)
    (step : ∀ x p, t.parent? x = some p → P p → P x) : ∀ x, P x := by
  intro x
  induction x using h.chains_end.induction with
  | _ x ih =>
    rcases hx : t.parent? x with _ | p
    · exact top x hx
    · exact step x p hx (ih p hx)

/-- Induction from the leaves up: a fact passes from all children of a node to the node. -/
lemma induction_from_leaves (h : t.WellLinked) {P : NodeId → Prop}
    (step : ∀ x, (∀ c ∈ t.children x, P c) → P x) : ∀ x, P x := by
  -- the further down a node, the longer the list of its ancestors, which the size bounds
  have hrank : ∀ n x, t.size - (t.ancestors x).length ≤ n → P x := by
    intro n
    induction n with
    | zero =>
      intro x hx
      refine step x fun c hc => ?_
      have hlt := h.length_ancestors_lt (h.child_lt hc)
      rw [h.ancestors_eq (h.parent_of_mem hc), List.length_cons] at hlt
      omega
    | succ n ih =>
      intro x hx
      refine step x fun c hc => ih c ?_
      have hlt := h.length_ancestors_lt (h.child_lt hc)
      rw [h.ancestors_eq (h.parent_of_mem hc), List.length_cons] at hlt ⊢
      omega
  exact fun x => hrank _ x le_rfl

lemma mem_ancestors_iff (h : t.WellLinked) : a ∈ t.ancestors x ↔ t.Below a x := by
  induction x using h.induction_from_top with
  | top x hx =>
    rw [ancestors_of_parent_none hx, below_iff, hx]
    simp
  | step x p hx ih =>
    rw [h.ancestors_eq hx, List.mem_cons, ih, below_of_parent_iff hx, atOrBelow_iff, eq_comm]

/-- Further down there are more ancestors. -/
lemma length_ancestors_of_below (h : t.WellLinked) (hax : t.Below a x) :
    (t.ancestors a).length < (t.ancestors x).length := by
  induction x using h.induction_from_top with
  | top x hx => exact absurd hax (not_below_of_parent_none hx)
  | step x p hx ih =>
    rw [h.ancestors_eq hx, List.length_cons]
    rcases atOrBelow_iff.1 ((below_of_parent_iff hx).1 hax) with rfl | hap
    · exact Nat.lt_succ_self _
    · exact (ih hap).trans (Nat.lt_succ_self _)

lemma isAncestorOrSelf_iff (h : t.WellLinked) :
    t.isAncestorOrSelf a x = true ↔ t.AtOrBelow a x := by
  rw [isAncestorOrSelf, List.contains_iff_mem, ancestorsOrSelf, List.mem_cons,
    h.mem_ancestors_iff, atOrBelow_iff, eq_comm]

/-- The last node on the chain upwards has no parent and is above the node that the chain starts
from. -/
lemma getLast_ancestorsOrSelf (h : t.WellLinked) (x : NodeId) :
    ∃ top, (t.ancestorsOrSelf x).getLast? = some top ∧ t.parent? top = none ∧
      t.AtOrBelow top x := by
  induction x using h.induction_from_top with
  | top x hx =>
    refine ⟨x, ?_, hx, AtOrBelow.refl t x⟩
    rw [ancestorsOrSelf, ancestors_of_parent_none hx, List.getLast?_singleton]
  | step x p hx ih =>
    obtain ⟨top, hlast, hnone, habove⟩ := ih
    refine ⟨top, ?_, hnone, habove.trans (below_of_parent hx).atOrBelow⟩
    rw [ancestorsOrSelf, h.ancestors_eq hx, List.getLast?_cons_cons]
    exact hlast

lemma isAttached_iff (h : t.WellLinked) : t.isAttached x = true ↔ t.AtOrBelow t.root x := by
  obtain ⟨top, hlast, hnone, habove⟩ := h.getLast_ancestorsOrSelf x
  rw [isAttached, decide_eq_true_eq, hlast, Option.some.injEq]
  refine ⟨fun hroot => hroot ▸ habove, fun hroot => ?_⟩
  rcases habove.total hroot with hle | hle
  · exact (h.atOrBelow_root.1 hle)
  · exact (atOrBelow_of_parent_none hnone).1 hle

end WellLinked

/-! ### Deciding whether a tree is well-linked -/

/-- A chain of parents that is shorter than its limit ends. -/
lemma acc_of_length_chain_lt {n : Nat} {start : Option NodeId}
    (h : (t.chain n start).length < n) : ∀ s ∈ start, Acc t.IsParent s := by
  induction n generalizing start with
  | zero => exact absurd h (Nat.not_lt_zero _)
  | succ n ih =>
    intro s hs
    obtain rfl := hs
    have hlt : (t.chain n (t.parent? s)).length < n := by simpa [chain] using h
    exact Acc.intro s fun p hp => ih hlt p hp

lemma wellLinked_iff : t.WellLinked ↔
    (∀ p < t.size, ∀ c ∈ t.children p, t.parent? c = some p) ∧
    (∀ c < t.size, ∀ p ∈ t.parent? c, c ∈ t.children p) ∧
    (∀ p < t.size, (t.children p).Nodup) ∧
    (∀ x < t.size, (t.ancestors x).length < t.size) ∧
    t.root < t.size ∧ t.parent? t.root = none := by
  constructor
  · intro h
    exact ⟨fun p _ c hc => h.parent_of_mem hc, fun c _ p hp => h.mem_of_parent hp,
      fun p _ => h.nodup_children p, fun x hx => h.length_chain_lt hx t.size, h.root_lt,
      h.root_parent⟩
  · rintro ⟨hdown, hup, hnd, hlen, hroot, hnone⟩
    refine ⟨fun p c => ⟨fun hc => hdown p (lt_of_mem_children hc) c hc,
      fun hp => hup c (lt_of_parent hp) p hp⟩, fun p => ?_, ⟨fun x => ?_⟩, hroot, hnone⟩
    · by_cases hp : p < t.size
      · exact hnd p hp
      · rw [children, node_of_le (not_lt.1 hp)]
        exact List.nodup_nil
    · refine Acc.intro x fun p hp => ?_
      exact acc_of_length_chain_lt (hlen x (lt_of_parent hp)) p hp

instance (t : Tree) : Decidable t.WellLinked := decidable_of_iff _ wellLinked_iff.symm

lemma wellLinked_single (k : Kind) : (single k).WellLinked := by
  have hzero : ∀ x < (single k).size, x = 0 := fun x hx => Nat.lt_one_iff.1 hx
  refine wellLinked_iff.2 ⟨fun p hp c hc => ?_, fun c hc p hp => ?_, fun p hp => ?_, fun x hx => ?_,
    Nat.one_pos, rfl⟩
  · obtain rfl := hzero p hp
    exact absurd hc List.not_mem_nil
  · obtain rfl := hzero c hc
    exact absurd hp (Option.not_mem_none p)
  · obtain rfl := hzero p hp
    exact List.nodup_nil
  · obtain rfl := hzero x hx
    exact Nat.one_pos

end VariantFold.Tree
