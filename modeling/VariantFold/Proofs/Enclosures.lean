/-
Around a node, through groups.

Two ways lead through groups.  The way up from a node passes groups until it comes to something else or to a
node at which it is to stop; the way down from a node opens groups that have a single content.  Both come to
an end in a well-linked tree.  Where they meet, the node at the lower end is all that the upper one contains:
`Encloses t p x` says so of the path between the two, without either way.

The main results are `nearestNonGroup_result` and `soleContentParent_encloses`.
-/
import VariantFold.Proofs.Operands

namespace VariantFold.Tree

variable {t : Tree} {p x y : NodeId} {stop : Option NodeId}

/-! ### The way up -/

lemma WellLinked.nearestNonGroup_eq_none_iff (h : t.WellLinked) :
    t.nearestNonGroup x stop = none ↔ stop = none ∧ t.PassesAll stop x := by
  have hpasses : t.PassesAll stop x ↔ ((t.ancestors x).find? fun a =>
      decide (some a = stop) || decide (t.kind a ≠ .group)) = none := by
    rw [PassesAll, List.find?_eq_none]
    refine forall_congr' fun g => ?_
    rw [h.mem_ancestors_iff]
    simp [and_comm]
  rw [nearestNonGroup, hpasses]
  cases (t.ancestors x).find? fun a => decide (some a = stop) || decide (t.kind a ≠ .group) with
  | none => simp
  | some a => simp

/-- The answer to the question for the nearest ancestor that is not a group or at which to stop.  If it is a
node, the way up ends there, or else the way up passes all that is above, and the answer is the node at which
it was to stop.  There is no answer exactly if the way up passes all that is above and there was no such node.
So if the way is to stop at an ancestor, or nowhere, the answer is where the way up ends. -/
theorem nearestNonGroup_result (h : t.WellLinked) (x : NodeId) (stop : Option NodeId) :
    (∀ r, t.nearestNonGroup x stop = some r ↔
      t.EndsAt stop x r ∨ stop = some r ∧ t.PassesAll stop x) ∧
    (t.nearestNonGroup x stop = none ↔ stop = none ∧ t.PassesAll stop x) ∧
    ((∀ s, stop = some s → t.Below s x) →
      (∀ r, t.nearestNonGroup x stop = some r ↔ t.EndsAt stop x r) ∧
      (t.nearestNonGroup x stop = none ↔ t.PassesAll stop x)) := by
  refine ⟨fun r => h.nearestNonGroup_eq_some_iff, h.nearestNonGroup_eq_none_iff, fun habove => ?_⟩
  have hreach : ∀ r, stop = some r → ¬ t.PassesAll stop x := by
    intro r hr hall
    exact (hall r (habove r hr)).2 hr.symm
  constructor
  · intro r
    rw [h.nearestNonGroup_eq_some_iff, or_iff_left fun hr => hreach r hr.1 hr.2]
  · rw [h.nearestNonGroup_eq_none_iff]
    refine and_iff_right_of_imp fun hall => ?_
    cases stop with
    | none => rfl
    | some s => exact absurd hall (hreach s rfl)

/-- A constant in two groups, with a comment beside the inner one, in the slot of an expression; and apart
from it a block in a group that belongs to nothing. -/
def groupedConstant : Tree where
  root := 0
  nodes := ⟨#[
    { kind := .file, children := [1] },
    { kind := .expression, children := [2], parent := some 0 },
    { kind := .group, children := [5, 3], parent := some 1 },
    { kind := .group, children := [4], parent := some 2 },
    { kind := .constant, parent := some 3 },
    { kind := .comment, parent := some 2 },
    { kind := .group, children := [7] },
    { kind := .block, parent := some 6 }]⟩

theorem nearestNonGroup_result_groupedConstant :
    groupedConstant.WellLinked ∧ groupedConstant.EndsAt none 4 1 ∧
    groupedConstant.EndsAt (some 2) 4 2 ∧ groupedConstant.PassesAll none 7 := by
  have h : groupedConstant.WellLinked := by decide
  refine ⟨h, ?_, ?_, ?_⟩
  · exact (((nearestNonGroup_result h 4 none).2.2 (by simp)).1 1).1 (by decide)
  · refine (((nearestNonGroup_result h 4 (some 2)).2.2 ?_).1 2).1 (by decide)
    rintro s ⟨rfl⟩
    exact h.mem_ancestors_iff.1 (by decide)
  · exact ((nearestNonGroup_result h 7 none).2.1.1 (by decide)).2

/-- All that is above the block is a group, and none of it is the constant; still the answer is the constant,
which is not above the block. -/
theorem nearestNonGroup_elsewhere :
    groupedConstant.WellLinked ∧ groupedConstant.PassesAll (some 4) 7 ∧
    groupedConstant.nearestNonGroup 7 (some 4) = some 4 ∧ ¬ groupedConstant.Below 4 7 := by
  have h : groupedConstant.WellLinked := by decide
  have habove : ∀ g, groupedConstant.Below g 7 → g = 6 := by
    intro g hg
    have hmem := h.mem_ancestors_iff.2 hg
    rw [show groupedConstant.ancestors 7 = [6] from by decide] at hmem
    exact List.mem_singleton.1 hmem
  refine ⟨h, ?_, by decide, fun hbelow => absurd (habove 4 hbelow) (by decide)⟩
  intro g hg
  obtain rfl := habove g hg
  decide

/-! ### The way down -/

/-- There are only groups between `x` and `p` above it, which is not one, and `p` and all of them have a
single content: the next on the way to `x`. -/
structure Encloses (t : Tree) (p x : NodeId) : Prop where
  lies_below : t.Below p x
  kind_ne : t.kind p ≠ .group
  groups : ∀ g, t.Below p g → t.Below g x → t.kind g = .group
  single : ∀ g, t.AtOrBelow p g → t.Below g x → ∃ next, t.contents g = [next] ∧ t.AtOrBelow next x

/-- The node above a node that is enclosed has no other content. -/
lemma Encloses.contents_eq (e : t.Encloses p x) (h : t.WellLinked) (hy : t.parent? x = some y) :
    t.contents y = [x] := by
  obtain ⟨next, hnext, hle⟩ :=
    e.single y ((below_of_parent_iff hy).1 e.lies_below) (below_of_parent hy)
  rcases atOrBelow_iff.1 hle with rfl | hbelow
  · exact hnext
  · exact absurd ((below_of_parent_iff hy).1 hbelow)
      (h.not_atOrBelow_of_below (below_of_parent (h.parent_of_contents hnext)))

/-- What is enclosed is the sole content. -/
lemma WellLinked.encloses_iff (h : t.WellLinked) :
    t.Encloses p x ↔ t.SoleContent p x ∧ t.kind p ≠ .group := by
  constructor
  · intro e
    obtain ⟨y, hy, -⟩ := below_iff.1 e.lies_below
    have hx := (mem_of_contents (e.contents_eq h hy)).2
    refine ⟨(h.soleContent_iff hx).2 ⟨e.lies_below, fun g hpg hgx => ⟨?_, fun hne => ?_⟩⟩, e.kind_ne⟩
    · obtain ⟨next, hnext, -⟩ := e.single g hpg hgx
      rw [hnext]
      rfl
    · exact e.groups g (h.below_iff_ne.2 ⟨hpg, hne⟩) hgx
  · rintro ⟨s, hp⟩
    have hx := s.isComment_eq
    obtain ⟨hpx, hall⟩ := (h.soleContent_iff hx).1 s
    have hgroups : ∀ g, t.Below p g → t.Below g x → t.kind g = .group := by
      intro g hpg hgx
      exact (hall g hpg.atOrBelow hgx).2 fun heq => h.not_below_self (heq ▸ hpg)
    refine ⟨hpx, hp, hgroups, fun g hpg hgx => ?_⟩
    -- the child on the way to `x` is `x` or a group, and so no comment
    obtain ⟨next, hnext, hle⟩ := Relation.TransGen.head'_iff.1 hgx
    refine ⟨next, contents_of_length (mem_contents.2 ⟨h.mem_of_parent hnext, ?_⟩) (hall g hpg hgx).1, hle⟩
    rcases atOrBelow_iff.1 hle with rfl | hbelow
    · exact hx
    · rw [hgroups next (hpg.trans_below (below_of_parent hnext)) hbelow]
      rfl

/-- The way down does not end at a group with a single content if it may be long enough. -/
lemma WellLinked.not_isWrapper_unwrap (h : t.WellLinked) {k : Nat}
    (hk : t.size ≤ k + (t.ancestors y).length) : ¬ t.IsWrapper (t.unwrap k y) := by
  induction k generalizing y with
  | zero =>
    rintro ⟨hkind, -⟩
    rw [Nat.zero_add] at hk
    -- nothing in the store has as many ancestors
    have hy : t.size ≤ y := not_lt.1 fun hlt => absurd (h.length_ancestors_lt hlt) (not_lt.2 hk)
    rw [unwrap, kind, node_of_le hy] at hkind
    exact absurd hkind (by decide)
  | succ k ih =>
    by_cases hy : t.IsWrapper y
    · obtain ⟨hkind, hlen⟩ := hy
      obtain ⟨z, hz⟩ := List.length_eq_one_iff.1 hlen
      rw [unwrap, if_pos hkind, hz]
      refine ih ?_
      rw [h.ancestors_eq (h.parent_of_contents hz), List.length_cons]
      omega
    · rwa [unwrap_of_not_isWrapper hy]

/-- Which node has a node for its only content, through groups: exactly the one that encloses it, if there is
one.  The way up from the node comes to an end, and so does the way down from any node, at something that is
no group with a single content; and from a node that is enclosed the way up leads to what encloses it, and
from the only content of that the way down leads back. -/
theorem soleContentParent_encloses (h : t.WellLinked) (hx : ¬ t.IsWrapper x) :
    (∀ p, t.soleContentParent x = some p ↔ t.Encloses p x) ∧
    (t.soleContentParent x = none ↔ ∀ p, ¬ t.Encloses p x) ∧
    (∃ top, (t.ancestorsOrSelf x).getLast? = some top ∧ t.parent? top = none) ∧
    (∀ y, t.OpensTo y (t.skipGroups y) ∧ ¬ t.IsWrapper (t.skipGroups y)) ∧
    ∀ p, t.Encloses p x →
      t.nearestNonGroup x none = some p ∧ ∃ y, t.contents p = [y] ∧ t.skipGroups y = x := by
  have hsome : ∀ p, t.soleContentParent x = some p ↔ t.Encloses p x := by
    intro p
    rw [h.encloses_iff]
    constructor
    · intro hp
      have hnearest := (soleContentParent_eq_some_iff.1 hp).1
      exact ⟨soleContent_of_soleContentParent hp, (h.below_of_nearestNonGroup hnearest).2⟩
    · rintro ⟨s, hp⟩
      exact s.soleContentParent_eq h hp hx
  refine ⟨hsome, ?_, ?_, fun y => ⟨opensTo_unwrap t t.size y, ?_⟩, fun p hp => ?_⟩
  · rw [Option.eq_none_iff_forall_ne_some]
    exact forall_congr' fun p => not_congr (hsome p)
  · obtain ⟨top, hlast, hnone, -⟩ := h.getLast_ancestorsOrSelf x
    exact ⟨top, hlast, hnone⟩
  · exact h.not_isWrapper_unwrap (Nat.le_add_right _ _)
  · exact soleContentParent_eq_some_iff.1 ((hsome p).2 hp)

theorem soleContentParent_encloses_groupedConstant :
    groupedConstant.WellLinked ∧ ¬ groupedConstant.IsWrapper 4 ∧ groupedConstant.Encloses 1 4 ∧
    ¬ groupedConstant.IsWrapper 5 ∧ ∀ p, ¬ groupedConstant.Encloses p 5 := by
  have h : groupedConstant.WellLinked := by decide
  have hconstant : ¬ groupedConstant.IsWrapper 4 := fun w => absurd w.1 (by decide)
  have hcomment : ¬ groupedConstant.IsWrapper 5 := fun w => absurd w.1 (by decide)
  refine ⟨h, hconstant, ?_, hcomment, ?_⟩
  · exact ((soleContentParent_encloses h hconstant).1 1).1 (by decide)
  · exact (soleContentParent_encloses h hcomment).2.1.1 (by decide)

end VariantFold.Tree
