/-
Contents, with groups around them.

Groups and comments make no difference to what a condition is.  `SoleContent t p x` says that `x` is all
that `p` contains, once the comments are left out and the groups with a single content are opened.  From
`x` the way up through the groups leads to `p`, and from `p` the way down leads to `x`; so a node that is
all that the slot of a condition contains is the condition (`SoleContent.enclosingIf_eq`), and literals
that are all that the slots of an operation contain are compared (`Compares.comparison?_eq`).
-/
import VariantFold.Proofs.Local
import VariantFold.Proofs.Rewrite

namespace VariantFold.Tree

variable {t t₁ : Tree} {e g loop n p q x y : NodeId} {post pre : List NodeId}

/-- The node `x` is the only content of `p`, or of the last of some groups, each of which is the only
content of the one before and the first the only content of `p`. -/
inductive SoleContent (t : Tree) : NodeId → NodeId → Prop
  | direct {p x : NodeId} (hp : t.contents p = [x]) : SoleContent t p x
  | group {p g x : NodeId} (hp : t.contents p = [g]) (hkind : t.kind g = .group)
      (inside : SoleContent t g x) : SoleContent t p x

/-! ### Up and down -/

/-- A child in the row of the children. -/
lemma exists_row (hx : x ∈ t.children p) : ∃ pre post, t.children p = pre ++ [x] ++ post := by
  obtain ⟨pre, post, hp⟩ := List.append_of_mem hx
  exact ⟨pre, post, by rw [hp, List.append_assoc, List.singleton_append]⟩

lemma mem_of_contents (hp : t.contents p = [x]) :
    x ∈ t.children p ∧ (t.kind x).isComment = false :=
  mem_contents.1 (hp ▸ List.mem_singleton_self x)

lemma WellLinked.parent_of_contents (h : t.WellLinked) (hp : t.contents p = [x]) :
    t.parent? x = some p :=
  h.parent_of_mem (mem_of_contents hp).1

/-- One step up: a group is passed unless the way is to stop there, and the way ends at anything else. -/
lemma WellLinked.nearestNonGroup_step (h : t.WellLinked) (hp : t.parent? x = some p)
    (stop : Option NodeId) :
    t.nearestNonGroup x stop =
      if some p = stop ∨ t.kind p ≠ .group then some p else t.nearestNonGroup p stop := by
  rw [nearestNonGroup, h.ancestors_eq hp]
  split_ifs with hstop
  · rw [List.find?_cons_of_pos (by simpa using hstop)]
  · rw [List.find?_cons_of_neg (by simpa using hstop)]
    rfl

lemma WellLinked.nearestNonGroup_child (h : t.WellLinked) (hp : t.parent? x = some p) :
    t.nearestNonGroup x none = if t.kind p = .group then t.nearestNonGroup p none else some p := by
  rw [h.nearestNonGroup_step hp]
  by_cases hk : t.kind p = .group <;> simp [hk]

/-- A group with a single content. -/
def IsWrapper (t : Tree) (x : NodeId) : Prop := t.kind x = .group ∧ (t.contents x).length = 1

/-- The way down ends at anything else. -/
lemma unwrap_of_not_isWrapper (hx : ¬ t.IsWrapper x) (k : Nat) : t.unwrap k x = x := by
  cases k with
  | zero => rfl
  | succ k =>
    rw [unwrap]
    split_ifs with hkind
    · rcases hc : t.contents x with _ | ⟨y, _ | ⟨z, rest⟩⟩
      · rfl
      · exact absurd ⟨hkind, by rw [hc]; rfl⟩ hx
      · rfl
    · rfl

namespace SoleContent

lemma isComment_eq (s : t.SoleContent p x) : (t.kind x).isComment = false := by
  induction s with
  | direct hp => exact (mem_of_contents hp).2
  | group _ _ _ ih => exact ih

lemma lies_below (s : t.SoleContent p x) (h : t.WellLinked) : t.Below p x := by
  induction s with
  | direct hp => exact below_of_parent (h.parent_of_contents hp)
  | group hp _ _ ih => exact (below_of_parent (h.parent_of_contents hp)).trans_left ih.atOrBelow

/-- The row that a sole content is in. -/
lemma row (s : t.SoleContent p x) (h : t.WellLinked) :
    ∃ q left right, t.children q = left ++ [x] ++ right := by
  obtain ⟨q, hq, -⟩ := below_iff.1 (s.lies_below h)
  exact ⟨q, exists_row (h.mem_of_parent hq)⟩

lemma nearestNonGroup_eq (s : t.SoleContent p x) (h : t.WellLinked) :
    t.nearestNonGroup x none = if t.kind p = .group then t.nearestNonGroup p none else some p := by
  induction s with
  | direct hp => exact h.nearestNonGroup_child (h.parent_of_contents hp)
  | group hp hkind _ ih => rw [ih, if_pos hkind, h.nearestNonGroup_child (h.parent_of_contents hp)]

/-- The way down ends at the content if it is long enough; ways are measured by numbers of ancestors. -/
lemma unwrap_eq (s : t.SoleContent p x) (h : t.WellLinked) (hx : ¬ t.IsWrapper x) :
    ∃ y, t.contents p = [y] ∧ ∀ k, (t.ancestors x).length ≤ k + (t.ancestors y).length →
      t.unwrap k y = x := by
  induction s with
  | @direct p x hp =>
    exact ⟨x, hp, fun k _ => unwrap_of_not_isWrapper hx k⟩
  | @group p g x hp hkind inside ih =>
    obtain ⟨y, hg, hunwrap⟩ := ih hx
    refine ⟨g, hp, fun k hk => ?_⟩
    have hlt := h.length_ancestors_of_below (inside.lies_below h)
    obtain ⟨k, rfl⟩ : ∃ m, k = m + 1 := ⟨k - 1, by omega⟩
    have hy : (t.ancestors y).length = (t.ancestors g).length + 1 := by
      rw [h.ancestors_eq (h.parent_of_contents hg), List.length_cons]
    rw [unwrap, if_pos hkind, hg]
    exact hunwrap k (by omega)

/-- Down through the groups. -/
lemma skipGroups_eq (s : t.SoleContent p x) (h : t.WellLinked) (hx : ¬ t.IsWrapper x) :
    ∃ y, t.contents p = [y] ∧ t.skipGroups y = x := by
  obtain ⟨y, hcontents, hunwrap⟩ := s.unwrap_eq h hx
  have hlt := h.length_ancestors_lt (s.lies_below h).lt
  exact ⟨y, hcontents, hunwrap t.size (by omega)⟩

/-- Up through the groups and down again leads back. -/
lemma soleContentParent_eq (s : t.SoleContent p x) (h : t.WellLinked) (hp : t.kind p ≠ .group)
    (hx : ¬ t.IsWrapper x) : t.soleContentParent x = some p := by
  refine soleContentParent_eq_some_iff.2 ⟨?_, s.skipGroups_eq h hx⟩
  rw [s.nearestNonGroup_eq h, if_neg hp]

/-- What is all that the slot of a condition contains is the condition of the `if` statement. -/
lemma enclosingIf_eq (s : t.SoleContent e x) (h : t.WellLinked) (hx : t.kind x ≠ .group)
    (hslot : t.IsSlotOf e loop .expression .loop Attr.loopType Build.ifType) :
    t.enclosingIf x = some loop := by
  have hslotkind : t.kind e ≠ .group := by simp [hslot.kind_slot]
  rw [enclosingIf, s.soleContentParent_eq h hslotkind fun w => hx w.1]
  dsimp only
  rw [slotOwner, if_pos hslot.kind_slot, hslot.parent_eq]
  exact if_pos ⟨hslot.kind_owner, hslot.mark⟩

/-- In the slot of a condition there is nothing to compare with. -/
lemma comparison?_eq_none (s : t.SoleContent e x) (h : t.WellLinked)
    (hk : t.kind e = .expression) : t.comparison? x = none := by
  rw [comparison?, s.nearestNonGroup_eq h, if_neg (by simp [hk]), Option.bind_eq_bind,
    Option.bind_some, hk]
  rfl

end SoleContent

/-! ### Contents that change -/

/-- All that stands around a sole content are comments. -/
lemma comments_around (hp : t.contents p = [x]) (hchildren : t.children p = pre ++ [x] ++ post)
    (hy : y ∈ pre ∨ y ∈ post) : (t.kind y).isComment = true := by
  have hlength := congrArg List.length hp
  rw [contents, hchildren, List.filter_append, List.filter_append, List.filter_singleton,
    (mem_of_contents hp).2] at hlength
  simp only [List.length_append, Bool.not_false, cond_true, List.length_singleton] at hlength
  have hpre : pre.filter (fun c => !(t.kind c).isComment) = [] :=
    List.eq_nil_of_length_eq_zero (by omega)
  have hpost : post.filter (fun c => !(t.kind c).isComment) = [] :=
    List.eq_nil_of_length_eq_zero (by omega)
  rcases hy with hy | hy
  · simpa using List.filter_eq_nil_iff.1 hpre y hy
  · simpa using List.filter_eq_nil_iff.1 hpost y hy

lemma contents_of_comments (hchildren : t.children p = pre ++ [x] ++ post)
    (hx : (t.kind x).isComment = false)
    (haround : ∀ y, y ∈ pre ∨ y ∈ post → (t.kind y).isComment = true) : t.contents p = [x] := by
  have hpre : pre.filter (fun c => !(t.kind c).isComment) = [] :=
    List.filter_eq_nil_iff.2 fun y hy => by simp [haround y (Or.inl hy)]
  have hpost : post.filter (fun c => !(t.kind c).isComment) = [] :=
    List.filter_eq_nil_iff.2 fun y hy => by simp [haround y (Or.inr hy)]
  rw [contents, hchildren, List.filter_append, List.filter_append, hpre, hpost,
    List.filter_singleton, hx]
  rfl

/-- A content that gives way to another. -/
lemma LocalChange.contents_eq (l : t.LocalChange p pre [x] post t₁ [n])
    (hp : t.contents p = [x]) (hn : (t₁.kind n).isComment = false) : t₁.contents p = [n] := by
  refine contents_of_comments l.after hn fun y hy => ?_
  have hmem : y ∈ t.children p := by
    rw [l.before]
    simp only [List.mem_append]
    tauto
  rw [(l.label y (l.wellLinked_before.child_lt hmem)).kind_eq]
  exact comments_around hp l.before hy

/-- Where the sole content gives way to another node, that is the sole content. -/
lemma SoleContent.after_change (s : t.SoleContent e x) (l : t.LocalChange p pre [x] post t₁ [n])
    (hn : (t₁.kind n).isComment = false) : t₁.SoleContent e n := by
  have h := l.wellLinked_before
  induction s with
  | @direct e x he =>
    have hparent := h.parent_of_mem (l.mem_children (List.mem_singleton_self x))
    obtain rfl : e = p := Option.some_injective _ ((h.parent_of_contents he).symm.trans hparent)
    exact SoleContent.direct (l.contents_eq he hn)
  | @group e g x he hkind inside ih =>
    obtain ⟨left, right, hchildren⟩ := exists_row (mem_of_contents he).1
    have hparent := h.parent_of_mem (l.mem_children (List.mem_singleton_self x))
    have hle : t.AtOrBelow g p := (below_of_parent_iff hparent).1 (inside.lies_below h)
    have l' := l.up hchildren hle
    have hkind' : t₁.kind g = .group := by
      rw [(l.label g (h.child_lt (mem_of_contents he).1)).kind_eq, hkind]
    refine SoleContent.group (l'.contents_eq he ?_) hkind' (ih l)
    rw [hkind']
    rfl

lemma SameBelow.soleContent (hsame : t.SameBelow t₁ p) (h : t.WellLinked) (s : t.SoleContent p x) :
    t₁.SoleContent p x := by
  have hcontents : ∀ {q}, t.SameBelow t₁ q → t₁.contents q = t.contents q := by
    intro q hq
    obtain ⟨-, hchildren⟩ := hq q (AtOrBelow.refl t q)
    exact contents_congr hchildren fun c hc => (hq c (h.below_child hc).atOrBelow).1
  induction s with
  | direct hp => exact SoleContent.direct ((hcontents hsame).trans hp)
  | @group p g x hp hkind inside ih =>
    have hg := hsame.child h (mem_of_contents hp).1
    have hkind' : t₁.kind g = .group := (hg g (AtOrBelow.refl t g)).1.kind_eq.trans hkind
    exact SoleContent.group ((hcontents hsame).trans hp) hkind' (ih hg)

/-! ### Comparisons -/

variable {k k' : Kind} {operator : EqualityOperator} {left right : Scalar}
  {n' other otherSlot slot : NodeId}

/-- The operation `x` compares what two of its slots contain: `n` is all that one of them contains, and
`other` is all that the opposite one contains. -/
structure Compares (t : Tree) (x slot n : NodeId) (k : Kind) (otherSlot other : NodeId) (k' : Kind)
    (operator : EqualityOperator) : Prop where
  kind_operation : t.kind x = .operation
  operator_eq : (t.node x).str? Attr.operator = some operator.name
  opposite : oppositeSlot? k = some k'
  slot_mem : slot ∈ t.children x
  kind_slot : t.kind slot = k
  content : t.SoleContent slot n
  other_found : t.childOfKind? x k' = some otherSlot
  other_content : t.SoleContent otherSlot other

lemma EqualityOperator.ofName?_name (o : EqualityOperator) :
    EqualityOperator.ofName? o.name = some o := by
  cases o <;> decide

/-- Slots that are opposite to each other are no groups and are different. -/
lemma of_oppositeSlot? (h : oppositeSlot? k = some k') : k ≠ .group ∧ k ≠ k' := by
  rw [oppositeSlot?.eq_def] at h
  split at h
  · exact ⟨by simp, by rw [← Option.some_injective _ h]; simp⟩
  · exact ⟨by simp, by rw [← Option.some_injective _ h]; simp⟩
  · exact absurd h (by simp)

/-- Only constants denote scalars. -/
lemma kind_of_decode (h : (t.node x).decode? = some left) : t.kind x = .constant := by
  by_contra hk
  have hnone : (t.node x).constantType? = none := by
    rw [Node.constantType?, Node.isConstant, if_neg (by simpa [kind] using hk)]
  rw [Node.decode?, hnone] at h
  exact absurd h (by simp)

namespace Compares

variable (c : t.Compares x slot n k otherSlot other k' operator)
include c

lemma slot_ne : slot ≠ otherSlot := by
  rintro rfl
  exact (of_oppositeSlot? c.opposite).2 (c.kind_slot.symm.trans (childOfKind?_some c.other_found).2)

/-- A comparison of literals has an outcome. -/
lemma comparison?_eq (h : t.WellLinked) (hleft : (t.node n).decode? = some left)
    (hright : (t.node other).decode? = some right) :
    t.comparison? n =
      some ⟨x, operator.apply (comparisonOperand left) (comparisonOperand right)⟩ := by
  have hslot : t.kind slot ≠ .group := c.kind_slot ▸ (of_oppositeSlot? c.opposite).1
  have hkother : t.kind other ≠ .group := by simp [kind_of_decode hright]
  obtain ⟨y, hcontents, hskip⟩ := c.other_content.skipGroups_eq h fun w => hkother w.1
  rw [comparison?, c.content.nearestNonGroup_eq h, if_neg hslot]
  simp only [Option.bind_eq_bind, Option.bind_some, c.kind_slot, c.opposite,
    h.parent_of_mem c.slot_mem, c.kind_operation, if_true, c.operator_eq,
    EqualityOperator.ofName?_name, c.other_found, hcontents, List.head?_cons, hleft, hskip, hright,
    Option.pure_def]

/-- What is compared can change. -/
lemma after_change (l : t.LocalChange p pre [n] post t₁ [n'])
    (hn : (t₁.kind n').isComment = false) :
    t₁.Compares x slot n' k otherSlot other k' operator := by
  have h := l.wellLinked_before
  obtain ⟨before, after, hchildren⟩ := exists_row c.slot_mem
  have hparent := h.parent_of_mem (l.mem_children (List.mem_singleton_self n))
  have hle : t.AtOrBelow slot p := (below_of_parent_iff hparent).1 (c.content.lies_below h)
  have l' := l.up hchildren hle
  have hsame : t₁.children x = t.children x := l'.after.trans l'.before.symm
  have hlabel : ∀ y ∈ t.children x, t.SameLabel t₁ y := fun y hy => l.label y (h.child_lt hy)
  have hx := l.label x (lt_of_mem_children c.slot_mem)
  have hother := (childOfKind?_some c.other_found).1
  refine ⟨?_, ?_, c.opposite, hsame ▸ c.slot_mem, ?_, c.content.after_change l hn, ?_, ?_⟩
  · rw [hx.kind_eq, c.kind_operation]
  · rw [hx.str?_eq, c.operator_eq]
  · rw [(hlabel slot c.slot_mem).kind_eq, c.kind_slot]
  · rw [childOfKind?_congr hsame hlabel, c.other_found]
  · refine SameBelow.soleContent (l'.sameBelow_sibling ?_) h c.other_content
    rw [hchildren] at hother
    simp only [List.mem_append, List.mem_singleton] at hother
    have hne := c.slot_ne
    tauto

end Compares

end VariantFold.Tree
