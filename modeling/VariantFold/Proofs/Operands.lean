/-
The operands of a comparison that is carried out.

A literal is compared if there are only groups between it and a slot of an operation, and if the first
content of the opposite slot is a literal once groups with a single content are opened.  This is all that
is asked for (`WellLinked.comparison?_iff`).  What else the groups around the literal or the opposite slot
contain plays no part in the outcome and goes with the operation (`foldEquality_effect`): only if there is
nothing else are the two literals all that the slots contain.
-/
import VariantFold.Proofs.Groups
import VariantFold.Proofs.InPlace
import VariantFold.Proofs.Outcome
import VariantFold.Proofs.ReadBack

namespace VariantFold.Tree

variable {t t' u : Tree} {first folded g operation other otherSlot p q r slot x y : NodeId} {k : Kind}
  {left right : Scalar} {operator : EqualityOperator} {stop : Option NodeId}

/-! ### Up through groups -/

/-- The way up from `x` ends at `r`: it is to stop there, or `r` is not a group, and up to there it
passes only groups at which it is not to stop. -/
structure EndsAt (t : Tree) (stop : Option NodeId) (x r : NodeId) : Prop where
  lies_below : t.Below r x
  ends : some r = stop ∨ t.kind r ≠ .group
  passes : ∀ g, t.Below r g → t.Below g x → t.kind g = .group ∧ some g ≠ stop

/-- The way up from `x` passes all that is above. -/
def PassesAll (t : Tree) (stop : Option NodeId) (x : NodeId) : Prop :=
  ∀ g, t.Below g x → t.kind g = .group ∧ some g ≠ stop

/-- The end of the way up is the parent, or what the way up from the parent ends at. -/
lemma WellLinked.endsAt_iff (h : t.WellLinked) (hx : t.parent? x = some q) :
    t.EndsAt stop x r ↔ r = q ∧ (some q = stop ∨ t.kind q ≠ .group) ∨
      (t.kind q = .group ∧ some q ≠ stop) ∧ t.EndsAt stop q r := by
  constructor
  · intro e
    rcases atOrBelow_iff.1 ((below_of_parent_iff hx).1 e.lies_below) with rfl | hrq
    · exact Or.inl ⟨rfl, e.ends⟩
    · refine Or.inr ⟨e.passes q hrq (below_of_parent hx), hrq, e.ends, fun g hrg hgq => ?_⟩
      exact e.passes g hrg (hgq.trans_left (below_of_parent hx).atOrBelow)
  · rintro (⟨rfl, hends⟩ | ⟨hq, e⟩)
    · refine ⟨below_of_parent hx, hends, fun g hrg hgx => ?_⟩
      exact absurd ((below_of_parent_iff hx).1 hgx) (h.not_atOrBelow_of_below hrg)
    · refine ⟨e.lies_below.trans_left (below_of_parent hx).atOrBelow, e.ends, fun g hrg hgx => ?_⟩
      rcases atOrBelow_iff.1 ((below_of_parent_iff hx).1 hgx) with rfl | hgq
      · exact hq
      · exact e.passes g hrg hgq

lemma passesAll_iff (hx : t.parent? x = some q) :
    t.PassesAll stop x ↔ (t.kind q = .group ∧ some q ≠ stop) ∧ t.PassesAll stop q := by
  constructor
  · intro hall
    refine ⟨hall q (below_of_parent hx), fun g hgq => ?_⟩
    exact hall g (hgq.trans_left (below_of_parent hx).atOrBelow)
  · rintro ⟨hq, hall⟩ g hgx
    rcases atOrBelow_iff.1 ((below_of_parent_iff hx).1 hgx) with rfl | hgq
    · exact hq
    · exact hall g hgq

/-- The way up from a node leads to where it ends; if it passes all that is above, the answer is the node at
which it was to stop, though it does not come there. -/
lemma WellLinked.nearestNonGroup_eq_some_iff (h : t.WellLinked) :
    t.nearestNonGroup x stop = some r ↔
      t.EndsAt stop x r ∨ stop = some r ∧ t.PassesAll stop x := by
  induction x using h.induction_from_top with
  | top x hx =>
    have habove : ∀ g, ¬ t.Below g x := fun g => not_below_of_parent_none hx
    rw [nearestNonGroup, ancestors_of_parent_none hx]
    constructor
    · intro hstop
      exact Or.inr ⟨hstop, fun g hg => absurd hg (habove g)⟩
    · rintro (e | ⟨hstop, -⟩)
      · exact absurd e.lies_below (habove r)
      · exact hstop
  | step x q hx ih =>
    rw [h.nearestNonGroup_step hx, h.endsAt_iff hx, passesAll_iff hx]
    by_cases hq : some q = stop ∨ t.kind q ≠ .group
    · have hnot : ¬ (t.kind q = .group ∧ some q ≠ stop) := by
        rintro ⟨hkind, hne⟩
        exact hq.elim hne fun hk => hk hkind
      rw [if_pos hq, Option.some_inj, eq_comm]
      simp only [hq, hnot, and_true, false_and, and_false, or_false]
    · have hpass : t.kind q = .group ∧ some q ≠ stop := by
        rw [not_or, not_not] at hq
        exact hq.symm
      rw [if_neg hq, ih]
      simp [hpass]

/-- Without a node to stop at, the way up ends at the first ancestor that is not a group. -/
lemma WellLinked.nearestNonGroup_iff (h : t.WellLinked) :
    t.nearestNonGroup x none = some p ↔
      t.Below p x ∧ t.kind p ≠ .group ∧ ∀ g, t.Below p g → t.Below g x → t.kind g = .group := by
  rw [h.nearestNonGroup_eq_some_iff, or_iff_left (by simp)]
  constructor
  · intro e
    exact ⟨e.lies_below, by simpa using e.ends, fun g hpg hgx => (e.passes g hpg hgx).1⟩
  · rintro ⟨hpx, hp, hgroups⟩
    exact ⟨hpx, Or.inr hp, fun g hpg hgx => ⟨hgroups g hpg hgx, by simp⟩⟩

/-! ### Down through groups -/

lemma SoleContent.trans (s : t.SoleContent p g) (hkind : t.kind g = .group)
    (s' : t.SoleContent g x) : t.SoleContent p x := by
  induction s with
  | direct hp => exact SoleContent.group hp hkind s'
  | group hp hkind' _ ih => exact SoleContent.group hp hkind' (ih hkind s')

lemma contents_of_length (hx : x ∈ t.contents p) (hlen : (t.contents p).length = 1) :
    t.contents p = [x] := by
  obtain ⟨y, hy⟩ := List.length_eq_one_iff.1 hlen
  rw [hy, List.mem_singleton] at hx
  rw [hy, hx]

/-- A node is the sole content of one above it if from there down to the node everything has a single
content and is, but for the start, a group. -/
lemma WellLinked.soleContent_iff (h : t.WellLinked) (hx : (t.kind x).isComment = false) :
    t.SoleContent p x ↔ t.Below p x ∧ ∀ g, t.AtOrBelow p g → t.Below g x →
      (t.contents g).length = 1 ∧ (g ≠ p → t.kind g = .group) := by
  constructor
  · intro s
    refine ⟨s.lies_below h, ?_⟩
    induction s with
    | @direct p x hp =>
      intro g hpg hgx
      have hgp := (below_of_parent_iff (h.parent_of_contents hp)).1 hgx
      obtain rfl := h.antisymm hpg hgp
      exact ⟨by rw [hp]; rfl, fun hne => absurd rfl hne⟩
    | @group p g' x hp hkind inside ih =>
      intro g hpg hgx
      rcases atOrBelow_iff.1 hpg with rfl | hbelow
      · exact ⟨by rw [hp]; rfl, fun hne => absurd rfl hne⟩
      -- below the start everything is at or below its content
      have hle : t.AtOrBelow g' g := by
        rcases (inside.lies_below h).atOrBelow.total hgx.atOrBelow with hle | hle
        · exact hle
        · rcases atOrBelow_iff.1 hle with rfl | hgg
          · exact AtOrBelow.refl t g'
          · have hgp := (below_of_parent_iff (h.parent_of_contents hp)).1 hgg
            exact absurd hgp (h.not_atOrBelow_of_below hbelow)
      obtain ⟨hlen, hgroup⟩ := ih hx g hle hgx
      refine ⟨hlen, fun _ => ?_⟩
      by_cases heq : g = g'
      · rw [heq, hkind]
      · exact hgroup heq
  · rintro ⟨hpx, hall⟩
    -- from the top down, as long as there are groups on the way
    induction x using h.induction_from_top with
    | top x hparent => exact absurd hpx (not_below_of_parent_none hparent)
    | step x q hparent ih =>
      have hpq := (below_of_parent_iff hparent).1 hpx
      obtain ⟨hlen, hgroup⟩ := hall q hpq (below_of_parent hparent)
      have hq : t.contents q = [x] :=
        contents_of_length (mem_contents.2 ⟨h.mem_of_parent hparent, hx⟩) hlen
      rcases atOrBelow_iff.1 hpq with rfl | hpq
      · exact SoleContent.direct hq
      · have hkind := hgroup fun heq => h.not_below_self (heq ▸ hpq)
        refine (ih (by rw [hkind]; rfl) hpq ?_).trans hkind (SoleContent.direct hq)
        intro g hpg hgq
        exact hall g hpg (hgq.trans_left (below_of_parent hparent).atOrBelow)

/-- Once groups with a single content are opened, `y` is `x`. -/
def OpensTo (t : Tree) (y x : NodeId) : Prop := x = y ∨ t.kind y = .group ∧ t.SoleContent y x

lemma opensTo_unwrap (t : Tree) (n : Nat) (y : NodeId) : t.OpensTo y (t.unwrap n y) := by
  induction n generalizing y with
  | zero => exact Or.inl rfl
  | succ n ih =>
    rw [unwrap]
    by_cases hkind : t.kind y = .group
    · rw [if_pos hkind]
      rcases hy : t.contents y with _ | ⟨z, _ | ⟨z', rest⟩⟩
      · exact Or.inl rfl
      · refine Or.inr ⟨hkind, ?_⟩
        change t.SoleContent y (t.unwrap n z)
        rcases ih z with heq | ⟨hkind', s⟩
        · exact SoleContent.direct (by rw [hy, heq])
        · exact SoleContent.group hy hkind' s
      · exact Or.inl rfl
    · rw [if_neg hkind]
      exact Or.inl rfl

/-- The way down from a node ends at what the groups are around. -/
lemma WellLinked.skipGroups_iff (h : t.WellLinked) (hx : ¬ t.IsWrapper x) :
    t.skipGroups y = x ↔ t.OpensTo y x := by
  constructor
  · rintro rfl
    exact opensTo_unwrap t t.size y
  · rintro (rfl | ⟨hkind, s⟩)
    · exact unwrap_of_not_isWrapper hx t.size
    · obtain ⟨z, hy, hunwrap⟩ := s.unwrap_eq h hx
      have hlt := h.length_ancestors_lt (s.lies_below h).lt
      obtain ⟨n, hn⟩ : ∃ n, t.size = n + 1 := ⟨t.size - 1, by omega⟩
      rw [skipGroups, hn, unwrap, if_pos hkind, hy]
      exact hunwrap n (by omega)

/-- What the first content opens to is the sole content if there is no second one. -/
lemma OpensTo.soleContent_iff (o : t.OpensTo first x) (hfirst : (t.contents p).head? = some first) :
    t.SoleContent p x ↔ (t.contents p).length = 1 := by
  constructor
  · rintro (hp | ⟨hp, -, -⟩)
    · rw [hp]
      rfl
    · rw [hp]
      rfl
  · intro hlen
    have hp := contents_of_length (List.mem_of_mem_head? hfirst) hlen
    rcases o with rfl | ⟨hkind, s⟩
    · exact SoleContent.direct hp
    · exact SoleContent.group hp hkind s

lemma soleContent_of_soleContentParent (hx : t.soleContentParent x = some p) :
    t.SoleContent p x := by
  obtain ⟨-, y, hcontents, hskip⟩ := soleContentParent_eq_some_iff.1 hx
  rw [← hskip]
  exact ((opensTo_unwrap t t.size y).soleContent_iff (by rw [hcontents]; rfl)).2
    (by rw [hcontents]; rfl)

/-! ### What is compared with what -/

/-- There are only groups between `x` and a slot of the operation, and the first content of the opposite
slot opens to `other`. -/
structure Opposes (t : Tree) (operation slot x : NodeId) (k : Kind) (otherSlot first other : NodeId)
    (operator : EqualityOperator) : Prop where
  kind_operation : t.kind operation = .operation
  operator_eq : (t.node operation).str? Attr.operator = some operator.name
  opposite : oppositeSlot? (t.kind slot) = some k
  parent_slot : t.parent? slot = some operation
  lies_below : t.Below slot x
  groups : ∀ g, t.Below slot g → t.Below g x → t.kind g = .group
  other_found : t.childOfKind? operation k = some otherSlot
  first_content : (t.contents otherSlot).head? = some first
  opens : t.OpensTo first other

/-- The way up from what is compared ends at its slot. -/
lemma Opposes.nearestNonGroup_eq (o : t.Opposes operation slot x k otherSlot first other operator)
    (h : t.WellLinked) : t.nearestNonGroup x none = some slot :=
  h.nearestNonGroup_iff.2 ⟨o.lies_below, (of_oppositeSlot? o.opposite).1, o.groups⟩

lemma EqualityOperator.name_of_ofName? {s : String} (hs : EqualityOperator.ofName? s = some operator) :
    s = operator.name := by
  have hname := List.find?_some hs
  exact (of_decide_eq_true hname).symm

/-- A literal is compared exactly if a literal is opposite to it. -/
lemma WellLinked.comparison?_iff (h : t.WellLinked) {found : Comparison} :
    t.comparison? x = some found ↔ ∃ slot k otherSlot first other operator left right,
      t.Opposes found.operation slot x k otherSlot first other operator ∧
      (t.node x).decode? = some left ∧ (t.node other).decode? = some right ∧
      found.outcome = operator.apply (comparisonOperand left) (comparisonOperand right) := by
  constructor
  · intro hfound
    simp only [comparison?, Option.bind_eq_bind, Option.bind_eq_some_iff] at hfound
    obtain ⟨slot, hslot, k, hk, operation, hparent, hfound⟩ := hfound
    obtain ⟨hbelow, -, hgroups⟩ := h.nearestNonGroup_iff.1 hslot
    split at hfound
    · rename_i hkind
      simp only [Option.bind_eq_some_iff, Option.pure_def, Option.some.injEq] at hfound
      obtain ⟨operator, ⟨s, hs, hname⟩, otherSlot, hother, first, hfirst, left, hleft, right, hright,
        rfl⟩ := hfound
      rw [EqualityOperator.name_of_ofName? hname] at hs
      have hopens := opensTo_unwrap t t.size first
      exact ⟨slot, k, otherSlot, first, _, operator, left, right,
        ⟨hkind, hs, hk, hparent, hbelow, hgroups, hother, hfirst, hopens⟩, hleft, hright, rfl⟩
    · exact absurd hfound (by simp)
  · rintro ⟨slot, k, otherSlot, first, other, operator, left, right, o, hleft, hright, hout⟩
    have hskip : t.skipGroups first = other :=
      (h.skipGroups_iff (by simp [IsWrapper, kind_of_decode hright])).2 o.opens
    rw [comparison?, o.nearestNonGroup_eq h]
    simp only [Option.bind_eq_bind, Option.bind_some, o.opposite, o.parent_slot, o.kind_operation,
      if_true, o.operator_eq, EqualityOperator.ofName?_name, o.other_found, o.first_content, hleft,
      hskip, hright, Option.pure_def, ← hout]

/-- What is compared is all that its slot contains if nothing on the way has another content. -/
lemma Opposes.soleContent_iff (o : t.Opposes operation slot x k otherSlot first other operator)
    (h : t.WellLinked) (hx : (t.kind x).isComment = false) :
    t.SoleContent slot x ↔
      ∀ g, t.AtOrBelow slot g → t.Below g x → (t.contents g).length = 1 := by
  rw [h.soleContent_iff hx]
  constructor
  · rintro ⟨-, hall⟩ g hslot hgx
    exact (hall g hslot hgx).1
  · intro hall
    refine ⟨o.lies_below, fun g hslot hgx => ⟨hall g hslot hgx, fun hne => ?_⟩⟩
    exact o.groups g (h.below_iff_ne.2 ⟨hslot, hne⟩) hgx

/-! ### Carrying out a comparison -/

lemma of_foldEquality (hfold : Edit.foldEquality x t = .ok (some folded) t') :
    ∃ found u, t.comparison? x = some found ∧
      (Build.boolean found.outcome (t.node found.operation).line?).run t = (folded, u) ∧
      u.replaceWith found.operation [folded] = .ok t' := by
  rcases hfound : t.comparison? x with _ | found
  · rw [foldEquality_none hfound] at hfold
    exact absurd hfold (by simp)
  · rcases hrun : (Build.boolean found.outcome (t.node found.operation).line?).run t with ⟨n, u⟩
    rw [foldEquality_some hfound hrun] at hfold
    obtain ⟨_, t₁, hreplace, hpure⟩ := of_bind_ok hfold
    obtain ⟨hn, rfl⟩ := EStateM.Result.ok.inj hpure
    obtain rfl := Option.some_injective _ hn
    exact ⟨found, u, rfl, hrun, Edit.of_replaceWith_ok hreplace⟩

/-- A comparison that is found can be carried out wherever it is. -/
lemma WellLinked.foldEquality_takesPlace (h : t.WellLinked) {found : Comparison}
    (hfound : t.comparison? x = some found) :
    ∃ folded t', Edit.foldEquality x t = .ok (some folded) t' ∧
      t.TakesPlace found.operation folded t' ∧ t'.size = t.size + 1 ∧ t'.kind folded = .constant ∧
      t'.attributes folded =
        (Scalar.bool found.outcome).literalAttributes.withLine (t.node found.operation).line? := by
  obtain ⟨slot, -, hparent, -⟩ := h.comparison?_some hfound
  have hleaf := newLeaf_boolean h found.outcome (t.node found.operation).line?
  rcases hrun : (Build.boolean found.outcome (t.node found.operation).line?).run t with ⟨n, u⟩
  rw [hrun] at hleaf
  obtain ⟨t', hok, hplace, hsize, hkind, hattributes⟩ := hleaf.takesPlace h (h.parent_lt hparent)
  refine ⟨n, t', ?_, hplace, hsize, hkind, hattributes⟩
  rw [foldEquality_some hfound hrun, bind_ok (Edit.replaceWith_ok hok)]
  rfl

/-- What a comparison that is carried out leaves in the tree. -/
lemma WellLinked.attached_of_foldEquality (h : t.WellLinked) (hx : t.AtOrBelow t.root x)
    {found : Comparison} (hfound : t.comparison? x = some found)
    (hfold : Edit.foldEquality x t = .ok (some folded) t') (hy : y < t.size) :
    t'.AtOrBelow t'.root y ↔ t.AtOrBelow t.root y ∧ ¬ t.AtOrBelow found.operation y := by
  obtain ⟨found', u, hfound', hrun, hreplace⟩ := of_foldEquality hfold
  obtain rfl := Option.some_injective _ (hfound.symm.trans hfound')
  obtain ⟨t₁, hok, graft, -, -⟩ := h.fold_graft hx hfound hrun
  obtain rfl := Except.ok.inj (hok.symm.trans hreplace)
  have hnew : ¬ ∃ n ∈ [folded], t.AtOrBelow n y := by
    rintro ⟨n, hn, hle⟩
    have hlt := h.atOrBelow_lt hle hy
    have hleaf := newLeaf_boolean h found.outcome (t.node found.operation).line?
    rw [hrun] at hleaf
    rw [List.mem_singleton.1 hn] at hlt
    exact absurd hlt (not_lt.2 hleaf.le)
  rw [graft.attached_iff hy, or_iff_left hnew]

/-- Where a comparison is carried out in a well-linked tree, the literal stood in a slot of an operation
with only groups in between, and the first content of the opposite slot opened to the other literal.  The
literal of the outcome takes the place of the operation, and what is cut out is what was at or below the
operation.  The two literals were all that the slots contained exactly if the slots and the groups around
the first literal had a single content each; other contents are cut out with the operation. -/
theorem foldEquality_effect (h : t.WellLinked)
    (hfold : Edit.foldEquality x t = .ok (some folded) t') :
    ∃ operation slot k otherSlot first other operator left right,
      t.Opposes operation slot x k otherSlot first other operator ∧
      (t.node x).decode? = some left ∧ (t.node other).decode? = some right ∧
      t.TakesPlace operation folded t' ∧
      (t'.node folded).decode? =
        some (.bool (operator.apply (comparisonOperand left) (comparisonOperand right))) ∧
      (t.AtOrBelow t.root x → ∀ y < t.size,
        (t'.AtOrBelow t'.root y ↔ t.AtOrBelow t.root y ∧ ¬ t.AtOrBelow operation y)) ∧
      (t.SoleContent slot x ↔
        ∀ g, t.AtOrBelow slot g → t.Below g x → (t.contents g).length = 1) ∧
      (t.SoleContent otherSlot other ↔ (t.contents otherSlot).length = 1) := by
  obtain ⟨found, u, hfound, -, -⟩ := of_foldEquality hfold
  obtain ⟨slot, k, otherSlot, first, other, operator, left, right, o, hleft, hright, hout⟩ :=
    h.comparison?_iff.1 hfound
  obtain ⟨n, t₁, hfold', hplace, -, hkind, hattributes⟩ := h.foldEquality_takesPlace hfound
  obtain ⟨hn, rfl⟩ := EStateM.Result.ok.inj (hfold'.symm.trans hfold)
  obtain rfl := Option.some_injective _ hn
  have hx : (t.kind x).isComment = false := by
    rw [kind_of_decode hleft]
    rfl
  refine ⟨found.operation, slot, k, otherSlot, first, other, operator, left, right, o, hleft, hright,
    hplace, ?_, ?_, o.soleContent_iff h hx, o.opens.soleContent_iff o.first_content⟩
  · rw [Node.decode?_literal_withLine hkind hattributes rfl, hout]
  · intro hatt y hy
    exact h.attached_of_foldEquality hatt hfound hfold hy

/-- The comparison of a literal with another, where a call follows each of them: in a group around the
first, and in the slot of the second. -/
def comparisonWithCalls : Tree where
  root := 0
  nodes := ⟨#[
    { kind := .file, children := [1] },
    { kind := .operation, children := [2, 3], parent := some 0,
      attributes := KeyMap.empty.insert Attr.operator (.string EqualityOperator.eq.name) },
    { kind := .first, children := [4], parent := some 1 },
    { kind := .second, children := [5, 8], parent := some 1 },
    { kind := .group, children := [6, 7], parent := some 2 },
    { kind := .constant, parent := some 3, attributes := ConstantType.string.attributes "on" },
    { kind := .constant, parent := some 4, attributes := ConstantType.string.attributes "on" },
    { kind := .call, parent := some 4 },
    { kind := .call, parent := some 3 }]⟩

theorem foldEquality_effect_comparisonWithCalls :
    comparisonWithCalls.WellLinked ∧ ∃ t',
      Edit.foldEquality 6 comparisonWithCalls = .ok (some 9) t' ∧
      comparisonWithCalls.TakesPlace 1 9 t' ∧ ¬ comparisonWithCalls.SoleContent 2 6 ∧
      ¬ t'.AtOrBelow t'.root 7 ∧ ¬ t'.AtOrBelow t'.root 8 := by
  have h : comparisonWithCalls.WellLinked := by decide
  obtain ⟨t', hfold⟩ : ∃ t', Edit.foldEquality 6 comparisonWithCalls = .ok (some 9) t' := ⟨_, rfl⟩
  obtain ⟨operation, slot, k, otherSlot, first, other, operator, left, right, o, -, -, hplace, -, hcut,
    hsole, -⟩ := foldEquality_effect h hfold
  obtain rfl : 2 = slot := Option.some_injective _ (o.nearestNonGroup_eq h)
  obtain rfl : 1 = operation := Option.some_injective _ o.parent_slot
  have hroot : comparisonWithCalls.AtOrBelow comparisonWithCalls.root 6 :=
    h.isAttached_iff.1 (by decide)
  refine ⟨h, t', hfold, hplace, ?_, ?_, ?_⟩
  · intro s
    have hgroup : comparisonWithCalls.AtOrBelow 2 4 := h.isAncestorOrSelf_iff.1 (by decide)
    exact absurd (hsole.1 s 4 hgroup (below_of_parent rfl)) (by decide)
  · intro hatt
    exact ((hcut hroot 7 (by decide)).1 hatt).2 (h.isAncestorOrSelf_iff.1 (by decide))
  · intro hatt
    exact ((hcut hroot 8 (by decide)).1 hatt).2 (h.isAncestorOrSelf_iff.1 (by decide))

/-- Neither the group around the first literal nor the slot of the second has a single content, and still
the comparison is carried out.  The calls were part of the tree and no longer are. -/
theorem foldEquality_drops_calls :
    comparisonWithCalls.WellLinked ∧ comparisonWithCalls.kind 6 = .constant ∧
    comparisonWithCalls.contents 4 = [6, 7] ∧ comparisonWithCalls.contents 3 = [5, 8] ∧
    comparisonWithCalls.skipGroups 4 ≠ 6 ∧
    comparisonWithCalls.isAttached 7 = true ∧ comparisonWithCalls.isAttached 8 = true ∧
    ∃ t', Edit.foldEquality 6 comparisonWithCalls = .ok (some 9) t' ∧ t'.children 0 = [9] ∧
      (t'.node 9).decode? = some (.bool true) ∧ t'.isAttached 7 = false ∧ t'.isAttached 8 = false := by
  refine ⟨by decide, rfl, rfl, rfl, by decide, by decide, by decide, _, rfl, rfl, rfl, ?_, ?_⟩
  · decide
  · decide

end VariantFold.Tree
