/-
The same place in two trees.

Two trees may look alike but for what stands in one place, whatever their nodes are called
(`SamePlace`).  What is found around the place is then the same in both, and if an `if` statement around
the place gives way to the same branch in both, the trees look alike afterwards
(`SamePlace.snapshot_taken`).
-/
import VariantFold.Proofs.Groups
import VariantFold.Proofs.IfRules

namespace VariantFold

/-- What follows the statements of a branch that is taken looks like this. -/
def Shape.branchEnd (isEmpty : Bool) (lost : List Declaration) (line : Option Int64) :
    List Snapshot :=
  if lost ≠ [] then
    [.node .definitionList (Attributes.withLine KeyMap.empty line)
      (lost.map fun d => .node .definition d.attributes [])]
  else if isEmpty then [.node .block (Attributes.withLine KeyMap.empty line) []]
  else []

/-- What takes the place of the root looks like this. -/
def Shape.newRoot : List Snapshot → Snapshot
  | [s] => s
  | ss => Shape.block ss

namespace Tree

variable {t t' t₁ t₁' u u' v v' : Tree} {e e' loop loop' n old p p' x x' : NodeId}
  {extra extra' kept new pre pre' post post' xs xs' xs₁ xs₁' : List NodeId} {k : Kind} {b : Bool}
  {lost : List Declaration} {line : Option Int64}

/-! ### What can be seen of a node -/

/-- A child of a kind can be found from outside. -/
lemma WellLinked.childOfKind?_snapshot (h : t.WellLinked) (p : NodeId) (k : Kind) :
    (t.childOfKind? p k).map t.snapshot =
      ((t.children p).map t.snapshot).find? fun s => s.kind = k := by
  rw [List.find?_map, childOfKind?]
  congr 2
  funext c
  rw [Function.comp_apply, h.kind_snapshot]

lemma WellLinked.declarations_eq (h : t.WellLinked) (x : NodeId) :
    t.declarations x = if t.kind x = .function then [] else
      (t.node x).declaration?.toList ++ (t.children x).flatMap t.declarations := by
  rw [declarations, h.scope_eq]
  split
  · rfl
  · rw [List.filterMap_cons, List.filterMap_flatMap]
    rcases (t.node x).declaration? with _ | d <;> rfl

lemma declaration?_congr (hkind : t'.kind x' = t.kind x) (hattr : t'.attributes x' = t.attributes x) :
    (t'.node x').declaration? = (t.node x).declaration? := by
  have hkind' : (t'.node x').kind = (t.node x).kind := hkind
  have hattr' : (t'.node x').attributes = (t.node x).attributes := hattr
  rw [Node.declaration?, Node.declaration?, Node.str?, Node.str?, Node.line?, Node.line?, Node.get?,
    Node.get?, Node.get?, Node.get?, hkind', hattr']

/-- Rows that look the same, gone through in order. -/
lemma flatMap_congr_of_map {α β γ δ : Type} {f : α → γ} {f' : β → γ} {g : α → List δ}
    {g' : β → List δ} {l : List α} {l' : List β} (hl : l'.map f' = l.map f)
    (h : ∀ a ∈ l, ∀ b, f' b = f a → g' b = g a) : l'.flatMap g' = l.flatMap g := by
  induction l generalizing l' with
  | nil => rw [List.map_eq_nil_iff.1 hl]; rfl
  | cons a l ih =>
    obtain ⟨b, l', rfl, hb, hl⟩ := List.map_eq_cons_iff.1 hl
    rw [List.flatMap_cons, List.flatMap_cons, h a List.mem_cons_self b hb,
      ih hl fun a' ha' => h a' (List.mem_cons_of_mem a ha')]

/-- What is declared below a node can be seen from outside. -/
lemma WellLinked.declarations_congr (h : t.WellLinked) (h' : t'.WellLinked)
    (hx : t'.snapshot x' = t.snapshot x) : t'.declarations x' = t.declarations x := by
  induction x using h.induction_from_leaves generalizing x' with
  | step x ih =>
    rw [h.snapshot_eq x] at hx
    obtain ⟨hkind, hattr, hchildren⟩ := h'.snapshot_iff.1 hx
    rw [h'.declarations_eq, h.declarations_eq, hkind, declaration?_congr hkind hattr,
      flatMap_congr_of_map hchildren fun c hc c' hcc => ih c hc hcc]

lemma lostDeclarations_congr (h : t.WellLinked) (h' : t'.WellLinked)
    {kept kept' dropped dropped' : Option NodeId}
    (hkept : kept'.map t'.snapshot = kept.map t.snapshot)
    (hdropped : dropped'.map t'.snapshot = dropped.map t.snapshot) :
    t'.lostDeclarations kept' dropped' = t.lostDeclarations kept dropped := by
  have hsame : ∀ {o o' : Option NodeId}, o'.map t'.snapshot = o.map t.snapshot →
      o'.map t'.declarations = o.map t.declarations := by
    intro o o' ho
    rcases o with _ | x
    · rw [Option.map_eq_none_iff.1 ho]
      rfl
    · obtain ⟨x', rfl, hx⟩ := Option.map_eq_some_iff.1 ho
      exact congrArg some (h.declarations_congr h' hx)
  have hlost : ∀ (t : Tree) (kept dropped : Option NodeId), t.lostDeclarations kept dropped =
      ((dropped.map t.declarations).map (firstDeclarations
        (((kept.map t.declarations).map (List.map Prod.fst)).getD []))).getD [] := by
    intro t kept dropped
    rcases dropped with _ | d <;> rcases kept with _ | k <;> rfl
  rw [hlost, hlost, hsame hkept, hsame hdropped]

/-! ### Rows and places -/

/-- The nodes `p` and `p'` have the same label, and their children look the same but for `x` and `x'`,
which stand in the same place among them. -/
structure SameRow (t t' : Tree) (p p' : NodeId) (pre pre' : List NodeId) (x x' : NodeId)
    (post post' : List NodeId) : Prop where
  kind_eq : t'.kind p' = t.kind p
  attributes_eq : t'.attributes p' = t.attributes p
  before : t.children p = pre ++ [x] ++ post
  before' : t'.children p' = pre' ++ [x'] ++ post'
  pre_eq : pre'.map t'.snapshot = pre.map t.snapshot
  post_eq : post'.map t'.snapshot = post.map t.snapshot

/-- The nodes `x` and `x'` stand in the same place of two trees that look the same but for what is
there. -/
inductive SamePlace (t t' : Tree) : NodeId → NodeId → Prop
  | root : SamePlace t t' t.root t'.root
  | child {p p' x x' : NodeId} {pre pre' post post' : List NodeId} (above : SamePlace t t' p p')
      (row : t.SameRow t' p p' pre pre' x x' post post') : SamePlace t t' x x'

namespace SameRow

variable (row : t.SameRow t' p p' pre pre' x x' post post')
include row

lemma str?_eq (attr : String) : (t'.node p').str? attr = (t.node p).str? attr := by
  have heq : (t'.node p').attributes = (t.node p).attributes := row.attributes_eq
  rw [Node.str?, Node.str?, Node.get?, Node.get?, heq]

lemma line?_eq : (t'.node p').line? = (t.node p).line? := by
  have heq : (t'.node p').attributes = (t.node p).attributes := row.attributes_eq
  rw [Node.line?, Node.line?, Node.get?, Node.get?, heq]

/-- Slots that hold the same hold it through the same groups. -/
lemma contents_eq (h : t.WellLinked) (h' : t'.WellLinked) (hp : t.contents p = [x])
    (hx' : (t'.kind x').isComment = false) : t'.contents p' = [x'] := by
  refine contents_of_comments row.before' hx' fun y' hy' => ?_
  have hsame : ∃ y, (y ∈ pre ∨ y ∈ post) ∧ t.snapshot y = t'.snapshot y' := by
    rcases hy' with hy' | hy'
    · obtain ⟨y, hy, heq⟩ := List.mem_map.1 (row.pre_eq ▸ List.mem_map_of_mem hy')
      exact ⟨y, Or.inl hy, heq⟩
    · obtain ⟨y, hy, heq⟩ := List.mem_map.1 (row.post_eq ▸ List.mem_map_of_mem hy')
      exact ⟨y, Or.inr hy, heq⟩
  obtain ⟨y, hy, heq⟩ := hsame
  rw [← h'.kind_snapshot, ← heq, h.kind_snapshot]
  exact comments_around hp row.before hy

/-- Other children of a kind are found in the same places. -/
lemma childOfKind?_eq (h : t.WellLinked) (h' : t'.WellLinked) (hx : t.kind x ≠ k)
    (hx' : t'.kind x' ≠ k) :
    (t'.childOfKind? p' k).map t'.snapshot = (t.childOfKind? p k).map t.snapshot := by
  have hskip : ∀ {s : Snapshot} {l₁ l₂ : List Snapshot}, s.kind ≠ k →
      (l₁ ++ [s] ++ l₂).find? (fun s => s.kind = k) = (l₁ ++ l₂).find? fun s => s.kind = k := by
    intro s l₁ l₂ hs
    rw [List.append_assoc, List.find?_append, List.singleton_append,
      List.find?_cons_of_neg (by simpa using hs), List.find?_append]
  rw [h'.childOfKind?_snapshot, h.childOfKind?_snapshot, row.before, row.before', List.map_append,
    List.map_append, List.map_append, List.map_append, List.map_singleton, List.map_singleton,
    hskip (by rwa [h'.kind_snapshot]), hskip (by rwa [h.kind_snapshot]), row.pre_eq, row.post_eq]

lemma isSlotOf (h' : t'.WellLinked) {slotKind ownerKind : Kind} {attr text : String}
    (hslot : t.IsSlotOf x p slotKind ownerKind attr text) (hx' : t'.kind x' = t.kind x) :
    t'.IsSlotOf x' p' slotKind ownerKind attr text := by
  refine ⟨h'.parent_of_mem ?_, hx'.trans hslot.kind_slot, row.kind_eq.trans hslot.kind_owner, ?_⟩
  · rw [row.before']
    simp
  · rw [row.str?_eq, hslot.mark]

/-- Rows stay the same when something changes further down. -/
lemma after_change (l : t.LocalChange p pre [x] post u [x])
    (l' : t'.LocalChange p' pre' [x'] post' u' [x']) :
    u.SameRow u' p p' pre pre' x x' post post' := by
  have hlabel := l.label p (l.attached_parent.lt l.wellLinked_before.root_lt)
  have hlabel' := l'.label p' (l'.attached_parent.lt l'.wellLinked_before.root_lt)
  have hsame : ∀ y, y ∈ pre ∨ y ∈ post → u.snapshot y = t.snapshot y := fun y hy =>
    (l.sameBelow_sibling hy).snapshot_eq l.wellLinked_before l.wellLinked
  have hsame' : ∀ y, y ∈ pre' ∨ y ∈ post' → u'.snapshot y = t'.snapshot y := fun y hy =>
    (l'.sameBelow_sibling hy).snapshot_eq l'.wellLinked_before l'.wellLinked
  refine ⟨?_, ?_, l.after, l'.after, ?_, ?_⟩
  · rw [hlabel'.kind_eq, hlabel.kind_eq, row.kind_eq]
  · rw [hlabel'.attributes_eq, hlabel.attributes_eq, row.attributes_eq]
  · rw [List.map_congr_left fun y hy => hsame' y (Or.inl hy), row.pre_eq]
    exact (List.map_congr_left fun y hy => hsame y (Or.inl hy)).symm
  · rw [List.map_congr_left fun y hy => hsame' y (Or.inr hy), row.post_eq]
    exact (List.map_congr_left fun y hy => hsame y (Or.inr hy)).symm

end SameRow

namespace SamePlace

lemma attached (s : SamePlace t t' x x') (h : t.WellLinked) : t.AtOrBelow t.root x := by
  induction s with
  | root => exact AtOrBelow.refl t t.root
  | @child p p' x x' pre pre' post post' _ row ih =>
    have hmem : x ∈ t.children p := by
      rw [row.before]
      simp
    exact ih.trans (h.below_child hmem).atOrBelow

lemma symm (s : SamePlace t t' x x') : SamePlace t' t x' x := by
  induction s with
  | root => exact SamePlace.root
  | child _ row ih =>
    exact SamePlace.child ih ⟨row.kind_eq.symm, row.attributes_eq.symm, row.before', row.before,
      row.pre_eq.symm, row.post_eq.symm⟩

/-- Nodes in the same place have parents in the same place. -/
lemma parent (s : SamePlace t t' x x') (h : t.WellLinked) (hp : t.parent? x = some p) :
    ∃ p' pre pre' post post', SamePlace t t' p p' ∧
      t.SameRow t' p p' pre pre' x x' post post' := by
  cases s with
  | root => exact absurd (h.root_parent.symm.trans hp) (by simp)
  | @child q p' _ _ pre pre' post post' above row =>
    have hmem : x ∈ t.children q := by
      rw [row.before]
      simp
    obtain rfl : q = p := Option.some_injective _ ((h.parent_of_mem hmem).symm.trans hp)
    exact ⟨p', pre, pre', post, post', above, row⟩

/-- A sole content stands in the same place as a sole content. -/
lemma soleContent (s : SamePlace t t' x x') (h : t.WellLinked) (h' : t'.WellLinked)
    (content : t.SoleContent e x) (hx' : (t'.kind x').isComment = false) :
    ∃ e', SamePlace t t' e e' ∧ t'.kind e' = t.kind e ∧ t'.SoleContent e' x' := by
  induction content with
  | direct he =>
    obtain ⟨e', pre, pre', post, post', place, row⟩ := s.parent h (h.parent_of_contents he)
    exact ⟨e', place, row.kind_eq, SoleContent.direct (row.contents_eq h h' he hx')⟩
  | group he hkind _ ih =>
    obtain ⟨g', place, hkind', content'⟩ := ih s
    obtain ⟨e', pre, pre', post, post', place', row⟩ := place.parent h (h.parent_of_contents he)
    have hgroup : t'.kind g' = .group := hkind'.trans hkind
    refine ⟨e', place', row.kind_eq, SoleContent.group (row.contents_eq h h' he ?_) hgroup content'⟩
    rw [hgroup]
    rfl

/-- If the same is made of two nodes in the same place, the trees look the same. -/
lemma snapshot_root (s : SamePlace t t' p p') (l : t.LocalChange p pre xs post t₁ xs₁)
    (l' : t'.LocalChange p' pre' xs' post' t₁' xs₁') (hp : t₁'.snapshot p' = t₁.snapshot p) :
    t₁'.snapshot t₁'.root = t₁.snapshot t₁.root := by
  induction s generalizing pre pre' post post' xs xs' xs₁ xs₁' with
  | root => rwa [l.root_eq, l'.root_eq]
  | child _ row ih =>
    have lq := l.up row.before (AtOrBelow.refl t _)
    have lq' := l'.up row.before' (AtOrBelow.refl t' _)
    refine ih lq lq' ?_
    rw [lq.snapshot_eq, lq'.snapshot_eq, row.kind_eq, row.attributes_eq, row.pre_eq, row.post_eq,
      List.map_singleton, List.map_singleton, hp]

end SamePlace

/-! ### Taking a branch -/

lemma childrenOf?_congr (h : t.WellLinked) (h' : t'.WellLinked) {o o' : Option NodeId}
    (ho : o'.map t'.snapshot = o.map t.snapshot) :
    (t'.childrenOf? o').map t'.snapshot = (t.childrenOf? o).map t.snapshot := by
  rcases o with _ | x
  · rw [Option.map_eq_none_iff.1 ho]
    rfl
  · obtain ⟨x', rfl, hx⟩ := Option.map_eq_some_iff.1 ho
    rw [h.snapshot_eq x] at hx
    exact (h'.snapshot_iff.1 hx).2.2

/-- If the slots of the conditions stand in the same place, the same branches stand around them. -/
lemma SameRow.branchSlot_eq (row : t.SameRow t' loop loop' pre pre' e e' post post')
    (h : t.WellLinked) (h' : t'.WellLinked) (he : t.kind e = .expression)
    (he' : t'.kind e' = .expression) (b : Bool) :
    (t'.branchSlot loop' b).map t'.snapshot = (t.branchSlot loop b).map t.snapshot := by
  refine row.childOfKind?_eq h h' ?_ ?_
  · rw [he]
    cases b <;> simp
  · rw [he']
    cases b <;> simp

lemma SameRow.lostBranch_eq (row : t.SameRow t' loop loop' pre pre' e e' post post')
    (h : t.WellLinked) (h' : t'.WellLinked) (he : t.kind e = .expression)
    (he' : t'.kind e' = .expression) (b : Bool) :
    t'.lostBranch loop' b = t.lostBranch loop b :=
  lostDeclarations_congr h h' (row.branchSlot_eq h h' he he' b) (row.branchSlot_eq h h' he he' !b)

/-- What follows the statements of a branch looks as described. -/
lemma BranchEnd.snapshot_eq (hend : t.BranchEnd kept lost line extra u)
    (g : t.Graft u old new t') : extra.map t'.snapshot = Shape.branchEnd kept.isEmpty lost line := by
  cases hend with
  | nothing hlost hkept =>
    rw [Shape.branchEnd, if_neg (not_not_intro hlost), if_neg (by simpa using hkept)]
    rfl
  | block hlost hkept leaf =>
    rw [Shape.branchEnd, if_neg (not_not_intro hlost), if_pos (by simpa using hkept),
      List.map_singleton, g.snapshot_leaf leaf]
  | @definitions n _ hlost list =>
    have hbelow : ∀ c ∈ u.children n, t.size ≤ c ∧ c < u.size := fun c hc =>
      ⟨g.grown.le_child g.wellLinked_before list.le hc, g.grown.wellLinked.child_lt hc⟩
    have hdefinitions : (u.children n).map t'.snapshot =
        lost.map fun d => .node .definition d.attributes [] := by
      refine List.forall₂_eq_eq_eq ▸ List.forall₂_map_left_iff.2 (List.forall₂_map_right_iff.2 ?_)
      refine List.forall₂_iff_zip.2 ⟨list.definitions.length_eq, fun {c d} hzip => ?_⟩
      obtain ⟨hkind, hattr, hchildren⟩ := (List.forall₂_iff_zip.1 list.definitions).2 hzip
      obtain ⟨hle, hlt⟩ := hbelow c (List.of_mem_zip hzip).1
      refine g.wellLinked.snapshot_iff.2 ⟨?_, ?_, ?_⟩
      · rw [g.replaced.kind_eq c hlt, hkind]
      · rw [g.replaced.attributes_eq c hlt, hattr]
      · rw [g.children_added hle hlt, hchildren]
        rfl
    rw [Shape.branchEnd, if_pos hlost, List.map_singleton, g.wellLinked.snapshot_eq,
      g.replaced.kind_eq n list.lt, g.replaced.attributes_eq n list.lt,
      g.children_added list.le list.lt, list.kind_list, list.attributes_list, hdefinitions]

/-- What comes in from below looks as before. -/
lemma Graft.snapshot_kept (g : t.Graft u old new t') (hn : n ∈ new) (hlt : n < t.size) :
    t'.snapshot n = t.snapshot n := by
  have hnot : ¬ t.Below n old := fun hbelow =>
    g.wellLinked_before.not_atOrBelow_of_below (g.below_old hn hlt) hbelow.atOrBelow
  exact (g.sameBelow hlt hnot (g.attached_new hn)).snapshot_eq g.wellLinked_before g.wellLinked

lemma BranchEnd.snapshot_taken (h : t.WellLinked) {slot : Option NodeId}
    (hend : t.BranchEnd (t.childrenOf? slot) lost line extra u)
    (g : t.Graft u old (t.childrenOf? slot ++ extra) t') :
    (t.childrenOf? slot ++ extra).map t'.snapshot =
      (t.childrenOf? slot).map t.snapshot ++
        Shape.branchEnd ((t.childrenOf? slot).map t.snapshot).isEmpty lost line := by
  rw [List.map_append, hend.snapshot_eq g, List.isEmpty_map]
  congr 1
  exact List.map_congr_left fun n hn =>
    g.snapshot_kept (List.mem_append_left extra hn) (h.childrenOf?_lt hn)

/-- What the tree looks like when the root gives way. -/
lemma Graft.snapshot_root (g : t.Graft u old new t') (hold : old = t.root) :
    t'.snapshot t'.root = Shape.newRoot (new.map t'.snapshot) := by
  have hroot := g.replaced.root_eq
  have hold' : old = u.root := hold.trans g.grown.root_eq.symm
  by_cases hlen : new.length = 1
  · obtain ⟨n, rfl⟩ := List.length_eq_one_iff.1 hlen
    rw [hroot, hold', newRoot_single]
    rfl
  · obtain ⟨hkind, hattr, hchildren⟩ := g.replaced.block hold' hlen
    rw [hold', newRoot_block hlen] at hroot
    rw [hroot, Shape.newRoot.eq_def, g.wellLinked.snapshot_eq, hkind, hattr, hchildren]
    split
    · rename_i heq
      exact absurd (by simpa using congrArg List.length heq) hlen
    · rfl

/-- If the slots of two conditions stand in the same place, and the same branch is taken in both trees
after changes within the slots, the trees look the same. -/
lemma SamePlace.snapshot_taken (s : SamePlace t t' loop loop')
    (row : t.SameRow t' loop loop' pre pre' e e' post post') (he : t.kind e = .expression)
    (he' : t'.kind e' = .expression) (l : t.LocalChange loop pre [e] post t₁ [e])
    (l' : t'.LocalChange loop' pre' [e'] post' t₁' [e'])
    (hend : t₁.BranchEnd (t₁.childrenOf? (t₁.branchSlot loop b)) (t₁.lostBranch loop b)
      (t₁.node loop).line? extra u)
    (hend' : t₁'.BranchEnd (t₁'.childrenOf? (t₁'.branchSlot loop' b)) (t₁'.lostBranch loop' b)
      (t₁'.node loop').line? extra' u')
    (g : t₁.Graft u loop (t₁.childrenOf? (t₁.branchSlot loop b) ++ extra) v)
    (g' : t₁'.Graft u' loop' (t₁'.childrenOf? (t₁'.branchSlot loop' b) ++ extra') v') :
    v'.snapshot v'.root = v.snapshot v.root := by
  have h := l.wellLinked
  have h' := l'.wellLinked
  have row₁ := row.after_change l l'
  have he₁ : t₁.kind e = .expression := by
    rw [(l.label e (l.wellLinked_before.child_lt (l.mem_children (List.mem_singleton_self e)))).kind_eq,
      he]
  have he₁' : t₁'.kind e' = .expression := by
    rw [(l'.label e'
      (l'.wellLinked_before.child_lt (l'.mem_children (List.mem_singleton_self e')))).kind_eq, he']
  -- what comes in looks the same
  have hnew : (t₁'.childrenOf? (t₁'.branchSlot loop' b) ++ extra').map v'.snapshot =
      (t₁.childrenOf? (t₁.branchSlot loop b) ++ extra).map v.snapshot := by
    rw [hend.snapshot_taken h g, hend'.snapshot_taken h' g', row₁.line?_eq,
      row₁.lostBranch_eq h h' he₁ he₁',
      childrenOf?_congr h h' (row₁.branchSlot_eq h h' he₁ he₁' b)]
  cases s with
  | root =>
    rw [g.snapshot_root l.root_eq.symm, g'.snapshot_root l'.root_eq.symm, hnew]
  | child above row₀ =>
    have lp := l.up row₀.before (AtOrBelow.refl t loop)
    have lp' := l'.up row₀.before' (AtOrBelow.refl t' loop')
    have lv := lp.trans (g.localChange lp.after)
    have lv' := lp'.trans (g'.localChange lp'.after)
    refine above.snapshot_root lv lv' ?_
    rw [lv.snapshot_eq, lv'.snapshot_eq, row₀.kind_eq, row₀.attributes_eq, row₀.pre_eq,
      row₀.post_eq, hnew]

end Tree

end VariantFold
