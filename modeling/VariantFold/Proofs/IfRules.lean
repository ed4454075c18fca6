/-
What a run makes of `if` statements.

An `if` statement whose condition is decided gives way to the block of the branch that is taken, and the
run goes on there (`Simulates.ifStatement`).  When the branch is taken, at most the condition has
changed: the branches are still as they were (`IsIfStatement.after_change`).  An `if` statement whose
condition stays is left alone (`Simulates.ifStatement_unset`).
-/
import VariantFold.Proofs.Conditions

namespace VariantFold

open Step

/-! ### Declarations -/

/-- Nothing that looks like this declares a name. -/
def Snapshot.Plain (s : Snapshot) : Prop :=
  ∀ (t : Tree) (x : NodeId), t.WellLinked → t.snapshot x = s → t.declarations x = []

lemma Snapshot.Plain.node {k : Kind} {as : Attributes} {ss : List Snapshot} (hk : k ≠ .definition)
    (hss : ∀ s ∈ ss, s.Plain) : (Snapshot.node k as ss).Plain := by
  intro t x h hx
  obtain ⟨hkind, -, hchildren⟩ := h.snapshot_iff.1 hx
  subst hkind
  have hnone : (t.node x).declaration? = none := if_neg hk
  rw [Tree.declarations, h.scope_eq]
  split
  · rfl
  · rw [List.filterMap_cons, hnone, List.filterMap_flatMap, List.flatMap_eq_nil_iff]
    exact fun c hc => hss _ (hchildren ▸ List.mem_map_of_mem hc) t c h rfl

/-- A branch that declares nothing can be dropped. -/
lemma Tree.lostBranch_eq_nil {t : Tree} {loop : NodeId} {condition : Bool}
    (h : ∀ slot ∈ t.branchSlot loop !condition, t.declarations slot = []) :
    t.lostBranch loop condition = [] := by
  rw [lostBranch]
  rcases hslot : t.branchSlot loop !condition with _ | slot
  · rfl
  · change firstDeclarations _ (t.declarations slot) = []
    rw [h slot hslot]
    rfl

/-! ### `if` statements -/

namespace Tree

variable {t t₁ : Tree} {e loop n x : NodeId} {slots : List NodeId} {condition : Snapshot}
  {whenTrue : List Snapshot} {whenFalse : Option (List Snapshot)}

/-- The node `loop` is an `if` statement with a slot for the condition and others for the branches,
which look as described. -/
structure IsIfStatement (t : Tree) (loop e : NodeId) (slots : List NodeId) (whenTrue : List Snapshot)
    (whenFalse : Option (List Snapshot)) : Prop where
  isSlot : t.IsSlotOf e loop .expression .loop Attr.loopType Build.ifType
  line_eq : (t.node loop).line? = none
  children_eq : t.children loop = e :: slots
  slots_eq : slots.map t.snapshot = Shape.branches whenTrue whenFalse

lemma WellLinked.isIfStatement (h : t.WellLinked)
    (hx : t.snapshot loop = Shape.ifStatement condition whenTrue whenFalse) :
    ∃ e x slots, t.IsIfStatement loop e slots whenTrue whenFalse ∧ t.children e = [x] ∧
      t.snapshot x = condition := by
  obtain ⟨hkind, has, hchildren⟩ := h.snapshot_iff.1 hx
  obtain ⟨e, slots, hloop, he, hslots⟩ := List.map_eq_cons_iff.1 hchildren
  obtain ⟨hke, -, hx⟩ := h.snapshot_iff.1 he
  obtain ⟨x, hex, hx⟩ := List.map_eq_singleton_iff.1 hx
  have has' : (t.node loop).attributes = _ := has
  refine ⟨e, x, slots, ⟨⟨h.parent_of_mem (by simp [hloop]), hke, hkind, ?_⟩, ?_, hloop, hslots⟩,
    hex, hx⟩
  · rw [Node.str?, Node.get?, has', KeyMap.get?_insert_self]
    rfl
  · rw [Node.line?, Node.get?, has', KeyMap.get?_insert, if_neg (by decide)]
    rfl

/-- A slot with a block in it. -/
lemma WellLinked.slot_block (h : t.WellLinked) {slot : NodeId} {k : Kind} {as : Attributes}
    {ss : List Snapshot} (hslot : t.snapshot slot = .node k as [Shape.block ss])
    (hk : k ≠ .dottedName) :
    ∃ block, t.kind slot = k ∧ t.children slot = [block] ∧ t.snapshot block = Shape.block ss ∧
      ∀ namespaces, t.sitesBelow namespaces slot = t.sitesBelow namespaces block := by
  obtain ⟨hkind, -, hchildren⟩ := h.snapshot_iff.1 hslot
  obtain ⟨block, hblock, hsnap⟩ := List.map_eq_singleton_iff.1 hchildren
  refine ⟨block, hkind, hblock, hsnap, fun namespaces => ?_⟩
  rw [h.sitesBelow_of_kind (hkind ▸ hk), hblock, List.flatMap_singleton]

namespace IsIfStatement

variable (i : t.IsIfStatement loop e slots whenTrue whenFalse)
include i

lemma isClosed_slot (h : t.WellLinked) {slot : NodeId} (hslot : slot ∈ slots) :
    (t.kind slot).isClosed = true := by
  have hmem := List.mem_map_of_mem (f := t.snapshot) hslot
  rw [i.slots_eq, Shape.branches] at hmem
  rw [← h.kind_snapshot]
  rcases List.mem_cons.1 hmem with heq | hmem
  · rw [heq]
    rfl
  · obtain ⟨ss, -, heq⟩ := Option.map_eq_some_iff.1 (Option.mem_toList.1 hmem)
    rw [← heq]
    rfl

/-- The branches stay as they are when something changes below the slot of the condition. -/
lemma after_change (l : t.LocalChange loop [] [e] slots t₁ [e]) :
    t₁.IsIfStatement loop e slots whenTrue whenFalse ∧ ∀ slot ∈ slots, t.SameBelow t₁ slot := by
  have hlabel := l.label loop (l.wellLinked_before.parent_lt i.isSlot.parent_eq)
  have hsame : ∀ slot ∈ slots, t.SameBelow t₁ slot := fun slot hslot =>
    l.sameBelow_sibling (Or.inr hslot)
  refine ⟨⟨l.isSlotOf_child i.isSlot, ?_, l.after, ?_⟩, hsame⟩
  · rw [hlabel.line?_eq, i.line_eq]
  · rw [← i.slots_eq]
    exact List.map_congr_left fun slot hslot =>
      (hsame slot hslot).snapshot_eq l.wellLinked_before l.wellLinked

/-- No names are lost with a branch. -/
lemma lostBranch_eq (h : t.WellLinked) (hplain : ∀ s ∈ Shape.branches whenTrue whenFalse, s.Plain)
    (b : Bool) : t.lostBranch loop b = [] := by
  refine lostBranch_eq_nil fun slot hslot => ?_
  obtain ⟨hmem, hkind⟩ := childOfKind?_some hslot
  rw [i.children_eq] at hmem
  rcases List.mem_cons.1 hmem with rfl | hmem
  · rw [i.isSlot.kind_slot] at hkind
    cases b <;> exact absurd hkind (by simp)
  · exact hplain _ (i.slots_eq ▸ List.mem_map_of_mem hmem) t slot h rfl

end IsIfStatement

end Tree

/-! ### Taking a branch -/

section Taken

variable {namespaces : List String} {variants : Variants} {t u : Tree} {w : Workspace}
  {e loop p : NodeId} {extra post pre slots : List NodeId} {b : Bool} {ss whenTrue : List Snapshot}
  {whenFalse : Option (List Snapshot)} {r r' : Except Unmatched (List Snapshot)}

variable (i : t.IsIfStatement loop e slots whenTrue whenFalse)
  (hp : t.children p = pre ++ [loop] ++ post) (hlost : t.lostBranch loop b = [])
  (hend : t.BranchEnd (t.childrenOf? (t.branchSlot loop b)) (t.lostBranch loop b)
    (t.node loop).line? extra u)
  (g : t.Graft u loop (t.childrenOf? (t.branchSlot loop b) ++ extra) w.tree)
include i hp hlost hend g

/-- The branch that is taken is there: its block takes the place of the `if` statement. -/
lemma Tree.IsIfStatement.take_some {slot : NodeId} {l₁ l₂ : List NodeId} {k : Kind} {as : Attributes}
    (hslots : slots = l₁ ++ slot :: l₂) (hslot : t.snapshot slot = .node k as [Shape.block ss])
    (hk : k ≠ .dottedName) (hbranch : t.branchSlot loop b = some slot)
    (hrow : Simulates namespaces variants ss r) :
    ComesTo variants (slots.flatMap (t.sitesBelow namespaces)) w (r.map fun ss' => [Shape.block ss'])
      fun w' ss' => ∃ xs, t.LocalChange p pre [loop] post w'.tree xs ∧
        xs.map w'.tree.snapshot = ss' := by
  have h := g.wellLinked_before
  obtain ⟨block, -, hchildren, hsnap, hsites⟩ := h.slot_block hslot hk
  rw [hbranch, Tree.childrenOf?, hchildren] at hend g
  -- nothing is added to the block
  obtain rfl : extra = [] := by
    cases hend with
    | nothing => rfl
    | block _ hkept => exact absurd hkept (by simp)
    | definitions hlost' => exact absurd hlost hlost'
  subst hslots
  have hloop : t.children loop = [e] ++ (l₁ ++ slot :: l₂) := i.children_eq
  refine Simulates.after_choice (hsnap ▸ hrow.node (by simp)) g hp (Tree.AtOrBelow.refl t loop) hloop
    (h.below_child (by simp [hchildren])) (hsites namespaces) ?_
    fun z hz => i.isClosed_slot h hz
  rw [← h.kind_snapshot, hsnap]
  rfl

/-- The branch that is taken is missing: an empty block takes the place of the `if` statement. -/
lemma Tree.IsIfStatement.take_none (hbranch : t.branchSlot loop b = none)
    (hrow : Simulates namespaces variants [] r) :
    ComesTo variants (slots.flatMap (t.sitesBelow namespaces)) w (r.map fun ss' => [Shape.block ss'])
      fun w' ss' => ∃ xs, t.LocalChange p pre [loop] post w'.tree xs ∧
        xs.map w'.tree.snapshot = ss' := by
  have h := g.wellLinked_before
  rw [hbranch, Tree.childrenOf?, List.nil_append] at g
  rw [hbranch, Tree.childrenOf?, i.line_eq] at hend
  cases hend with
  | nothing _ hkept => exact absurd rfl hkept
  | definitions hlost' => exact absurd hlost hlost'
  | @block n _ _ _ leaf =>
    have hsnap := g.snapshot_leaf leaf
    obtain ⟨hkind, -, hchildren⟩ := g.wellLinked.snapshot_iff.1 hsnap
    have hnone : [n].flatMap (w.tree.sitesBelow namespaces) = [] := by
      rw [List.flatMap_singleton, g.wellLinked.sitesBelow_leaf (by simp [hkind])
        (List.map_eq_nil_iff.1 hchildren)]
    have hsites : slots.flatMap (t.sitesBelow namespaces) = slots.flatMap (t.sitesBelow namespaces) ++
        ([n].flatMap (w.tree.sitesBelow namespaces) ++ []) := by
      rw [hnone, List.append_nil, List.append_nil]
    rw [hsites]
    have hblock : Simulates namespaces variants [Shape.block []] _ := hrow.node (by simp)
    refine hblock.after_graft g hp ?_ fun site hsite => ?_
    · rw [List.map_singleton, hsnap]
      rfl
    · rw [List.append_nil] at hsite
      obtain ⟨slot, hslot, hsite⟩ := List.mem_flatMap.1 hsite
      have hmem : slot ∈ t.children loop := by
        rw [i.children_eq]
        exact List.mem_cons_of_mem e hslot
      have hle := (h.below_child hmem).atOrBelow.trans
        (h.call_atOrBelow (i.isClosed_slot h hslot) hsite)
      refine ⟨hle, fun n' hn' hbelow => ?_⟩
      -- a new node is above no other
      rw [List.mem_singleton.1 hn'] at hbelow
      exact absurd (h.atOrBelow_lt hbelow (hle.lt g.old_lt)) (not_lt.2 leaf.le)

omit hlost in
/-- The block of the branch that is taken takes the place of the `if` statement. -/
lemma Tree.IsIfStatement.take (hplain : ∀ s ∈ Shape.branches whenTrue whenFalse, s.Plain)
    (hrow : Simulates namespaces variants whenTrue r)
    (hrow' : Simulates namespaces variants (whenFalse.getD []) r') :
    ComesTo variants (slots.flatMap (t.sitesBelow namespaces)) w
      ((if b then r else r').map fun ss' => [Shape.block ss'])
      fun w' ss' => ∃ xs, t.LocalChange p pre [loop] post w'.tree xs ∧
        xs.map w'.tree.snapshot = ss' := by
  have h := g.wellLinked_before
  have hlost := i.lostBranch_eq h hplain b
  obtain ⟨slot, others, rfl, hslot, hothers⟩ := List.map_eq_cons_iff.1 i.slots_eq
  have hkind := (h.snapshot_iff.1 hslot).1
  have hke := i.isSlot.kind_slot
  cases b with
  | true =>
    have hslots : slot :: others = [] ++ slot :: others := rfl
    refine i.take_some hp hlost hend g hslots hslot (by simp) ?_ hrow
    rw [Tree.branchSlot, Tree.childOfKind?, i.children_eq, if_pos rfl,
      List.find?_cons_of_neg (by simp [hke]), List.find?_cons_of_pos (by simp [hkind])]
  | false =>
    have hbranch : t.branchSlot loop false = others.find? fun c => t.kind c = .elseStatement := by
      rw [Tree.branchSlot, Tree.childOfKind?, i.children_eq, if_neg (by simp),
        List.find?_cons_of_neg (by simp [hke]), List.find?_cons_of_neg (by simp [hkind])]
    cases whenFalse with
    | none =>
      obtain rfl := List.map_eq_nil_iff.1 hothers
      exact i.take_none hp hlost hend g hbranch hrow'
    | some ss =>
      obtain ⟨other, rfl, hother⟩ := List.map_eq_singleton_iff.1 hothers
      have hslots : [slot, other] = [slot] ++ other :: [] := rfl
      refine i.take_some hp hlost hend g hslots hother (by simp) ?_ hrow'
      rw [hbranch, List.find?_cons_of_pos (by simp [(h.snapshot_iff.1 hother).1])]

end Taken

/-! ### The rules -/

namespace Simulates

variable {namespaces : List String} {variants : Variants} {condition : Snapshot} {b : Bool}
  {whenTrue : List Snapshot} {whenFalse : Option (List Snapshot)}
  {r r' : Except Unmatched (List Snapshot)}

/-- An `if` statement whose condition is decided. -/
lemma ifStatement (hd : Decides namespaces variants condition b)
    (hplain : ∀ s ∈ Shape.branches whenTrue whenFalse, s.Plain)
    (hrow : Simulates namespaces variants whenTrue r)
    (hrow' : Simulates namespaces variants (whenFalse.getD []) r') :
    Simulates namespaces variants [Shape.ifStatement condition whenTrue whenFalse]
      ((if b then r else r').map fun ss => [Shape.block ss]) := by
  intro w p pre xs post h hp hchildren hxs
  obtain ⟨loop, rfl, hloop⟩ := List.map_eq_singleton_iff.1 hxs
  obtain ⟨e, x, slots, i, he, hx⟩ := h.isIfStatement hloop
  have hatt : w.tree.AtOrBelow w.tree.root e :=
    (hp.trans (h.below_child (show loop ∈ w.tree.children p by simp [hchildren])).atOrBelow).trans
      (h.below_child (show e ∈ w.tree.children loop by simp [i.children_eq])).atOrBelow
  have content : w.tree.SoleContent e x :=
    Tree.SoleContent.of_children he (by rw [← h.kind_snapshot, hx, hd.isComment_eq])
  obtain ⟨site, w', hsites, hcall, hrun, hfile, @⟨t₁, u, extra, change, hend, g⟩⟩ :=
    hd.takes h hatt content i.isSlot hx
  have hattsite := (hatt.trans (content.lies_below h).atOrBelow).trans hcall
  have l := change [] slots i.children_eq
  obtain ⟨i₁, hsame⟩ := i.after_change l
  have l₁ := l.up hchildren (Tree.AtOrBelow.refl _ loop)
  -- the calls in the branches are still the same
  have hslots : slots.flatMap (w.tree.sitesBelow namespaces) =
      slots.flatMap (t₁.sitesBelow namespaces) := List.flatMap_congr fun slot hslot =>
    ((hsame slot hslot).sitesBelow_eq h l.wellLinked (i.isClosed_slot h hslot)).symm
  rw [List.flatMap_singleton, h.sitesBelow_of_kind (by simp [i.isSlot.kind_owner]), i.children_eq,
    List.flatMap_cons, h.sitesBelow_of_kind (by simp [i.isSlot.kind_slot]), he,
    List.flatMap_singleton, hsites, hslots]
  refine ComesTo.cons ((visit_attached h hattsite).trans hrun) hfile ?_
  refine (i₁.take l₁.after hend g hplain hrow hrow').mono ?_
  rintro w'' ss ⟨xs, l₂, hss⟩
  exact ⟨xs, l₁.trans l₂, hss⟩

/-- An `if` statement whose condition stays: the run goes on below both branches. -/
lemma ifStatement_unset {α : Type} {shapes : α → List Snapshot} {eval : α → Except Unmatched α}
    {other : Option α} (hc : Simulates namespaces variants [condition] (.ok [condition]))
    (hrow : Simulates namespaces variants whenTrue r)
    (hother : ∀ a ∈ other, Simulates namespaces variants (shapes a) ((eval a).map shapes)) :
    Simulates namespaces variants [Shape.ifStatement condition whenTrue (other.map shapes)] (do
      let ss ← r
      let other' ← other.mapM eval
      return [Shape.ifStatement condition ss (other'.map shapes)]) := by
  have hslot : ∀ {k : Kind} {ss r}, k ≠ .dottedName → Simulates namespaces variants ss r →
      Simulates namespaces variants [.node k KeyMap.empty [Shape.block ss]]
        (r.map fun ss' => [.node k KeyMap.empty [Shape.block ss']]) := by
    intro k ss r hk hss
    have h : Simulates namespaces variants [.node k KeyMap.empty [Shape.block ss]] _ :=
      (hss.node (by simp)).node hk
    rcases r with e | ss' <;> exact h
  have hexpression : Simulates namespaces variants [.node .expression KeyMap.empty [condition]] _ :=
    hc.node (by simp)
  have hstart := hexpression.append (hslot (k := .statement) (by simp) hrow)
    (List.forall_mem_singleton.2 rfl)
  cases other with
  | none =>
    have h : Simulates namespaces variants [Shape.ifStatement condition whenTrue none] _ :=
      hstart.node (by simp)
    rcases r with e | ss <;> exact h
  | some a =>
    have hend := hslot (k := .elseStatement) (by simp) (hother a rfl)
    have h : Simulates namespaces variants [Shape.ifStatement condition whenTrue (some (shapes a))] _ :=
      (hstart.append hend (List.forall_mem_singleton.2 rfl)).node (by simp)
    change Simulates namespaces variants [Shape.ifStatement condition whenTrue (some (shapes a))] (do
      let ss ← r
      let other' ← some <$> eval a
      return [Shape.ifStatement condition ss (other'.map shapes)])
    generalize eval a = r' at h ⊢
    rcases r with e | ss
    · exact h
    · rcases r' with e | a' <;> exact h

end Simulates

end VariantFold
