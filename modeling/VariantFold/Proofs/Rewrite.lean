/-
The rewrites that steps make.

A call that asks for a variant and can be answered changes the tree by one graft or several in a row.
`Reason` lists all that can happen in one of them: a literal takes the place of a call or of a
comparison, the value of an entry takes the place of a selection, an operand takes the place of a
conditional expression, a branch takes the place of an `if` statement.  Every fact about runs is derived
from this list.  The main result is `Reason.graft`: on a well-linked tree each of them can be carried
out, and it is a graft.
-/
import VariantFold.Proofs.NewNodes
import VariantFold.Proofs.Queries
import VariantFold.Step.Pass

namespace VariantFold

namespace Tree

variable {t u t' : Tree} {b c d loop n old operation p slot x y : NodeId} {new : List NodeId}

/-! ### Taking a branch -/

/-- The slot of the branch that a condition takes. -/
def branchSlot (t : Tree) (loop : NodeId) (condition : Bool) : Option NodeId :=
  t.childOfKind? loop (if condition then .statement else .elseStatement)

/-- The declarations that would be lost with the other branch. -/
def lostBranch (t : Tree) (loop : NodeId) (condition : Bool) : List Declaration :=
  t.lostDeclarations (t.branchSlot loop condition) (t.branchSlot loop !condition)

/-- The nodes that take the place of an `if` statement, and the tree in which those are that are
new. -/
def takenBranch (t : Tree) (loop : NodeId) (condition : Bool) : List NodeId × Tree :=
  (do
    let list ← Build.bareDefinitions (t.lostBranch loop condition) (t.node loop).line?
    Build.orEmptyBlock (t.childrenOf? (t.branchSlot loop condition) ++ list) (t.node loop).line?
    : Build (List NodeId)).run t

lemma inlineIf_eq (t : Tree) (loop : NodeId) (condition : Bool) :
    Edit.inlineIf loop condition t =
      Edit.replaceWith loop (t.takenBranch loop condition).1 (t.takenBranch loop condition).2 := by
  cases condition <;> rfl

/-- What follows the statements of a branch that is taken: the declarations that would be lost, or an
empty block if there is nothing else. -/
inductive BranchEnd (t : Tree) (kept : List NodeId) (lost : List Declaration) (line : Option Int64) :
    List NodeId → Tree → Prop
  | nothing (hlost : lost = []) (hkept : kept ≠ []) : BranchEnd t kept lost line [] t
  | block {n : NodeId} {u : Tree} (hlost : lost = []) (hkept : kept = [])
      (leaf : t.NewLeaf .block (Attributes.withLine KeyMap.empty line) n u) :
      BranchEnd t kept lost line [n] u
  | definitions {n : NodeId} {u : Tree} (hlost : lost ≠ [])
      (list : t.NewDefinitions lost line n u) : BranchEnd t kept lost line [n] u

lemma BranchEnd.grown {kept extra : List NodeId} {lost : List Declaration} {line : Option Int64}
    (h : t.BranchEnd kept lost line extra u) (ht : t.WellLinked) : t.Grown u := by
  cases h with
  | nothing => exact Grown.refl ht
  | block _ _ leaf => exact leaf.grown
  | definitions _ list => exact list.grown

/-- What follows the statements of a branch is new and without a parent. -/
lemma BranchEnd.isNew {kept extra : List NodeId} {lost : List Declaration} {line : Option Int64}
    (h : t.BranchEnd kept lost line extra u) :
    extra.Nodup ∧ ∀ n ∈ extra, t.size ≤ n ∧ n < u.size ∧ u.parent? n = none := by
  cases h with
  | nothing => simp
  | block _ _ leaf =>
    refine ⟨List.nodup_singleton _, fun m hm => ?_⟩
    rw [List.mem_singleton.1 hm]
    exact ⟨leaf.le, leaf.lt, leaf.parent_new⟩
  | definitions _ list =>
    refine ⟨List.nodup_singleton _, fun m hm => ?_⟩
    rw [List.mem_singleton.1 hm]
    exact ⟨list.le, list.lt, list.parent_list⟩

lemma takenBranch_eq (h : t.WellLinked) (loop : NodeId) (condition : Bool) :
    ∃ extra u, t.takenBranch loop condition =
        (t.childrenOf? (t.branchSlot loop condition) ++ extra, u) ∧
      t.BranchEnd (t.childrenOf? (t.branchSlot loop condition)) (t.lostBranch loop condition)
        (t.node loop).line? extra u := by
  have hrun : ∀ list u, (Build.bareDefinitions (t.lostBranch loop condition)
        (t.node loop).line?).run t = (list, u) →
      t.takenBranch loop condition =
        (Build.orEmptyBlock (t.childrenOf? (t.branchSlot loop condition) ++ list)
          (t.node loop).line?).run u := by
    intro list u hlist
    have hstep : t.takenBranch loop condition =
        (Build.orEmptyBlock (t.childrenOf? (t.branchSlot loop condition) ++
          ((Build.bareDefinitions (t.lostBranch loop condition) (t.node loop).line?).run t).1)
          (t.node loop).line?).run
          ((Build.bareDefinitions (t.lostBranch loop condition) (t.node loop).line?).run t).2 := rfl
    rw [hstep, hlist]
  by_cases hlost : t.lostBranch loop condition = []
  · have hnone := hrun [] t (by rw [hlost]; rfl)
    rw [List.append_nil] at hnone
    by_cases hkept : t.childrenOf? (t.branchSlot loop condition) = []
    · refine ⟨_, _, ?_, BranchEnd.block hlost hkept
        ((NewLeaf.create h .block).atLine? (t.node loop).line?)⟩
      rw [hnone, hkept]
      rfl
    · refine ⟨[], t, ?_, BranchEnd.nothing hlost hkept⟩
      rw [hnone, Build.orEmptyBlock, if_neg hkept, List.append_nil]
      rfl
  · obtain ⟨list, u, hlist, hnew⟩ := newDefinitions h hlost (t.node loop).line?
    refine ⟨[list], u, ?_, BranchEnd.definitions hlost hnew⟩
    rw [hrun [list] u hlist, Build.orEmptyBlock, if_neg (by simp)]
    rfl

/-! ### All that a rewrite can be -/

/-- Why the nodes `new` take the place of `old`; `x` is the node that brings it about, and `u` is the
tree with the nodes that are added. -/
inductive Reason (t u : Tree) (x : NodeId) : NodeId → List NodeId → Prop
  /-- A literal for a call or a comparison. -/
  | literal {old n : NodeId} {as : Attributes} (habove : t.AtOrBelow old x)
      (hkind : t.kind old = .call ∨ t.kind old = .operation)
      (leaf : t.NewLeaf .constant as n u) : Reason t u x old [n]
  /-- The value of an entry for a selection. -/
  | entry {b : NodeId} (hkind : t.kind x = .call) (same : u = t) (value : t.IsEntryValue x b) :
      Reason t u x x [b]
  /-- An operand for a conditional expression. -/
  | operand {operation slot : NodeId} (condition : Bool) (same : u = t)
      (hslot : t.IsSlotOf slot operation .first .operation Attr.operator Build.hookOperator)
      (hbelow : t.Below slot x) :
      Reason t u x operation
        (t.childrenOf? (t.childOfKind? operation (if condition then .second else .third)))
  /-- A branch for an `if` statement. -/
  | branch {loop slot : NodeId} {extra : List NodeId} (condition : Bool)
      (hslot : t.IsSlotOf slot loop .expression .loop Attr.loopType Build.ifType)
      (hbelow : t.Below slot x)
      (ending : t.BranchEnd (t.childrenOf? (t.branchSlot loop condition))
        (t.lostBranch loop condition) (t.node loop).line? extra u) :
      Reason t u x loop (t.childrenOf? (t.branchSlot loop condition) ++ extra)

namespace Reason

/-- What goes is the node that brings the rewrite about or above it. -/
lemma above (r : t.Reason u x old new) : t.AtOrBelow old x := by
  cases r with
  | literal habove => exact habove
  | entry => exact AtOrBelow.refl t _
  | operand _ _ hslot hbelow =>
    exact (below_of_parent hslot.parent_eq).atOrBelow.trans hbelow.atOrBelow
  | branch _ hslot hbelow =>
    exact (below_of_parent hslot.parent_eq).atOrBelow.trans hbelow.atOrBelow

/-- What goes is a call, an operation or a control statement. -/
lemma kind_old (r : t.Reason u x old new) :
    t.kind old = .call ∨ t.kind old = .operation ∨ t.kind old = .loop := by
  cases r with
  | literal _ hkind => exact hkind.imp_right Or.inl
  | entry hkind => exact Or.inl hkind
  | operand _ _ hslot => exact Or.inr (Or.inl hslot.kind_owner)
  | branch _ hslot => exact Or.inr (Or.inr hslot.kind_owner)

lemma grown (r : t.Reason u x old new) (h : t.WellLinked) : t.Grown u := by
  cases r with
  | literal _ _ leaf => exact leaf.grown
  | entry _ same =>
    subst same
    exact Grown.refl h
  | operand _ same =>
    subst same
    exact Grown.refl h
  | branch _ _ _ ending => exact ending.grown h

/-- The children of a slot of a node are below the node, and none is below another. -/
lemma slot_children (h : t.WellLinked) (old : NodeId) (k : Kind) :
    (∀ n ∈ t.childrenOf? (t.childOfKind? old k), t.Below old n) ∧
      (∀ m ∈ t.childrenOf? (t.childOfKind? old k),
        ∀ n ∈ t.childrenOf? (t.childOfKind? old k), ¬ t.Below m n) ∧
      (t.childrenOf? (t.childOfKind? old k)).Nodup := by
  rcases hslot : t.childOfKind? old k with _ | slot
  · simp [childrenOf?]
  · have hmem := (childOfKind?_some hslot).1
    refine ⟨fun n hn => ?_, fun m hm n hn => h.not_below_sibling hm hn, h.nodup_children slot⟩
    exact (h.below_child hmem).trans_left
      (h.below_child hn).atOrBelow

/-- What takes the place of an `if` statement was below it or is new, and nothing is there twice. -/
lemma branch_source (h : t.WellLinked) {condition : Bool} {extra : List NodeId}
    {lost : List Declaration} {line : Option Int64}
    (ending : t.BranchEnd (t.childrenOf? (t.branchSlot loop condition)) lost line extra u) :
    (∀ n ∈ t.childrenOf? (t.branchSlot loop condition) ++ extra,
      (t.size ≤ n ∧ n < u.size ∧ u.parent? n = none) ∨ t.Below loop n) ∧
    (t.childrenOf? (t.branchSlot loop condition) ++ extra).Nodup := by
  obtain ⟨hbelow, -, hnd⟩ :=
    slot_children h loop (if condition then .statement else .elseStatement)
  obtain ⟨hnd', hnew⟩ := ending.isNew
  constructor
  · intro n hn
    rcases List.mem_append.1 hn with hn | hn
    · exact Or.inr (hbelow n hn)
    · exact Or.inl (hnew n hn)
  · exact hnd.append hnd' fun n hn hn' => absurd (hbelow n hn).lt (not_lt.2 (hnew n hn').1)

/-- A rewrite with a reason can be made. -/
lemma graft (r : t.Reason u x old new) (h : t.WellLinked) (hx : t.AtOrBelow t.root x) :
    ∃ t', u.replaceWith old new = .ok t' ∧ t.Graft u old new t' := by
  have hgrown := r.grown h
  have hold : t.AtOrBelow t.root old := h.attached_above r.above hx
  cases r with
  | literal _ _ leaf =>
    exact hgrown.graft_single h hold (Or.inl ⟨leaf.le, leaf.lt, leaf.parent_new⟩)
  | entry _ _ value => exact hgrown.graft_single h hold (Or.inr value.below)
  | @operand _ _ condition =>
    obtain ⟨hbelow, hanti, hnd⟩ :=
      slot_children h old (if condition then .second else .third)
    exact hgrown.graft h hold (fun m hm => Or.inr (hbelow m hm)) hanti hnd
  | @branch _ _ extra condition _ _ ending =>
    obtain ⟨-, hanti, -⟩ := slot_children h old (if condition then .statement else .elseStatement)
    obtain ⟨-, hnew⟩ := ending.isNew
    obtain ⟨hsource, hnd⟩ := branch_source h ending
    -- a new node is neither below an old one nor above one
    have hfresh : ∀ n ∈ extra, ∀ m, ¬ t.Below m n := fun n hn m hm =>
      absurd hm.lt (not_lt.2 (hnew n hn).1)
    have hfresh' : ∀ n ∈ extra, ∀ m, ¬ t.Below n m := fun n hn m hm =>
      absurd (h.atOrBelow_lt hm.atOrBelow hm.lt) (not_lt.2 (hnew n hn).1)
    refine hgrown.graft h hold hsource (fun m hm m' hm' hmm => ?_) hnd
    rcases List.mem_append.1 hm with hm | hm
    · rcases List.mem_append.1 hm' with hm' | hm'
      · exact hanti m hm m' hm' hmm
      · exact hfresh m' hm' m hmm
    · exact hfresh' m hm m' hmm

/-! ### What a rewrite adds and takes away -/

/-- The nodes between the one that goes and those that come in are slots and their owners, not
functions. -/
lemma kind_between (r : t.Reason u x old new) (h : t.WellLinked) (hn : n ∈ new) (hlt : n < t.size)
    (habove : t.AtOrBelow old y) (hbelow : t.Below y n) : t.kind y ≠ .function := by
  have hslot : ∀ {slot k}, t.childOfKind? old k = some slot → k ≠ .function →
      t.kind old ≠ .function → n ∈ t.children slot → t.kind y ≠ .function := by
    intro slot k hslot hk hold hn
    obtain ⟨hmem, hkind⟩ := childOfKind?_some hslot
    rcases atOrBelow_iff.1 ((below_of_parent_iff (h.parent_of_mem hn)).1 hbelow) with rfl | hbelow
    · rwa [hkind]
    · have hle := (below_of_parent_iff (h.parent_of_mem hmem)).1 hbelow
      rwa [← h.antisymm habove hle]
  cases r with
  | literal _ _ leaf =>
    rw [List.mem_singleton.1 hn] at hlt
    exact absurd hlt (not_lt.2 leaf.le)
  | entry hkind _ value =>
    obtain ⟨params, map, entry, slot, hparams, hkparams, hmap, hkmap, hentry, hkentry, hslot,
      hkslot, hvalue⟩ := value.path
    rw [List.mem_singleton.1 hn, below_of_parent_iff hvalue] at hbelow
    rcases atOrBelow_iff.1 hbelow with rfl | hbelow
    · simp [hkslot]
    rcases atOrBelow_iff.1 ((below_of_parent_iff hslot).1 hbelow) with rfl | hbelow
    · simp [hkentry]
    rcases atOrBelow_iff.1 ((below_of_parent_iff hentry).1 hbelow) with rfl | hbelow
    · simp [hkmap]
    rcases atOrBelow_iff.1 ((below_of_parent_iff hmap).1 hbelow) with rfl | hbelow
    · simp [hkparams]
    have hle := (below_of_parent_iff hparams).1 hbelow
    simp [← h.antisymm habove hle, hkind]
  | operand condition _ hop =>
    obtain ⟨slot, hfound, hn⟩ := mem_childrenOf?.1 hn
    exact hslot hfound (by cases condition <;> simp) (by simp [hop.kind_owner]) hn
  | branch condition hloop _ ending =>
    rcases List.mem_append.1 hn with hn | hn
    · obtain ⟨slot, hfound, hn⟩ := mem_childrenOf?.1 hn
      exact hslot hfound (by cases condition <;> simp) (by simp [hloop.kind_owner]) hn
    · exact absurd hlt (not_lt.2 (ending.isNew.2 n hn).1)

/-- A node that comes in and is not new stood in a slot. -/
lemma slot_of_new (r : t.Reason u x old new) (h : t.WellLinked) (hn : n ∈ new) (hlt : n < t.size) :
    ∃ slot, t.parent? n = some slot ∧ (t.kind slot = .value ∨ t.kind slot = .second ∨
      t.kind slot = .third ∨ t.kind slot = .statement ∨ t.kind slot = .elseStatement) := by
  cases r with
  | literal _ _ leaf =>
    rw [List.mem_singleton.1 hn] at hlt
    exact absurd hlt (not_lt.2 leaf.le)
  | entry _ _ value =>
    obtain ⟨_, _, _, slot, _, _, _, _, _, _, _, hkind, hparent⟩ := value.path
    rw [List.mem_singleton.1 hn]
    exact ⟨slot, hparent, Or.inl hkind⟩
  | operand condition =>
    obtain ⟨slot, hslot, hmem⟩ := mem_childrenOf?.1 hn
    refine ⟨slot, h.parent_of_mem hmem, ?_⟩
    rw [(childOfKind?_some hslot).2]
    cases condition <;> simp
  | branch condition _ _ ending =>
    rcases List.mem_append.1 hn with hn | hn
    · obtain ⟨slot, hslot, hmem⟩ := mem_childrenOf?.1 hn
      refine ⟨slot, h.parent_of_mem hmem, ?_⟩
      rw [(childOfKind?_some hslot).2]
      cases condition <;> simp
    · exact absurd hlt (not_lt.2 (ending.isNew.2 n hn).1)

/-- The node that brings a rewrite about is not below what comes in: it is in another slot. -/
lemma not_atOrBelow_new (r : t.Reason u x old new) (h : t.WellLinked) (hx : x < t.size)
    (hn : n ∈ new) : ¬ t.AtOrBelow n x := by
  intro hle
  have hlt := h.atOrBelow_lt hle hx
  -- two slots of one owner have nothing below them in common
  have hslots : ∀ {first other k}, first ∈ t.children old → t.Below first x →
      t.childOfKind? old k = some other → t.kind first ≠ k → ¬ n ∈ t.children other := by
    intro first other k hfirst hbelow hother hkind hmem
    obtain ⟨hothermem, hotherkind⟩ := childOfKind?_some hother
    have hother' : t.AtOrBelow other x :=
      (h.below_child hmem).atOrBelow.trans hle
    refine h.siblings_apart hfirst hothermem (fun heq => ?_) hbelow.atOrBelow hother'
    exact hkind (heq ▸ hotherkind)
  cases r with
  | literal _ _ leaf =>
    rw [List.mem_singleton.1 hn] at hlt
    exact absurd hlt (not_lt.2 leaf.le)
  | entry _ _ value =>
    rw [List.mem_singleton.1 hn] at hle
    exact h.not_atOrBelow_of_below value.below hle
  | operand condition _ hslot hbelow =>
    obtain ⟨other, hother, hmem⟩ := mem_childrenOf?.1 hn
    refine hslots (h.mem_of_parent hslot.parent_eq) hbelow hother ?_ hmem
    rw [hslot.kind_slot]
    cases condition <;> simp
  | branch condition hslot hbelow ending =>
    rcases List.mem_append.1 hn with hn | hn
    · obtain ⟨other, hother, hmem⟩ := mem_childrenOf?.1 hn
      refine hslots (h.mem_of_parent hslot.parent_eq) hbelow hother ?_ hmem
      rw [hslot.kind_slot]
      cases condition <;> simp
    · exact absurd hlt (not_lt.2 (ending.isNew.2 n hn).1)

/-- A node that comes in and is new is a literal or an empty block, or the list of the declarations that
would be lost with a branch. -/
lemma new_cases (r : t.Reason u x old new) (h : t.WellLinked) (hn : n ∈ new) (hle : t.size ≤ n) :
    (∃ k as, (k = .constant ∨ k = .block) ∧ t.NewLeaf k as n u) ∨
    (t.kind old = .loop ∧ ∃ condition line, t.lostBranch old condition ≠ [] ∧
      t.NewDefinitions (t.lostBranch old condition) line n u) := by
  have hold : ∀ {slot}, ¬ n ∈ t.children slot := fun hmem => absurd (h.child_lt hmem) (not_lt.2 hle)
  cases r with
  | literal _ _ leaf =>
    rw [List.mem_singleton.1 hn]
    exact Or.inl ⟨_, _, Or.inl rfl, leaf⟩
  | entry _ _ value =>
    obtain ⟨_, _, _, _, _, _, _, _, _, _, _, _, hvalue⟩ := value.path
    rw [List.mem_singleton.1 hn] at hold
    exact absurd (h.mem_of_parent hvalue) hold
  | operand =>
    obtain ⟨slot, -, hmem⟩ := mem_childrenOf?.1 hn
    exact absurd hmem hold
  | branch condition hloop _ ending =>
    rcases List.mem_append.1 hn with hn | hn
    · obtain ⟨slot, -, hmem⟩ := mem_childrenOf?.1 hn
      exact absurd hmem hold
    cases ending with
    | nothing => exact absurd hn List.not_mem_nil
    | block _ _ leaf =>
      rw [List.mem_singleton.1 hn]
      exact Or.inl ⟨_, _, Or.inr rfl, leaf⟩
    | definitions hlost list =>
      rw [List.mem_singleton.1 hn]
      exact Or.inr ⟨hloop.kind_owner, condition, _, hlost, list⟩

/-- Below a new node that comes in there is at most one layer of declarations. -/
lemma child_of_new (r : t.Reason u x old new) (h : t.WellLinked) (hn : n ∈ new) (hle : t.size ≤ n)
    (hc : c ∈ u.children n) : u.kind c = .definition ∧ u.children c = [] ∧ t.kind old = .loop ∧
      ∃ condition, t.lostBranch old condition ≠ [] := by
  rcases r.new_cases h hn hle with ⟨k, as, -, leaf⟩ | ⟨hkind, condition, line, hlost, list⟩
  · rw [leaf.children_new] at hc
    exact absurd hc List.not_mem_nil
  · obtain ⟨d, -, hkc, -, hcc⟩ := list.of_child hc
    exact ⟨hkc, hcc, hkind, condition, hlost⟩

/-- A node that is added and belongs to the tree is the block for the root, or comes in itself, or is a
child of one that does. -/
lemma added_place (r : t.Reason u x old new) (g : t.Graft u old new t')
    (hatt : t'.AtOrBelow t'.root y) (hy : t.size ≤ y) :
    (y = u.size ∧ t'.kind y = .block) ∨ y ∈ new ∨
      ∃ list ∈ new, t.size ≤ list ∧ u.parent? y = some list ∧ t'.parent? y = some list := by
  -- by induction from the root down: only children of nodes that come in are new and have parents
  induction y using g.wellLinked.induction_from_top with
  | top y hnone =>
    rcases g.added_cases hatt hy with hblock | hnew | ⟨p, -, -, -, -, hp⟩
    · exact Or.inl hblock
    · exact Or.inr (Or.inl hnew)
    · rw [hnone] at hp
      exact absurd hp (by simp)
  | step y q hq ih =>
    rcases g.added_cases hatt hy with hblock | hnew | ⟨p, hattp, hple, hplt, hpu, hp⟩
    · exact Or.inl hblock
    · exact Or.inr (Or.inl hnew)
    obtain rfl : q = p := Option.some_injective _ (hq.symm.trans hp)
    rcases ih hattp hple with ⟨heq, -⟩ | hnew | ⟨list, hlist, hle, hparent, -⟩
    · exact absurd hplt (heq ▸ lt_irrefl _)
    · exact Or.inr (Or.inr ⟨q, hnew, hple, hpu, hp⟩)
    · obtain ⟨-, hnil, -⟩ := r.child_of_new g.wellLinked_before hlist hle
        (g.grown.wellLinked.mem_of_parent hparent)
      have hmem := g.grown.wellLinked.mem_of_parent hpu
      rw [hnil] at hmem
      exact absurd hmem List.not_mem_nil

/-- A node that is added and belongs to the tree is a literal, a block or a list of declarations, or it
is a declaration in such a list, which stands for declarations that would be lost. -/
lemma added (r : t.Reason u x old new) (g : t.Graft u old new t') (hatt : t'.AtOrBelow t'.root y)
    (hy : t.size ≤ y) :
    (t'.kind y = .constant ∨ t'.kind y = .block ∨ t'.kind y = .definitionList) ∨
    (t'.kind y = .definition ∧ t.kind old = .loop ∧ (∃ condition, t.lostBranch old condition ≠ []) ∧
      ∃ list ∈ new, t.size ≤ list ∧ t'.parent? y = some list) := by
  have h := g.wellLinked_before
  rcases r.added_place g hatt hy with ⟨-, hblock⟩ | hnew | ⟨list, hlist, hle, hparent, hparent'⟩
  · exact Or.inl (Or.inr (Or.inl hblock))
  · left
    rcases r.new_cases h hnew hy with ⟨k, as, hk, leaf⟩ | ⟨-, condition, line, -, list⟩
    · rw [g.replaced.kind_eq y leaf.lt, leaf.kind_new]
      exact hk.imp_right Or.inl
    · rw [g.replaced.kind_eq y list.lt, list.kind_list]
      exact Or.inr (Or.inr rfl)
  · right
    obtain ⟨hkind, -, hloop, hlost⟩ :=
      r.child_of_new h hlist hle (g.grown.wellLinked.mem_of_parent hparent)
    rw [g.replaced.kind_eq y (lt_of_parent hparent)]
    exact ⟨hkind, hloop, hlost, list, hlist, hle, hparent'⟩

/-- A literal that is added and belongs to the tree comes in itself. -/
lemma mem_new_of_constant (r : t.Reason u x old new) (g : t.Graft u old new t')
    (hatt : t'.AtOrBelow t'.root y) (hy : t.size ≤ y) (hkind : t'.kind y = .constant) :
    y ∈ new := by
  rcases r.added_place g hatt hy with ⟨-, hblock⟩ | hnew | ⟨list, hlist, hle, hparent, -⟩
  · rw [hkind] at hblock
    exact absurd hblock (by simp)
  · exact hnew
  · obtain ⟨hdef, -⟩ := r.child_of_new g.wellLinked_before hlist hle
      (g.grown.wellLinked.mem_of_parent hparent)
    rw [← g.replaced.kind_eq y (lt_of_parent hparent), hkind] at hdef
    exact absurd hdef (by simp)

end Reason

end Tree

end VariantFold
