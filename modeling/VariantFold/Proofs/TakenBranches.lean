/-
Branches that are taken.

When the condition of an `if` statement is known, the statements of one branch take its place
(`TakesBranch`).  After them the names are declared that only the other branch declares, outside of
functions: one definition for each name, in the order in which the walk through that branch first meets
them (`LostDefinitions`).  If nothing would be left, an empty block takes the place.
`inlineIf_effect` says all this about the tree afterwards, and that nothing else changes.
-/
import VariantFold.Proofs.Declarations
import VariantFold.Proofs.InPlace

namespace VariantFold

/-! ### First declarations -/

lemma nodup_firstDeclarations (seen : List String) (ds : List Declaration) :
    ((firstDeclarations seen ds).map Prod.fst).Nodup := by
  induction ds generalizing seen with
  | nil => exact List.nodup_nil
  | cons d ds ih =>
    rw [firstDeclarations]
    split
    · exact ih seen
    · refine List.nodup_cons.2 ⟨fun hmem => ?_, ih (d.1 :: seen)⟩
      exact (Tree.mem_firstDeclarations.1 hmem).2 List.mem_cons_self

/-- No member of the list before `a` has the property. -/
def NoneBefore {α : Type} (P : α → Prop) (l : List α) (a : α) : Prop :=
  ∃ before after, l = before ++ a :: after ∧ ∀ b ∈ before, ¬ P b

section NoneBefore

variable {α : Type} {P Q : α → Prop} {l : List α} {a b : α}

lemma noneBefore_head (P : α → Prop) (l : List α) (a : α) : NoneBefore P (a :: l) a :=
  ⟨[], l, rfl, by simp⟩

lemma NoneBefore.cons (h : NoneBefore P l a) (hb : ¬ P b) : NoneBefore P (b :: l) a := by
  obtain ⟨before, after, rfl, hbefore⟩ := h
  exact ⟨b :: before, after, rfl, List.forall_mem_cons.2 ⟨hb, hbefore⟩⟩

lemma NoneBefore.mono (h : NoneBefore P l a) (hQ : ∀ b, Q b → P b) : NoneBefore Q l a := by
  obtain ⟨before, after, hl, hbefore⟩ := h
  exact ⟨before, after, hl, fun b hb hq => hbefore b hb (hQ b hq)⟩

end NoneBefore

/-- The first declarations of names that have not been seen, with the places where they are found. -/
lemma exists_declarers {α : Type} (f : α → Option Declaration) (l : List α) (seen : List String) :
    ∃ ds : List (α × String), (ds.map Prod.fst).Sublist l ∧
      List.Forall₂ (fun a (d : Declaration) => f a.1 = some d ∧ d.1 = a.2) ds
        (firstDeclarations seen (l.filterMap f)) ∧
      ∀ a ∈ ds, a.2 ∉ seen ∧ NoneBefore (fun b => ∃ d, f b = some d ∧ d.1 = a.2) l a.1 := by
  induction l generalizing seen with
  | nil => exact ⟨[], List.Sublist.refl _, List.Forall₂.nil, by simp⟩
  | cons b l ih =>
    rcases hb : f b with _ | d
    · obtain ⟨ds, hsub, hall, hfirst⟩ := ih seen
      rw [List.filterMap_cons_none hb]
      exact ⟨ds, hsub.cons b, hall, fun a ha => ⟨(hfirst a ha).1, (hfirst a ha).2.cons (by simp [hb])⟩⟩
    · -- further on only names other than that of `d` count
      have hnot : ∀ {name : String}, d.1 ≠ name → ¬ ∃ d', f b = some d' ∧ d'.1 = name := by
        rintro name hne ⟨d', hd', rfl⟩
        exact hne (congrArg Prod.fst (Option.some_injective _ (hb.symm.trans hd')))
      rw [List.filterMap_cons_some hb, firstDeclarations]
      by_cases hd : d.1 ∈ seen
      · obtain ⟨ds, hsub, hall, hfirst⟩ := ih seen
        rw [if_pos hd]
        refine ⟨ds, hsub.cons b, hall, fun a ha => ⟨(hfirst a ha).1, (hfirst a ha).2.cons ?_⟩⟩
        exact hnot fun heq => (hfirst a ha).1 (heq ▸ hd)
      · obtain ⟨ds, hsub, hall, hfirst⟩ := ih (d.1 :: seen)
        rw [if_neg hd]
        refine ⟨(b, d.1) :: ds, hsub.cons_cons b, List.Forall₂.cons ⟨hb, rfl⟩ hall, ?_⟩
        intro a ha
        rcases List.mem_cons.1 ha with rfl | ha
        · exact ⟨hd, noneBefore_head _ l b⟩
        · obtain ⟨hseen, hbefore⟩ := hfirst a ha
          rw [List.mem_cons, not_or] at hseen
          exact ⟨hseen.2, hbefore.cons (hnot (Ne.symm hseen.1))⟩

lemma Node.declaration?_some {n : Node} {d : Declaration} (h : n.declaration? = some d) :
    n.declaredName? = some d.1 ∧ d.2 = n.line? := by
  refine ⟨by rw [declaredName?, h]; rfl, ?_⟩
  rw [declaration?] at h
  split at h
  · obtain ⟨name, -, rfl⟩ := Option.map_eq_some_iff.1 h
    rfl
  · exact absurd h (by simp)

namespace Tree

variable {t t' u : Tree} {d dropped loop n p slot x y : NodeId} {condition : Bool} {name : String}
  {ds : List (NodeId × String)} {extra : List NodeId}

/-! ### The names that only the dropped branch declares -/

/-- The definition `d` declares the name at or below `x`, and not in a function. -/
def DeclaresAt (t : Tree) (x d : NodeId) (name : String) : Prop :=
  t.InScope x d ∧ (t.node d).declaredName? = some name

/-- The definition `d` declares the name, and no other does so before it on the walk from `x`. -/
def FirstDeclares (t : Tree) (x d : NodeId) (name : String) : Prop :=
  t.DeclaresAt x d name ∧ NoneBefore (fun e => t.DeclaresAt x e name) (t.descendants x) d

/-- The branch that is dropped declares the name, and the one that is kept does not. -/
def LosesName (t : Tree) (loop : NodeId) (condition : Bool) (name : String) : Prop :=
  (∃ slot d, t.branchSlot loop (!condition) = some slot ∧ t.DeclaresAt slot d name) ∧
    ¬ ∃ slot d, t.branchSlot loop condition = some slot ∧ t.DeclaresAt slot d name

/-- The definitions of the names that only the dropped branch declares: for each name the first one, in
the order of the walk. -/
structure LostDefinitions (t : Tree) (loop : NodeId) (condition : Bool) (dropped : NodeId)
    (ds : List (NodeId × String)) : Prop where
  ordered : (ds.map Prod.fst).Sublist (t.descendants dropped)
  first : ∀ d ∈ ds, t.FirstDeclares dropped d.1 d.2
  names : ∀ name, name ∈ ds.map Prod.snd ↔ t.LosesName loop condition name
  nodup : (ds.map Prod.snd).Nodup

lemma WellLinked.losesName_iff (h : t.WellLinked) :
    t.LosesName loop condition name ↔ name ∈ (t.lostBranch loop condition).map Prod.fst := by
  have hbranch : ∀ b, t.BranchDeclares loop b name ↔
      ∃ slot d, t.branchSlot loop b = some slot ∧ t.DeclaresAt slot d name := by
    intro b
    refine exists_congr fun slot => ?_
    rw [h.declares_iff_inScope, exists_and_left]
    rfl
  rw [mem_lostBranch, hbranch, hbranch]
  rfl

/-- A name is lost if there is a declaration to add. -/
lemma WellLinked.exists_losesName (h : t.WellLinked) :
    (∃ name, t.LosesName loop condition name) ↔ t.lostBranch loop condition ≠ [] := by
  simp only [h.losesName_iff]
  rcases t.lostBranch loop condition with _ | ⟨d, ds⟩
  · simp
  · simp only [ne_eq, reduceCtorEq, not_false_eq_true, iff_true]
    exact ⟨d.1, List.mem_cons_self⟩

open Classical in
/-- The declarations in a scope are met on the walk through all nodes. -/
lemma WellLinked.declarations_eq_filterMap (h : t.WellLinked) (x : NodeId) :
    t.declarations x = (t.descendants x).filterMap fun d =>
      if t.InScope x d then (t.node d).declaration? else none := by
  rw [declarations, h.scope_eq_filter, List.filterMap_filter]
  simp only [decide_eq_true_eq]

/-- The declarations that are added are those of lost definitions. -/
lemma WellLinked.exists_lostDefinitions (h : t.WellLinked)
    (hdropped : t.branchSlot loop (!condition) = some dropped) :
    ∃ ds, t.LostDefinitions loop condition dropped ds ∧
      t.lostBranch loop condition = ds.map fun d => (d.2, (t.node d.1).line?) := by
  classical
  obtain ⟨seen, hlost⟩ : ∃ seen, t.lostBranch loop condition =
      firstDeclarations seen (t.declarations dropped) := by
    rw [lostBranch, hdropped]
    exact ⟨_, rfl⟩
  rw [h.declarations_eq_filterMap] at hlost
  obtain ⟨ds, hsub, hall, hfirst⟩ := exists_declarers
    (fun d => if t.InScope dropped d then (t.node d).declaration? else none)
    (t.descendants dropped) seen
  rw [← hlost] at hall
  have hnames : ds.map Prod.snd = (t.lostBranch loop condition).map Prod.fst := by
    rw [← List.forall₂_eq_eq_eq, List.forall₂_map_left_iff, List.forall₂_map_right_iff]
    exact hall.imp fun a d had => had.2.symm
  have hfound : ∀ {e : NodeId} {d : Declaration},
      (if t.InScope dropped e then (t.node e).declaration? else none) = some d →
      t.InScope dropped e ∧ (t.node e).declaration? = some d := by
    intro e d hed
    split at hed
    · exact ⟨‹_›, hed⟩
    · exact absurd hed (by simp)
  refine ⟨ds, ⟨hsub, ?_, ?_, ?_⟩, ?_⟩
  · intro a ha
    obtain ⟨d, -, hd, hname⟩ := exists_of_forall₂ hall ha
    obtain ⟨hscope, hdecl⟩ := hfound hd
    refine ⟨⟨hscope, hname ▸ (Node.declaration?_some hdecl).1⟩, (hfirst a ha).2.mono ?_⟩
    rintro e ⟨hscope', hname'⟩
    obtain ⟨d', hdecl', hd'⟩ := Option.map_eq_some_iff.1 hname'
    exact ⟨d', by rw [if_pos hscope', hdecl'], hd'⟩
  · intro name
    rw [hnames, h.losesName_iff]
  · rw [hnames, hlost]
    exact nodup_firstDeclarations _ _
  · rw [eq_comm, ← List.forall₂_eq_eq_eq, List.forall₂_map_left_iff]
    refine hall.imp ?_
    rintro a d ⟨hd, hname⟩
    obtain ⟨-, hline⟩ := Node.declaration?_some (hfound hd).2
    exact Prod.ext hname.symm hline.symm

/-! ### Taking a branch -/

section BranchEnd

variable {kept : List NodeId} {lost : List Declaration} {line : Option Int64}

lemma BranchEnd.of_lost (ending : t.BranchEnd kept lost line extra u) (hlost : lost ≠ []) :
    ∃ list, extra = [list] ∧ t.NewDefinitions lost line list u := by
  cases ending with
  | nothing hnil => exact absurd hnil hlost
  | block hnil => exact absurd hnil hlost
  | definitions _ list => exact ⟨_, rfl, list⟩

lemma BranchEnd.of_nothing (ending : t.BranchEnd kept lost line extra u) (hlost : lost = [])
    (hkept : kept = []) :
    ∃ block, extra = [block] ∧ t.NewLeaf .block (Attributes.withLine KeyMap.empty line) block u := by
  cases ending with
  | nothing _ hne => exact absurd hkept hne
  | block _ _ leaf => exact ⟨_, rfl, leaf⟩
  | definitions hne => exact absurd hlost hne

lemma BranchEnd.of_kept (ending : t.BranchEnd kept lost line extra u) (hlost : lost = [])
    (hkept : kept ≠ []) : extra = [] := by
  cases ending with
  | nothing => rfl
  | block _ hnil => exact absurd hnil hkept
  | definitions hne => exact absurd hlost hne

end BranchEnd

/-- In `t'` a branch has taken the place of the `if` statement `loop`.  After its statements come the nodes
`extra`, which `u` has more than `t`. -/
structure TakesBranch (t u : Tree) (loop : NodeId) (condition : Bool) (extra : List NodeId)
    (t' : Tree) : Prop where
  wellLinked_before : t.WellLinked
  ending : t.BranchEnd (t.childrenOf? (t.branchSlot loop condition)) (t.lostBranch loop condition)
    (t.node loop).line? extra u
  replaced : u.Replaced loop (t.childrenOf? (t.branchSlot loop condition) ++ extra) t'

/-- A branch can be taken wherever the `if` statement is. -/
lemma WellLinked.inlineIf_takesBranch (h : t.WellLinked) (hloop : loop < t.size) (condition : Bool) :
    ∃ extra u t', Edit.inlineIf loop condition t = .ok () t' ∧
      t.TakesBranch u loop condition extra t' := by
  obtain ⟨extra, u, hrun, ending⟩ := takenBranch_eq h loop condition
  have hgrown := ending.grown h
  obtain ⟨hsource, hnd⟩ := Reason.branch_source h ending
  obtain ⟨t', hok, replaced⟩ :=
    hgrown.wellLinked.replaceWith_ok (hgrown.replaceable h hloop hsource hnd)
  refine ⟨extra, u, t', ?_, h, ending, replaced⟩
  rw [inlineIf_eq, hrun]
  exact Edit.replaceWith_ok hok

namespace TakesBranch

variable (b : t.TakesBranch u loop condition extra t')
include b

lemma grown : t.Grown u := b.ending.grown b.wellLinked_before

/-- What takes the place of the `if` statement was below it or is new. -/
lemma not_mem_new (hx : x < t.size) (hnot : ¬ t.Below loop x) :
    x ∉ t.childrenOf? (t.branchSlot loop condition) ++ extra := by
  intro hmem
  rcases (Reason.branch_source b.wellLinked_before b.ending).1 x hmem with ⟨hle, -, -⟩ | hbelow
  · exact absurd hx (not_lt.2 hle)
  · exact hnot hbelow

/-- No child is taken away from a node other than the slot of the branch. -/
lemma filter_children (hx : x < t.size) (hslot : t.branchSlot loop condition ≠ some x) :
    (u.children x).filter (· ∉ t.childrenOf? (t.branchSlot loop condition) ++ extra) =
      t.children x := by
  have h := b.wellLinked_before
  rw [b.grown.children_eq hx]
  refine List.filter_eq_self.2 fun y hy => decide_eq_true fun hmem => ?_
  rcases List.mem_append.1 hmem with hkept | hextra
  · obtain ⟨slot, hfound, hchild⟩ := mem_childrenOf?.1 hkept
    have heq : slot = x :=
      Option.some_injective _ ((h.parent_of_mem hchild).symm.trans (h.parent_of_mem hy))
    exact hslot (heq ▸ hfound)
  · exact absurd (h.child_lt hy) (not_lt.2 (b.ending.isNew.2 y hextra).1)

lemma parent_outside (hx : x < t.size) (hnot : ¬ t.AtOrBelow loop x) :
    t'.parent? x = t.parent? x := by
  have hne : x ≠ loop := fun heq => hnot (heq ▸ AtOrBelow.refl t x)
  rw [b.replaced.parent_eq, if_neg (b.not_mem_new hx fun hbelow => hnot hbelow.atOrBelow), if_neg hne,
    b.grown.parent_eq hx]

lemma label (hx : x < t.size) : t.SameLabel t' x :=
  ⟨(b.replaced.kind_eq x (hx.trans_le b.grown.size_le)).trans (b.grown.kind_eq hx),
    (b.replaced.attributes_eq x (hx.trans_le b.grown.size_le)).trans (b.grown.attributes_eq hx)⟩

variable (hp : t.parent? loop = some p)
include hp

lemma parent_loop : u.parent? loop = some p := (b.grown.parent_eq (lt_of_parent hp)).trans hp

/-- Among the children of the parent the branch stands where the `if` statement stood. -/
lemma children_parent : ∃ before after, t.children p = before ++ loop :: after ∧
    t'.children p =
      before ++ (t.childrenOf? (t.branchSlot loop condition) ++ extra) ++ after := by
  have h := b.wellLinked_before
  have hslot : t.branchSlot loop condition ≠ some p := by
    intro hslot
    have hbelow := h.below_child (kind_branchSlot hslot).1
    exact h.not_atOrBelow_of_below (below_of_parent hp) hbelow.atOrBelow
  obtain ⟨before, after, hrow, hrow'⟩ := b.replaced.children_parent b.grown.wellLinked
    (b.not_mem_new (lt_of_parent hp) h.not_below_self) (b.parent_loop hp)
  rw [b.filter_children (h.parent_lt hp) hslot] at hrow
  exact ⟨before, after, hrow, hrow'⟩

lemma children_other (hx : x < t.size) (hne : x ≠ p)
    (hslot : t.branchSlot loop condition ≠ some x) : t'.children x = t.children x := by
  rw [b.replaced.children_other b.grown.wellLinked (hx.trans_le b.grown.size_le) ?_,
    b.filter_children hx hslot]
  rw [b.parent_loop hp, ne_eq, Option.some_inj]
  exact Ne.symm hne

/-- A node that was added keeps its children. -/
lemma children_added (hle : t.size ≤ x) (hlt : x < u.size) : t'.children x = u.children x := by
  have h := b.wellLinked_before
  rw [b.replaced.children_other b.grown.wellLinked hlt ?_]
  · refine List.filter_eq_self.2 fun y hy => decide_eq_true fun hmem => ?_
    have hley := b.grown.le_child h hle hy
    rcases List.mem_append.1 hmem with hkept | hextra
    · obtain ⟨slot, -, hchild⟩ := mem_childrenOf?.1 hkept
      exact absurd (h.child_lt hchild) (not_lt.2 hley)
    · -- what comes after the statements had no parent
      have hnone := (b.ending.isNew.2 y hextra).2.2
      exact absurd (hnone.symm.trans (b.grown.wellLinked.parent_of_mem hy)) (by simp)
  · rw [b.parent_loop hp, ne_eq, Option.some_inj]
    rintro rfl
    exact absurd (h.parent_lt hp) (not_lt.2 hle)

/-- The nodes after the statements, as they are afterwards. -/
lemma node_extra (hn : n ∈ extra) :
    t'.node n = ⟨u.kind n, u.attributes n, u.children n, some p⟩ := by
  obtain ⟨hle, hlt, -⟩ := b.ending.isNew.2 n hn
  refine node_eq_mk (b.replaced.kind_eq n hlt) (b.replaced.attributes_eq n hlt)
    (b.children_added hp hle hlt) ?_
  rw [b.replaced.parent_new (List.mem_append_right _ hn),
    place_of_parent b.grown.wellLinked (b.parent_loop hp)]

/-- What is below them stays as it is. -/
lemma node_below_extra (hn : n ∈ extra) (hx : x ∈ u.children n) : t'.node x = u.node x := by
  have h := b.wellLinked_before
  obtain ⟨hle, -, -⟩ := b.ending.isNew.2 n hn
  have hlex := b.grown.le_child h hle hx
  have hlt := b.grown.wellLinked.child_lt hx
  have hparent := b.grown.wellLinked.parent_of_mem hx
  have hne : x ≠ loop := fun heq => absurd (lt_of_parent hp) (not_lt.2 (heq ▸ hlex))
  refine node_ext (b.replaced.kind_eq x hlt) (b.replaced.attributes_eq x hlt)
    (b.children_added hp hlex hlt) ?_
  rw [b.replaced.parent_eq, if_neg ?_, if_neg hne]
  intro hmem
  rcases List.mem_append.1 hmem with hkept | hextra
  · obtain ⟨slot, -, hchild⟩ := mem_childrenOf?.1 hkept
    exact absurd (h.child_lt hchild) (not_lt.2 hlex)
  · exact absurd ((b.ending.isNew.2 x hextra).2.2.symm.trans hparent) (by simp)

/-- If names would be lost, a list of their definitions comes after the statements. -/
lemma definitions_follow (hlost : ∃ name, t.LosesName loop condition name) :
    ∃ list dropped ds, extra = [list] ∧ t.branchSlot loop (!condition) = some dropped ∧
      t.LostDefinitions loop condition dropped ds ∧ t'.kind list = .definitionList ∧
      t'.attributes list = Attributes.withLine KeyMap.empty (t.node loop).line? ∧
      List.Forall₂ (fun n (d : NodeId × String) => t'.node n =
        { kind := .definition, attributes := Declaration.attributes (d.2, (t.node d.1).line?),
          parent := some list }) (t'.children list) ds := by
  have h := b.wellLinked_before
  obtain ⟨name, ⟨dropped, -, hdropped, -⟩, -⟩ := id hlost
  obtain ⟨ds, hds, heq⟩ := h.exists_lostDefinitions hdropped
  obtain ⟨list, hextra, hnew⟩ := b.ending.of_lost (h.exists_losesName.1 hlost)
  have hmem : list ∈ extra := by simp [hextra]
  have hlist := b.node_extra hp hmem
  refine ⟨list, dropped, ds, hextra, hdropped, hds, ?_, ?_, ?_⟩
  · rw [kind, hlist, hnew.kind_list]
  · rw [attributes, hlist, hnew.attributes_list]
  · have hall := hnew.definitions
    rw [heq, List.forall₂_map_right_iff] at hall
    rw [children, hlist]
    refine List.forall₂_iff_zip.2 ⟨hall.length_eq, fun {n d} hzip => ?_⟩
    obtain ⟨hkind, hattributes, hchildren⟩ := (List.forall₂_iff_zip.1 hall).2 hzip
    have hn : n ∈ u.children list := (List.of_mem_zip hzip).1
    rw [b.node_below_extra hp hmem hn]
    exact node_eq_mk hkind hattributes hchildren (b.grown.wellLinked.parent_of_mem hn)

/-- If nothing would be left, an empty block takes the place. -/
lemma block_follows (hlost : t.lostBranch loop condition = [])
    (hkept : t.childrenOf? (t.branchSlot loop condition) = []) :
    ∃ block, extra = [block] ∧ t'.node block =
      { kind := .block, attributes := Attributes.withLine KeyMap.empty (t.node loop).line?,
        parent := some p } := by
  obtain ⟨block, hextra, leaf⟩ := b.ending.of_nothing hlost hkept
  refine ⟨block, hextra, ?_⟩
  rw [b.node_extra hp (by simp [hextra]), leaf.kind_new, leaf.attributes_new, leaf.children_new]

end TakesBranch

/-- Take an `if` statement of a well-linked tree that has a parent, and a truth value for its condition.
Among the children of the parent the statements of the branch that is kept take the place of the `if`
statement, in order.  A list of definitions follows exactly if only the other branch declares some name:
one definition for each such name, in the order in which the other branch first declares them and with the
lines of these declarations.  If there are neither statements nor such names, an empty block with the line
of the `if` statement takes its place.  But for the branch that is kept no other node loses or gains
children, outside the `if` statement no parent changes, and all kinds and attributes stay as they are. -/
theorem inlineIf_effect (h : t.WellLinked) (hp : t.parent? loop = some p) (condition : Bool) :
    ∃ before after extra t', Edit.inlineIf loop condition t = .ok () t' ∧ t'.WellLinked ∧
      t'.root = t.root ∧ (∀ n ∈ extra, t.size ≤ n) ∧
      t.children p = before ++ loop :: after ∧
      t'.children p =
        before ++ (t.childrenOf? (t.branchSlot loop condition) ++ extra) ++ after ∧
      ((∃ name, t.LosesName loop condition name) → ∃ list dropped ds, extra = [list] ∧
        t.branchSlot loop (!condition) = some dropped ∧
        t.LostDefinitions loop condition dropped ds ∧ t'.kind list = .definitionList ∧
        t'.attributes list = Attributes.withLine KeyMap.empty (t.node loop).line? ∧
        List.Forall₂ (fun n (d : NodeId × String) => t'.node n =
          { kind := .definition, attributes := Declaration.attributes (d.2, (t.node d.1).line?),
            parent := some list }) (t'.children list) ds) ∧
      ((¬ ∃ name, t.LosesName loop condition name) →
        t.childrenOf? (t.branchSlot loop condition) ≠ [] → extra = []) ∧
      ((¬ ∃ name, t.LosesName loop condition name) →
        t.childrenOf? (t.branchSlot loop condition) = [] → ∃ block, extra = [block] ∧
          t'.node block =
            { kind := .block, attributes := Attributes.withLine KeyMap.empty (t.node loop).line?,
              parent := some p }) ∧
      (∀ x < t.size, x ≠ p → t.branchSlot loop condition ≠ some x →
        t'.children x = t.children x) ∧
      (∀ x < t.size, ¬ t.AtOrBelow loop x → t'.parent? x = t.parent? x) ∧
      ∀ x < t.size, t'.kind x = t.kind x ∧ t'.attributes x = t.attributes x := by
  obtain ⟨extra, u, t', hrun, b⟩ := h.inlineIf_takesBranch (lt_of_parent hp) condition
  obtain ⟨before, after, hrow, hrow'⟩ := b.children_parent hp
  have hroot : t'.root = t.root := by
    rw [b.replaced.root_eq, newRoot_of_ne, b.grown.root_eq]
    rw [b.grown.root_eq]
    exact h.ne_root_of_parent hp
  refine ⟨before, after, extra, t', hrun, b.replaced.wellLinked, hroot, ?_, hrow, hrow',
    b.definitions_follow hp, ?_, ?_, ?_, ?_, ?_⟩
  · intro n hn
    exact (b.ending.isNew.2 n hn).1
  · intro hnone hkept
    rw [h.exists_losesName, not_not] at hnone
    exact b.ending.of_kept hnone hkept
  · intro hnone hkept
    rw [h.exists_losesName, not_not] at hnone
    exact b.block_follows hp hnone hkept
  · intro x hx hne hslot
    exact b.children_other hp hx hne hslot
  · intro x hx hnot
    exact b.parent_outside hx hnot
  · intro x hx
    exact ⟨(b.label hx).kind_eq, (b.label hx).attributes_eq⟩

/-- An `if` statement without statements in its first branch.  The other branch declares a name twice,
another one in a function, and a third one. -/
def ifWithDeclarations : Tree where
  root := 0
  nodes := ⟨#[
    { kind := .file, children := [1, 2] },
    { kind := .emptyStatement, parent := some 0 },
    { kind := .loop, children := [3, 4, 5], parent := some 0,
      attributes := KeyMap.empty.insert Attr.loopType (.string Build.ifType) },
    { kind := .expression, children := [6], parent := some 2 },
    { kind := .statement, parent := some 2 },
    { kind := .elseStatement, children := [7, 9, 11], parent := some 2 },
    { kind := .constant, parent := some 3, attributes := (Scalar.bool true).literalAttributes },
    { kind := .var, children := [8], parent := some 5 },
    { kind := .definition, parent := some 7, attributes := Declaration.attributes ("x", some 3) },
    { kind := .function, children := [10], parent := some 5 },
    { kind := .definition, parent := some 9, attributes := Declaration.attributes ("y", none) },
    { kind := .var, children := [12, 13], parent := some 5 },
    { kind := .definition, parent := some 11, attributes := Declaration.attributes ("x", some 5) },
    { kind := .definition, parent := some 11, attributes := Declaration.attributes ("z", none) }]⟩

theorem inlineIf_effect_ifWithDeclarations :
    ifWithDeclarations.WellLinked ∧ ifWithDeclarations.parent? 2 = some 0 ∧
    ∃ list ds t', Edit.inlineIf 2 true ifWithDeclarations = .ok () t' ∧
      t'.children 0 = [1, list] ∧ t'.kind list = .definitionList ∧
      ifWithDeclarations.LostDefinitions 2 true 5 ds ∧
      (∀ name, name ∈ ds.map Prod.snd ↔ name = "x" ∨ name = "z") ∧
      (t'.children list).length = ds.length := by
  have h : ifWithDeclarations.WellLinked := by decide
  have hp : ifWithDeclarations.parent? 2 = some 0 := rfl
  have hlost : (ifWithDeclarations.lostBranch 2 true).map Prod.fst = ["x", "z"] := by decide
  have hnames : ∀ name, ifWithDeclarations.LosesName 2 true name ↔ name = "x" ∨ name = "z" := by
    intro name
    rw [h.losesName_iff, hlost]
    simp
  obtain ⟨before, after, extra, t', hrun, -, -, -, hrow, hrow', hdefinitions, -⟩ :=
    inlineIf_effect h hp true
  obtain ⟨list, dropped, ds, rfl, hdropped, hds, hkind, -, hall⟩ :=
    hdefinitions ⟨"x", (hnames "x").2 (Or.inl rfl)⟩
  obtain rfl : 5 = dropped := Option.some_injective _ hdropped
  refine ⟨h, hp, list, ds, t', hrun, ?_, hkind, hds, ?_, hall.length_eq⟩
  · -- the `if` statement is the second of two children
    have hsplit : [1] ++ 2 :: [] = before ++ 2 :: after := hrow
    obtain ⟨rfl, -, rfl⟩ := (List.append_cons_inj_of_notMem (by decide) (by decide)).1 hsplit
    exact hrow'
  · intro name
    rw [hds.names, hnames]

end Tree

end VariantFold
