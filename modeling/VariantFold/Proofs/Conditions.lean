/-
Conditions on variants.

The condition of an `if` statement is a call for a variant or a comparison of its value, perhaps within
groups.  When the run comes to the call, the value takes the place of the call, the outcome that of the
comparison, and the branch that of the statement (`Takes`).  `Decides` says which branch, and
`Condition.decides` that it is the one given by the truth of the condition.  If the variant is not
configured, the condition stays (`Condition.simulates_unset`).
-/
import VariantFold.Proofs.CallRules
import VariantFold.Proofs.Groups

namespace VariantFold

open Step

/-! ### Requests -/

namespace Tree

variable {t t₁ t₂ u : Tree} {m n old x : NodeId} {new : List NodeId} {namespaces : List String}
  {key : String} {args : List Scalar}

/-- What a node looks like that comes in and has nothing below it. -/
lemma Graft.snapshot_leaf {kind : Kind} {as : Attributes} (g : t.Graft u old new t₁)
    (leaf : t.NewLeaf kind as n u) : t₁.snapshot n = .node kind as [] := by
  refine g.wellLinked.snapshot_iff.2 ⟨?_, ?_, ?_⟩
  · exact (g.replaced.kind_eq n leaf.lt).trans leaf.kind_new
  · exact (g.replaced.attributes_eq n leaf.lt).trans leaf.attributes_new
  · rw [g.children_added leaf.le leaf.lt, leaf.children_new]
    rfl

/-- A node that looks like the literal of a scalar denotes the scalar. -/
lemma WellLinked.decode_literal (h : t.WellLinked) {v : Scalar} (hv : v.isExact = true)
    (hx : t.snapshot x = Shape.literal v) : t.kind x = .constant ∧ (t.node x).decode? = some v := by
  obtain ⟨hkind, has, -⟩ := h.snapshot_iff.1 hx
  exact ⟨hkind, Node.decode?_literal hkind has hv⟩

/-- A literal is no comment, and there are no calls in it. -/
lemma WellLinked.literal_leaf (h : t.WellLinked) {v : Scalar} (hx : t.snapshot x = Shape.literal v) :
    (t.kind x).isComment = false ∧ t.sitesBelow namespaces x = [] := by
  obtain ⟨hkind, -, hchildren⟩ := h.snapshot_iff.1 hx
  refine ⟨?_, h.sitesBelow_leaf (by simp [hkind]) (List.map_eq_nil_iff.1 hchildren)⟩
  rw [hkind]
  rfl

/-- The node `x` is a call with a key and other literals that asks for a variant. -/
structure IsRequest (t : Tree) (namespaces : List String) (method : Method) (callee : String)
    (x : NodeId) (key : String) (args : List Scalar) : Prop where
  kind_call : t.kind x = .call
  line_eq : (t.node x).line? = none
  arguments : ∃ keyArg rest, t.keyArguments x (args.length + 1) = .ok (key, keyArg :: rest) ∧
    rest.map t.snapshot = args.map Shape.literal
  sites_eq : t.sitesBelow namespaces x = [⟨x, method, callee⟩]

lemma IsRequest.isComment_eq {method : Method} {callee : String}
    (q : t.IsRequest namespaces method callee x key args) : (t.kind x).isComment = false := by
  rw [q.kind_call]
  rfl

lemma WellLinked.isRequest (h : t.WellLinked) {space : Space namespaces} {method : Method}
    (hx : t.snapshot x = Shape.call (space.callee method)
      (Shape.literal (.string key) :: args.map Shape.literal)) :
    t.IsRequest namespaces method (space.callee method) x key args := by
  obtain ⟨operand, name, params, c, hargs⟩ := h.isCall hx
  obtain ⟨keyArg, rest, hparams, hkey, hrest⟩ := List.map_eq_cons_iff.1 hargs
  have hliteral : ∀ a ∈ keyArg :: rest,
      (t.kind a).isComment = false ∧ t.sitesBelow namespaces a = [] := by
    intro a ha
    rcases List.mem_cons.1 ha with rfl | ha
    · exact h.literal_leaf hkey
    · obtain ⟨v, -, hv⟩ := List.mem_map.1 (hrest ▸ List.mem_map_of_mem ha)
      exact h.literal_leaf hv.symm
  have hlength : args.length = rest.length := by simpa using (congrArg List.length hrest).symm
  refine ⟨c.kind_call, c.line_eq, ⟨keyArg, rest, ?_, hrest⟩, ?_⟩
  · rw [hlength]
    exact c.keyArguments_eq h hparams hkey fun a ha => (hliteral a (List.mem_cons_of_mem keyArg ha)).1
  · have hnone : (t.children params).flatMap (t.sitesBelow namespaces) = [] := by
      rw [hparams]
      exact List.flatMap_eq_nil_iff.2 fun a ha => (hliteral a ha).2
    rw [c.sitesBelow_eq h, c.callSite?_callee h, hnone]
    rfl

/-- Where there is nothing to compare with, comparisons come to nothing. -/
lemma Folds.of_none (f : Folds t n m t₁) (h : t.comparison? n = none) : m = n ∧ t₁ = t := by
  cases f with
  | done => exact ⟨rfl, rfl⟩
  | fold hfound =>
    rw [h] at hfound
    exact absurd hfound (by simp)

/-- One comparison, and then the others. -/
lemma Folds.of_some (f : Folds t n m t₂) {found : Comparison} (h : t.comparison? n = some found) :
    ∃ k u t₁, t.NewLeaf .constant ((Scalar.bool found.outcome).literalAttributes.withLine
        (t.node found.operation).line?) k u ∧
      t.Graft u found.operation [k] t₁ ∧ Folds t₁ k m t₂ := by
  cases f with
  | done hnone =>
    rw [h] at hnone
    exact absurd hnone (by simp)
  | fold hfound leaf graft rest =>
    rw [h] at hfound
    obtain rfl := Option.some_injective _ hfound
    exact ⟨_, _, _, leaf, graft, rest⟩

end Tree

/-! ### Operations -/

namespace Tree

variable {t t₁ : Tree} {e first loop n n' second x : NodeId} {post pre : List NodeId}
  {namespaces : List String} {operator : EqualityOperator} {s s' : Snapshot}

/-- The node `x` is an operation on `n` and `n'`. -/
structure IsOperation (t : Tree) (x first n second n' : NodeId) (operator : EqualityOperator) :
    Prop where
  kind_operation : t.kind x = .operation
  line_eq : (t.node x).line? = none
  operator_eq : (t.node x).str? Attr.operator = some operator.name
  children_eq : t.children x = [first, second]
  kind_first : t.kind first = .first
  first_eq : t.children first = [n]
  kind_second : t.kind second = .second
  second_eq : t.children second = [n']

lemma WellLinked.isOperation (h : t.WellLinked)
    (hx : t.snapshot x = Shape.operation operator.name s s') :
    ∃ first n second n', t.IsOperation x first n second n' operator ∧ t.snapshot n = s ∧
      t.snapshot n' = s' := by
  obtain ⟨hkind, has, hparts⟩ := h.snapshot_iff.1 hx
  obtain ⟨first, rest, hchildren, hfirst, hrest⟩ := List.map_eq_cons_iff.1 hparts
  obtain ⟨second, rfl, hsecond⟩ := List.map_eq_singleton_iff.1 hrest
  obtain ⟨hkfirst, -, hn⟩ := h.snapshot_iff.1 hfirst
  obtain ⟨n, hfirst, hn⟩ := List.map_eq_singleton_iff.1 hn
  obtain ⟨hksecond, -, hn'⟩ := h.snapshot_iff.1 hsecond
  obtain ⟨n', hsecond, hn'⟩ := List.map_eq_singleton_iff.1 hn'
  have has' : (t.node x).attributes = _ := has
  refine ⟨first, n, second, n',
    ⟨hkind, ?_, ?_, hchildren, hkfirst, hfirst, hksecond, hsecond⟩, hn, hn'⟩
  · rw [Node.line?, Node.get?, has', KeyMap.get?_insert, if_neg (by decide)]
    rfl
  · rw [Node.str?, Node.get?, has', KeyMap.get?_insert_self]
    rfl

lemma SoleContent.of_children (he : t.children e = [x]) (hx : (t.kind x).isComment = false) :
    t.SoleContent e x := by
  have hrow : t.children e = [] ++ [x] ++ [] := he
  exact SoleContent.direct (contents_of_comments hrow hx (by simp))

namespace IsOperation

variable (o : t.IsOperation x first n second n' operator)
include o

lemma sitesBelow_eq (h : t.WellLinked) : t.sitesBelow namespaces x =
    t.sitesBelow namespaces n ++ t.sitesBelow namespaces n' := by
  have hfirst : t.sitesBelow namespaces first = t.sitesBelow namespaces n := by
    rw [h.sitesBelow_of_kind (by simp [o.kind_first]), o.first_eq, List.flatMap_singleton]
  have hsecond : t.sitesBelow namespaces second = t.sitesBelow namespaces n' := by
    rw [h.sitesBelow_of_kind (by simp [o.kind_second]), o.second_eq, List.flatMap_singleton]
  rw [h.sitesBelow_of_kind (by simp [o.kind_operation]), o.children_eq, List.flatMap_cons,
    List.flatMap_singleton, hfirst, hsecond]

variable (hn : (t.kind n).isComment = false) (hn' : (t.kind n').isComment = false)
include hn hn'

/-- The first operand is compared with the second. -/
lemma compares : t.Compares x first n .first second n' .second operator where
  kind_operation := o.kind_operation
  operator_eq := o.operator_eq
  opposite := rfl
  slot_mem := by simp [o.children_eq]
  kind_slot := o.kind_first
  content := SoleContent.of_children o.first_eq hn
  other_found := by
    rw [childOfKind?, o.children_eq, List.find?_cons_of_neg (by simp [o.kind_first]),
      List.find?_cons_of_pos (by simp [o.kind_second])]
  other_content := SoleContent.of_children o.second_eq hn'

/-- The second operand is compared with the first. -/
lemma compares_flip : t.Compares x second n' .second first n .first operator where
  kind_operation := o.kind_operation
  operator_eq := o.operator_eq
  opposite := rfl
  slot_mem := by simp [o.children_eq]
  kind_slot := o.kind_second
  content := SoleContent.of_children o.second_eq hn'
  other_found := by
    rw [childOfKind?, o.children_eq, List.find?_cons_of_pos (by simp [o.kind_first])]
  other_content := SoleContent.of_children o.first_eq hn

end IsOperation

/-! ### Comparisons that are folded -/

namespace Compares

variable {t₂ u : Tree} {call m other otherSlot r slot : NodeId} {k k' : Kind} {value right : Scalar}

/-- What is compared lies below the comparison. -/
lemma lies_below (c : t.Compares x slot call k otherSlot other k' operator) (h : t.WellLinked) :
    t.Below x call :=
  (h.below_child c.slot_mem).trans_left (c.content.lies_below h).atOrBelow

/-- When the literal of a value takes the place of what is compared with another literal, the outcome takes
the place of the comparison. -/
lemma folds (c : t.Compares x slot call k otherSlot other k' operator) (h : t.WellLinked)
    (g : t.Graft u call [n] t₁) (hn : t₁.snapshot n = Shape.literal value)
    (hvalue : value.isExact = true) (hother : t.snapshot other = Shape.literal right)
    (hright : right.isExact = true) (hline : (t.node x).line? = none) (f : Folds t₁ n m t₂)
    (hrow : t.children r = pre ++ [x] ++ post) :
    ∃ i t₃, t.LocalChange r pre [x] post t₃ [i] ∧
      t₃.snapshot i = Shape.literal
        (.bool (operator.apply (comparisonOperand value) (comparisonOperand right))) ∧
      Folds t₃ i m t₂ := by
  have hx : x ∈ t.children r := by
    rw [hrow]
    simp
  -- the value takes the place of the call
  obtain ⟨p, hp, -⟩ := below_iff.1 (c.content.lies_below h)
  obtain ⟨left, right', hleft⟩ := exists_row (h.mem_of_parent hp)
  have l := g.localChange hleft
  obtain ⟨hkn, hdn⟩ := g.wellLinked.decode_literal hvalue hn
  have c₁ := c.after_change l (by rw [hkn]; rfl)
  have lx := l.up hrow ((below_of_parent_iff hp).1 (c.lies_below h))
  -- the other literal is still there
  obtain ⟨hkother, haother, -⟩ := h.snapshot_iff.1 hother
  have hlabel := l.label other (c.other_content.lies_below h).lt
  have hdother : (t₁.node other).decode? = some right :=
    Node.decode?_literal (hlabel.kind_eq.trans hkother) (hlabel.attributes_eq.trans haother) hright
  -- and the outcome takes the place of the comparison
  obtain ⟨i, u', t₃, leaf, g', hrest⟩ := f.of_some (c₁.comparison?_eq g.wellLinked hdn hdother)
  have hsnap := g'.snapshot_leaf leaf
  rw [(l.label x (h.child_lt hx)).line?_eq, hline] at hsnap
  exact ⟨i, t₃, lx.trans (g'.localChange lx.after), hsnap, hrest⟩

end Compares

/-! ### Taking a branch -/

/-- A slot is still one when what is below it changes. -/
lemma LocalChange.isSlotOf_child {slotKind ownerKind : Kind} {attr text : String}
    (l : t.LocalChange loop pre [e] post t₁ [e])
    (hslot : t.IsSlotOf e loop slotKind ownerKind attr text) :
    t₁.IsSlotOf e loop slotKind ownerKind attr text := by
  have hmem := l.mem_children (List.mem_singleton_self e)
  have hlabel := l.label loop (lt_of_mem_children hmem)
  refine ⟨l.wellLinked.parent_of_mem (l.mem_after (List.mem_singleton_self e)), ?_, ?_, ?_⟩
  · rw [(l.label e (l.wellLinked_before.child_lt hmem)).kind_eq, hslot.kind_slot]
  · rw [hlabel.kind_eq, hslot.kind_owner]
  · rw [hlabel.str?_eq, hslot.mark]

/-- After changes within the slot `e` of its condition, the `if` statement `loop` gives way to a branch;
that makes the tree `v`. -/
inductive Takes (t : Tree) (loop e : NodeId) (b : Bool) (v : Tree) : Prop
  | intro {t₁ u : Tree} {extra : List NodeId}
      (change : ∀ pre post, t.children loop = pre ++ [e] ++ post →
        t.LocalChange loop pre [e] post t₁ [e])
      (ending : t₁.BranchEnd (t₁.childrenOf? (t₁.branchSlot loop b)) (t₁.lostBranch loop b)
        (t₁.node loop).line? extra u)
      (graft : t₁.Graft u loop (t₁.childrenOf? (t₁.branchSlot loop b) ++ extra) v)

/-- When the condition of an `if` statement has become a literal, there is nothing to compare it with, and
the branch can be taken. -/
lemma SoleContent.take_literal {t₂ : Tree} {m p : NodeId} {v : Scalar} (content : t.SoleContent e x)
    (l : t.LocalChange p pre [x] post t₁ [n])
    (hslot : t.IsSlotOf e loop .expression .loop Attr.loopType Build.ifType)
    (hv : v.isExact = true) (hn : t₁.snapshot n = Shape.literal v) (f : Folds t₁ n m t₂) :
    t₂.enclosingIf m = some loop ∧ (t₂.node m).decode? = some v ∧
      ∃ t₃, Edit.inlineIf loop (conditionTruth v) t₂ = .ok () t₃ ∧
        t.Takes loop e (conditionTruth v) t₃ := by
  have h := l.wellLinked_before
  have hparent := h.parent_of_mem (l.mem_children (List.mem_singleton_self x))
  have hle : t.AtOrBelow e p := (below_of_parent_iff hparent).1 (content.lies_below h)
  -- nothing changed outside the slot of the condition
  have hloop : ∀ left right, t.children loop = left ++ [e] ++ right →
      t.LocalChange loop left [e] right t₁ [e] := fun left right hloop => l.up hloop hle
  obtain ⟨left, right, hrow⟩ := exists_row (h.mem_of_parent hslot.parent_eq)
  have hslot' := (hloop left right hrow).isSlotOf_child hslot
  -- and the literal is all that the slot contains
  obtain ⟨hkind, hdecode⟩ := l.wellLinked.decode_literal hv hn
  have content' := content.after_change l (by rw [hkind]; rfl)
  obtain ⟨rfl, rfl⟩ := f.of_none (content'.comparison?_eq_none l.wellLinked hslot'.kind_slot)
  have henclosing := content'.enclosingIf_eq l.wellLinked (by simp [hkind]) hslot'
  obtain ⟨extra, u, t₃, hok, hend, g, -⟩ := l.wellLinked.inlineIf_graft
    (l.attached_new (List.mem_singleton_self m)) henclosing (conditionTruth v)
  exact ⟨henclosing, hdecode, t₃, hok, Takes.intro hloop hend g⟩

end Tree

/-! ### Conditions -/

section Conditions

variable {namespaces : List String} {variants : Variants} {w : Workspace}
  {call e loop x : NodeId} {callee key : String} {value : Scalar}

/-- A call for the value of a variant gives way to the literal of the value and, where that is compared,
to the outcome.  If the literal that is left is a condition, the branch is taken at once. -/
lemma Tree.IsRequest.resolve_value (q : w.tree.IsRequest namespaces .get callee call key [])
    (h : w.tree.WellLinked) (hatt : w.tree.AtOrBelow w.tree.root call)
    (hv : variants.lookup key = some value) (hvalue : value.isExact = true) :
    ∃ n u t₁ m t₂, w.tree.Graft u call [n] t₁ ∧ t₁.snapshot n = Shape.literal value ∧
      Tree.Folds t₁ n m t₂ ∧ ∀ loop v t₃, t₂.enclosingIf m = some loop →
        (t₂.node m).decode? = some v → Edit.inlineIf loop (conditionTruth v) t₂ = .ok () t₃ →
        ∃ w', resolve variants ⟨call, .get, callee⟩ w = .ok true w' ∧ w'.tree = t₃ ∧
          w'.log.file = w.log.file := by
  obtain ⟨keyArg, rest, hargs, -⟩ := q.arguments
  have hliteral : value.isLiteral = true := by
    cases value <;> first | rfl | exact absurd hvalue (by simp [Scalar.isExact])
  obtain ⟨-, n, u, hm, leaf⟩ | ⟨hnot, -⟩ := Tree.materialize_cases h value
    (w.tree.node call).line? (w.log.location w.tree call)
  · have hreason := Tree.Reason.literal (Tree.AtOrBelow.refl w.tree call) (Or.inl q.kind_call) leaf
    obtain ⟨t₁, hok, g⟩ := hreason.graft h hatt
    have hattn := g.attached_new (List.mem_singleton_self n)
    obtain ⟨m, t₂, hfold, hfolds⟩ := Tree.foldAll_folds g.wellLinked hattn le_rfl
    -- the call has no line, so the literal has none
    have hsnap := g.snapshot_leaf leaf
    rw [q.line_eq] at hsnap
    refine ⟨n, u, t₁, m, t₂, g, hsnap, hfolds, fun loop v t₃ hloop hd hinline => ?_⟩
    have hrun : getValue variants ⟨call, .get, callee⟩ w = _ := getValue_set hargs hv hm hok
    rw [resolve_get rfl, hrun, settle_if hfold hloop hd hinline]
    exact ⟨_, rfl, rfl, rfl⟩
  · rw [hliteral] at hnot
    exact absurd hnot (by simp)

section Taken

variable (h : w.tree.WellLinked) (hatt : w.tree.AtOrBelow w.tree.root e)
  (content : w.tree.SoleContent e x)
  (hslot : w.tree.IsSlotOf e loop .expression .loop Attr.loopType Build.ifType)
  (hv : variants.lookup key = some value)
include h hatt content hslot hv

/-- A call for the value of a variant that is a condition takes the branch that the value gives. -/
lemma Tree.IsRequest.takes_value (q : w.tree.IsRequest namespaces .get callee x key [])
    (hvalue : value.isExact = true) :
    ∃ w', resolve variants ⟨x, .get, callee⟩ w = .ok true w' ∧ w'.log.file = w.log.file ∧
      w.tree.Takes loop e (conditionTruth value) w'.tree := by
  have hattx := hatt.trans (content.lies_below h).atOrBelow
  obtain ⟨n, u, t₁, m, t₂, g, hn, hfolds, hrun⟩ := q.resolve_value h hattx hv hvalue
  obtain ⟨p, pre, post, hrow⟩ := content.row h
  obtain ⟨hloop, hd, t₃, hok, htakes⟩ :=
    content.take_literal (g.localChange hrow) hslot hvalue hn hfolds
  obtain ⟨w', hw, rfl, hfile⟩ := hrun loop value t₃ hloop hd hok
  exact ⟨w', hw, hfile, htakes⟩

/-- A call for the value of a variant that is compared with a literal in a condition takes the branch
that the comparison gives. -/
lemma Tree.Compares.takes_outcome {other otherSlot slot : NodeId} {k k' : Kind}
    {operator : EqualityOperator} {right : Scalar}
    (c : w.tree.Compares x slot call k otherSlot other k' operator)
    (q : w.tree.IsRequest namespaces .get callee call key []) (hvalue : value.isExact = true)
    (hline : (w.tree.node x).line? = none) (hother : w.tree.snapshot other = Shape.literal right)
    (hright : right.isExact = true) :
    ∃ w', resolve variants ⟨call, .get, callee⟩ w = .ok true w' ∧ w'.log.file = w.log.file ∧
      w.tree.Takes loop e (operator.apply (comparisonOperand value) (comparisonOperand right))
        w'.tree := by
  have hattcall := hatt.trans ((content.lies_below h).atOrBelow.trans (c.lies_below h).atOrBelow)
  obtain ⟨n, u, t₁, m, t₂, g, hn, hfolds, hrun⟩ := q.resolve_value h hattcall hv hvalue
  obtain ⟨p, pre, post, hrow⟩ := content.row h
  obtain ⟨i, t₃, l, hi, hrest⟩ := c.folds h g hn hvalue hother hright hline hfolds hrow
  obtain ⟨hloop, hd, t₄, hok, htakes⟩ := content.take_literal l hslot (v := .bool _) rfl hi hrest
  obtain ⟨w', hw, rfl, hfile⟩ := hrun loop _ t₄ hloop hd hok
  exact ⟨w', hw, hfile, htakes⟩

/-- A call that asks in a condition whether the value of a variant is one of several takes the branch
that the answer gives. -/
lemma Tree.IsRequest.takes_answer {method : Method} {candidates : String}
    (q : w.tree.IsRequest namespaces method callee x key [.string candidates])
    (hm : method = .isSet ∨ method = .compilerIsSet) :
    ∃ w', resolve variants ⟨x, method, callee⟩ w = .ok true w' ∧ w'.log.file = w.log.file ∧
      w.tree.Takes loop e (isSetMatch candidates value) w'.tree := by
  have hattx := hatt.trans (content.lies_below h).atOrBelow
  obtain ⟨keyArg, rest, hargs, hrest⟩ := q.arguments
  obtain ⟨arg, rfl, harg⟩ := List.map_eq_singleton_iff.1 hrest
  obtain ⟨-, -, hlit, htext⟩ := h.stringLiteral harg
  have henclosing := content.enclosingIf_eq h (by simp [q.kind_call]) hslot
  have hmatched : matchedIn w.tree [keyArg, arg] value = isSetMatch candidates value :=
    congrArg (isSetMatch · value) htext
  obtain ⟨extra, u, t', hok, hend, g, -⟩ :=
    h.inlineIf_graft hattx henclosing (isSetMatch candidates value)
  have hrun : isSet variants ⟨x, method, callee⟩ w = _ :=
    isSet_if hargs hv hlit henclosing (hmatched ▸ hok)
  have hattloop := h.attached_above (Tree.below_of_parent hslot.parent_eq).atOrBelow hatt
  refine ⟨_, (congrFun (resolve_isSet hm) w).trans hrun, rfl, Tree.Takes.intro ?_ hend g⟩
  exact fun pre post hloop => Tree.LocalChange.refl h hattloop hloop

end Taken

/-- Where a condition looks like this, perhaps within groups, it has one call, and with that the branch
`b` of the `if` statement is taken. -/
structure Decides (namespaces : List String) (variants : Variants) (condition : Snapshot) (b : Bool) :
    Prop where
  isComment_eq : condition.kind.isComment = false
  takes : ∀ {w : Workspace} {e loop x : NodeId}, w.tree.WellLinked → w.tree.AtOrBelow w.tree.root e →
    w.tree.SoleContent e x →
    w.tree.IsSlotOf e loop .expression .loop Attr.loopType Build.ifType →
    w.tree.snapshot x = condition →
    ∃ site w', w.tree.sitesBelow namespaces x = [site] ∧ w.tree.AtOrBelow x site.call ∧
      resolve variants site w = .ok true w' ∧ w'.log.file = w.log.file ∧
      w.tree.Takes loop e b w'.tree

variable {space : Space namespaces}

/-- `if (get(key))`. -/
lemma decides_value (hv : variants.lookup key = some value) (hvalue : value.isExact = true) :
    Decides namespaces variants (Condition.value space key).shape (conditionTruth value) where
  isComment_eq := rfl
  takes := by
    intro w e loop x h hatt content hslot hx
    have q : w.tree.IsRequest namespaces .get _ x key [] := h.isRequest hx
    obtain ⟨w', hrun, hfile, htakes⟩ := q.takes_value h hatt content hslot hv hvalue
    exact ⟨_, w', q.sites_eq, Tree.AtOrBelow.refl _ x, hrun, hfile, htakes⟩

/-- `if (get(key) == literal)` or `if (literal == get(key))`, and the same with the other operators. -/
lemma decides_comparison (hv : variants.lookup key = some value) (hvalue : value.isExact = true)
    (operator : EqualityOperator) (literal : ExactScalar) (literalFirst : Bool) :
    Decides namespaces variants
      (if literalFirst then Shape.operation operator.name (Shape.literal literal)
          (Condition.value space key).shape
        else (Condition.comparison space key operator literal).shape)
      (operator.apply (comparisonOperand value) (comparisonOperand literal)) where
  isComment_eq := by cases literalFirst <;> rfl
  takes := by
    intro w e loop x h hatt content hslot hx
    cases literalFirst with
    | false =>
      obtain ⟨first, call, second, other, o, hcall, hother⟩ := h.isOperation hx
      have q : w.tree.IsRequest namespaces .get _ call key [] := h.isRequest hcall
      obtain ⟨hcomment, hnone⟩ := h.literal_leaf hother
      have c := o.compares q.isComment_eq hcomment
      obtain ⟨w', hrun, hfile, htakes⟩ :=
        c.takes_outcome h hatt content hslot hv q hvalue o.line_eq hother literal.2
      refine ⟨_, w', ?_, (c.lies_below h).atOrBelow, hrun, hfile, htakes⟩
      rw [o.sitesBelow_eq h, q.sites_eq, hnone, List.append_nil]
    | true =>
      obtain ⟨first, other, second, call, o, hother, hcall⟩ := h.isOperation hx
      have q : w.tree.IsRequest namespaces .get _ call key [] := h.isRequest hcall
      obtain ⟨hcomment, hnone⟩ := h.literal_leaf hother
      have c := o.compares_flip hcomment q.isComment_eq
      obtain ⟨w', hrun, hfile, htakes⟩ :=
        c.takes_outcome h hatt content hslot hv q hvalue o.line_eq hother literal.2
      refine ⟨_, w', ?_, (c.lies_below h).atOrBelow, hrun, hfile, htakes⟩
      rw [o.sitesBelow_eq h, q.sites_eq, hnone, List.nil_append]

/-- `if (isSet(key, candidates))`, and the same with `compilerIsSet`. -/
lemma decides_oneOf (hv : variants.lookup key = some value) (candidates : String) {method : Method}
    (hm : method = .isSet ∨ method = .compilerIsSet) :
    Decides namespaces variants (Shape.call (space.callee method)
      [Shape.literal (.string key), Shape.literal (.string candidates)])
      (isSetMatch candidates value) where
  isComment_eq := rfl
  takes := by
    intro w e loop x h hatt content hslot hx
    have q : w.tree.IsRequest namespaces method _ x key [.string candidates] := h.isRequest hx
    obtain ⟨w', hrun, hfile, htakes⟩ := q.takes_answer h hatt content hslot hv hm
    exact ⟨_, w', q.sites_eq, Tree.AtOrBelow.refl _ x, hrun, hfile, htakes⟩

/-- The condition of an `if` statement decides which branch is taken. -/
lemma Condition.decides {c : Condition namespaces} {b : Bool}
    (hexact : ∀ key value, variants.lookup key = some value → value.isExact = true)
    (h : c.truth? variants = some b) : Decides namespaces variants c.shape b := by
  cases c with
  | value space key =>
    obtain ⟨value, hv, rfl⟩ := Option.map_eq_some_iff.1 h
    exact decides_value hv (hexact key value hv)
  | comparison space key operator literal =>
    obtain ⟨value, hv, rfl⟩ := Option.map_eq_some_iff.1 h
    exact decides_comparison hv (hexact key value hv) operator literal false
  | oneOf space key candidates =>
    obtain ⟨value, hv, rfl⟩ := Option.map_eq_some_iff.1 h
    exact decides_oneOf hv candidates (Or.inl rfl)

/-- A condition on a variant that is not configured stays. -/
lemma Condition.simulates_unset {c : Condition namespaces} (h : c.truth? variants = none) :
    Simulates namespaces variants [c.shape] (.ok [c.shape]) := by
  cases c with
  | value space key =>
    have hv := Option.map_eq_none_iff.1 h
    exact Simulates.call (LeftAlone.of_unset hv rfl (by simp)) (Simulates.literal (.string key))
  | comparison space key operator literal =>
    have hv := Option.map_eq_none_iff.1 h
    have hcall : Simulates namespaces variants [Shape.call (space.callee .get) _] _ :=
      Simulates.call (LeftAlone.of_unset hv rfl (by simp)) (Simulates.literal (.string key))
    have hfirst : Simulates namespaces variants [.node .first KeyMap.empty _] _ :=
      hcall.node (by simp)
    have hsecond : Simulates namespaces variants [.node .second KeyMap.empty _] _ :=
      (Simulates.literal literal.1).node (by simp)
    exact (hfirst.append hsecond (List.forall_mem_singleton.2 rfl)).node (by simp)
  | oneOf space key candidates =>
    have hv := Option.map_eq_none_iff.1 h
    have hleft : LeftAlone namespaces variants (space.callee .isSet)
        [Shape.literal (.string key), Shape.literal (.string candidates)] :=
      LeftAlone.of_unset hv rfl (List.forall_mem_singleton.2 rfl)
    exact Simulates.call hleft ((Simulates.literal (.string key)).append
      (Simulates.literal (.string candidates)) (List.forall_mem_singleton.2 rfl))

end Conditions

end VariantFold
