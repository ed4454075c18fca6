/-
The outcomes of a step.

On a well-linked tree a call that asks for a variant has one of four outcomes (`Step.resolve_cases`):
its key is not configured and it is left alone; something is wrong with its arguments and it is left
alone with a warning; the run ends with a complaint about the configuration, and the tree is left alone;
or the tree changes by rewrites (`Tree.Resolves`).  That a node cannot go where it was to go is not among
them.
-/
import VariantFold.Proofs.Resolve
import VariantFold.Proofs.Subtrees

namespace VariantFold

namespace Tree

variable {t t₁ t' u : Tree} {m n old x : NodeId} {new : List NodeId} {S : Scalar → Prop}

/-! ### Literals that come in -/

/-- The new literals among the nodes that come in are those of scalars in `S`. -/
def Brings (t u : Tree) (S : Scalar → Prop) (new : List NodeId) : Prop :=
  ∀ n ∈ new, t.size ≤ n → u.kind n = .constant →
    ∃ v line, S v ∧ u.attributes n = v.literalAttributes.withLine line

lemma NewLeaf.brings {v : Scalar} {line : Option Int64}
    (leaf : t.NewLeaf .constant (v.literalAttributes.withLine line) n u) (hv : S v) :
    t.Brings u S [n] := by
  intro m hm _ _
  rw [List.mem_singleton.1 hm]
  exact ⟨v, line, hv, leaf.attributes_new⟩

/-- Nodes that there were bring no new literal. -/
lemma Brings.of_lt (h : ∀ n ∈ new, n < t.size) : t.Brings u S new :=
  fun n hn hle => absurd (h n hn) (not_lt.2 hle)

/-- A branch that is taken brings no new literal. -/
lemma BranchEnd.brings {kept extra : List NodeId} {lost : List Declaration} {line : Option Int64}
    (h : t.BranchEnd kept lost line extra u) (hkept : ∀ n ∈ kept, n < t.size) :
    t.Brings u S (kept ++ extra) := by
  intro n hn hle hkind
  rcases List.mem_append.1 hn with hn | hn
  · exact absurd (hkept n hn) (not_lt.2 hle)
  cases h with
  | nothing => exact absurd hn List.not_mem_nil
  | block _ _ leaf =>
    rw [List.mem_singleton.1 hn, leaf.kind_new] at hkind
    exact absurd hkind (by simp)
  | definitions _ list =>
    rw [List.mem_singleton.1 hn, list.kind_list] at hkind
    exact absurd hkind (by simp)

lemma WellLinked.childrenOf?_lt (h : t.WellLinked) {slot : Option NodeId}
    (hn : n ∈ t.childrenOf? slot) : n < t.size := by
  obtain ⟨slot, -, hmem⟩ := mem_childrenOf?.1 hn
  exact h.child_lt hmem

/-! ### Rewrites in a row -/

/-- The node `x` brings about one rewrite or several: each but the last puts a literal in place, which
then brings about the next.  The literals are those of scalars in `S`. -/
inductive Resolves (S : Scalar → Prop) : Tree → NodeId → Tree → Prop
  | last {t u t' : Tree} {x old : NodeId} {new : List NodeId} (graft : t.Graft u old new t')
      (reason : t.Reason u x old new) (brings : t.Brings u S new) : Resolves S t x t'
  | more {t u t₁ t' : Tree} {x old n : NodeId} (graft : t.Graft u old [n] t₁)
      (reason : t.Reason u x old [n]) (brings : t.Brings u S [n]) (isNew : t.size ≤ n)
      (rest : Resolves S t₁ n t') : Resolves S t x t'

/-- From the literal `n` on, comparisons are carried out until the literal `m` is left. -/
inductive Folds : Tree → NodeId → NodeId → Tree → Prop
  | done {t : Tree} {n : NodeId} (h : t.comparison? n = none) : Folds t n n t
  | fold {t u t₁ t' : Tree} {n k m : NodeId} {found : Comparison}
      (h : t.comparison? n = some found)
      (leaf : t.NewLeaf .constant
        ((Scalar.bool found.outcome).literalAttributes.withLine (t.node found.operation).line?) k u)
      (graft : t.Graft u found.operation [k] t₁) (rest : Folds t₁ k m t') : Folds t n m t'

/-- A comparison that was found can be carried out, and the literal that takes its place has fewer
ancestors than the one that was compared. -/
lemma WellLinked.fold_graft (h : t.WellLinked) (hn : t.AtOrBelow t.root n) {found : Comparison}
    (hfound : t.comparison? n = some found) {k : NodeId} {u : Tree}
    (hrun : (Build.boolean found.outcome (t.node found.operation).line?).run t = (k, u)) :
    ∃ t₁, u.replaceWith found.operation [k] = .ok t₁ ∧ t.Graft u found.operation [k] t₁ ∧
      t.Reason u n found.operation [k] ∧ (t₁.ancestors k).length < (t.ancestors n).length := by
  obtain ⟨slot, hslot, hparent, hkind⟩ := h.comparison?_some hfound
  have hbelow : t.Below found.operation n := (below_of_parent hparent).trans_left hslot.atOrBelow
  have hleaf := newLeaf_boolean h found.outcome (t.node found.operation).line?
  rw [hrun] at hleaf
  have hreason : t.Reason u n found.operation [k] :=
    Reason.literal hbelow.atOrBelow (Or.inr hkind) hleaf
  obtain ⟨t₁, hok, hgraft⟩ := hreason.graft h hn
  refine ⟨t₁, hok, hgraft, hreason, ?_⟩
  rw [hgraft.ancestors_single]
  exact h.length_ancestors_of_below hbelow

/-- Without ancestors there is no comparison to carry out. -/
lemma comparison?_eq_none (h : t.ancestors n = []) : t.comparison? n = none := by
  simp [comparison?, nearestNonGroup, h]

lemma foldEquality_none (h : t.comparison? n = none) : Edit.foldEquality n t = .ok none t := by
  rw [Edit.foldEquality, bind_ok (show (get : Edit Tree) t = .ok t t from rfl)]
  simp only [h]
  rfl

lemma foldEquality_some {found : Comparison} (h : t.comparison? n = some found) {k : NodeId}
    (hrun : (Build.boolean found.outcome (t.node found.operation).line?).run t = (k, u)) :
    Edit.foldEquality n t =
      (Edit.replaceWith found.operation [k] >>= fun _ => pure (some k)) u := by
  rw [Edit.foldEquality, bind_ok (show (get : Edit Tree) t = .ok t t from rfl)]
  simp only [h]
  rw [bind_ok (Edit.build_ok ..), hrun]
  rfl

lemma foldAll_none (h : t.comparison? n = none) (limit : Nat) :
    Edit.foldAll (limit + 1) n t = .ok n t := by
  rw [Edit.foldAll, bind_ok (foldEquality_none h)]
  rfl

/-- One comparison, and then the others. -/
lemma foldAll_some {found : Comparison} (h : t.comparison? n = some found) {k : NodeId}
    (hrun : (Build.boolean found.outcome (t.node found.operation).line?).run t = (k, u))
    (limit : Nat) :
    Edit.foldAll (limit + 1) n t =
      (Edit.replaceWith found.operation [k] >>= fun _ => Edit.foldAll limit k) u := by
  have hstep := foldEquality_some h hrun
  rw [Edit.foldAll]
  rcases hr : Edit.replaceWith found.operation [k] u with ⟨_, t₁⟩ | ⟨e, t₁⟩
  · rw [bind_ok (hstep.trans (bind_ok hr)), bind_ok hr]
  · rw [bind_error (hstep.trans (bind_error hr)), bind_error hr]

lemma foldAll_folds (h : t.WellLinked) (hn : t.AtOrBelow t.root n) {limit : Nat}
    (hlimit : (t.ancestors n).length ≤ limit) :
    ∃ m t', Edit.foldAll limit n t = .ok m t' ∧ Folds t n m t' := by
  induction limit generalizing t n with
  | zero =>
    have hnil := List.eq_nil_of_length_eq_zero (Nat.le_zero.1 hlimit)
    exact ⟨n, t, rfl, Folds.done (comparison?_eq_none hnil)⟩
  | succ limit ih =>
    rcases hfound : t.comparison? n with _ | found
    · exact ⟨n, t, foldAll_none hfound limit, Folds.done hfound⟩
    · rcases hrun : (Build.boolean found.outcome (t.node found.operation).line?).run t with ⟨k, u⟩
      obtain ⟨t₁, hok, hgraft, -, hlen⟩ := h.fold_graft hn hfound hrun
      have hleaf := newLeaf_boolean h found.outcome (t.node found.operation).line?
      rw [hrun] at hleaf
      obtain ⟨m, t', hfolds, hrest⟩ := ih hgraft.wellLinked
        (hgraft.attached_new (List.mem_singleton_self k)) (by omega)
      refine ⟨m, t', ?_, Folds.fold hfound hleaf hgraft hrest⟩
      rw [foldAll_some hfound hrun, bind_ok (Edit.replaceWith_ok hok), hfolds]

/-- After comparisons the tree is well-linked and the literal that is left belongs to it. -/
lemma Folds.attached (f : Folds t n m t') (h : t.WellLinked) (hn : t.AtOrBelow t.root n) :
    t'.WellLinked ∧ t'.AtOrBelow t'.root m := by
  induction f with
  | done => exact ⟨h, hn⟩
  | fold _ _ graft _ ih =>
    exact ih graft.wellLinked (graft.attached_new (List.mem_singleton_self _))

lemma Folds.reason {found : Comparison} {k : NodeId} (h : t.WellLinked)
    (hfound : t.comparison? n = some found) {as : Attributes} (leaf : t.NewLeaf .constant as k u) :
    t.Reason u n found.operation [k] := by
  obtain ⟨slot, hslot, hparent, hkind⟩ := h.comparison?_some hfound
  exact Reason.literal ((below_of_parent hparent).atOrBelow.trans hslot.atOrBelow) (Or.inr hkind)
    leaf

section Folding

variable (hS : ∀ b, S (.bool b))
include hS

/-- A literal in the place of a call, comparisons from there on, and then perhaps more rewrites. -/
lemma Resolves.of_folds {t₂ : Tree} (graft : t.Graft u old [n] t₁) (reason : t.Reason u x old [n])
    (brings : t.Brings u S [n]) (isNew : t.size ≤ n) (f : Folds t₁ n m t₂)
    (rest : t₂ = t' ∨ Resolves S t₂ m t') : Resolves S t x t' := by
  induction f generalizing t u x old with
  | done =>
    rcases rest with rfl | rest
    · exact Resolves.last graft reason brings
    · exact Resolves.more graft reason brings isNew rest
  | fold hfound leaf graft' _ ih =>
    exact Resolves.more graft reason brings isNew
      (ih graft' (Folds.reason graft.wellLinked hfound leaf) (leaf.brings (hS _)) leaf.le rest)

end Folding

/-- Rewrites keep a tree well-linked. -/
lemma Resolves.wellLinked (r : Resolves S t x t') : t'.WellLinked := by
  induction r with
  | last graft => exact graft.wellLinked
  | more _ _ _ _ _ ih => exact ih

/-- What every rewrite with such literals keeps, rewrites in a row keep. -/
lemma Resolves.keeps {P : Tree → Prop}
    (hP : ∀ {t u t' : Tree} {x old : NodeId} {new : List NodeId}, t.AtOrBelow t.root x →
      t.Graft u old new t' → t.Reason u x old new → t.Brings u S new → P t → P t')
    (r : Resolves S t x t') (hx : t.AtOrBelow t.root x) (ht : P t) : P t' := by
  induction r with
  | last graft reason brings => exact hP hx graft reason brings ht
  | more graft reason brings _ _ ih =>
    exact ih (graft.attached_new (List.mem_singleton_self _)) (hP hx graft reason brings ht)

/-- Nodes stay in the store, and their kinds stay. -/
lemma Resolves.kind_eq (r : Resolves S t x t') {y : NodeId} (hy : y < t.size) :
    y < t'.size ∧ t'.kind y = t.kind y := by
  induction r with
  | last graft => exact ⟨hy.trans_le graft.size_le, graft.kind_eq hy⟩
  | more graft _ _ _ _ ih =>
    obtain ⟨hlt, hkind⟩ := ih (hy.trans_le graft.size_le)
    exact ⟨hlt, hkind.trans (graft.kind_eq hy)⟩

/-- What belongs to the tree after rewrites belonged to it before. -/
lemma Resolves.attached_before (r : Resolves S t x t') {y : NodeId} (hy : y < t.size)
    (hatt : t'.AtOrBelow t'.root y) : t.AtOrBelow t.root y := by
  induction r with
  | last graft => exact (graft.attached_before hy hatt).1
  | more graft _ _ _ _ ih => exact (graft.attached_before hy (ih (hy.trans_le graft.size_le) hatt)).1

/-- Nothing changes below a node that is not above the one that brings rewrites about, unless the node
is cut out. -/
lemma Resolves.sameBelow (r : Resolves S t x t') (h : t.WellLinked) {b : NodeId} (hb : b < t.size)
    (hnot : ¬ t.Below b x) (hatt : t'.AtOrBelow t'.root b) : t.SameBelow t' b := by
  induction r with
  | last graft reason =>
    exact graft.sameBelow hb (fun hbelow => hnot (hbelow.trans_left reason.above)) hatt
  | @more t u t₁ t' x old n graft reason _ _ rest ih =>
    have hatt₁ := rest.attached_before (hb.trans_le graft.size_le) hatt
    have hfirst := graft.sameBelow hb (fun hbelow => hnot (hbelow.trans_left reason.above)) hatt₁
    have hnot₁ : ¬ t₁.Below b n := fun hbelow =>
      hnot (((graft.below_new (List.mem_singleton_self n) hb).1 hbelow).trans_left reason.above)
    exact hfirst.trans (ih graft.wellLinked (hb.trans_le graft.size_le) hnot₁ hatt) h
      graft.wellLinked

/-- The node that brings rewrites about no longer belongs to the tree. -/
lemma Resolves.not_attached (r : Resolves S t x t') (hx : x < t.size) :
    ¬ t'.AtOrBelow t'.root x := by
  have hfirst : ∀ {u t₁ : Tree} {old : NodeId} {new : List NodeId}, t.Graft u old new t₁ →
      t.Reason u x old new → ¬ t₁.AtOrBelow t₁.root x := by
    intro u t₁ old new g reason hatt
    rcases (g.attached_before hx hatt).2 with hnot | ⟨n, hn, hle⟩
    · exact hnot reason.above
    · exact reason.not_atOrBelow_new g.wellLinked_before hx hn hle
  cases r with
  | last graft reason => exact hfirst graft reason
  | more graft reason _ _ rest =>
    exact fun hatt => hfirst graft reason (rest.attached_before (hx.trans_le graft.size_le) hatt)

/-! ### Branches and operands -/

/-- The branch that a condition takes can be grafted in the place of the `if` statement. -/
lemma WellLinked.inlineIf_graft (h : t.WellLinked) (hx : t.AtOrBelow t.root x)
    {loop : NodeId} (hloop : t.enclosingIf x = some loop) (condition : Bool) :
    ∃ extra u t', Edit.inlineIf loop condition t = .ok () t' ∧
      t.BranchEnd (t.childrenOf? (t.branchSlot loop condition)) (t.lostBranch loop condition)
        (t.node loop).line? extra u ∧
      t.Graft u loop (t.childrenOf? (t.branchSlot loop condition) ++ extra) t' ∧
      t.Reason u x loop (t.childrenOf? (t.branchSlot loop condition) ++ extra) := by
  obtain ⟨slot, hslot, howner⟩ := h.enclosingIf_some hloop
  obtain ⟨extra, u, hrun, hend⟩ := takenBranch_eq h loop condition
  have hreason := Reason.branch condition howner hslot hend
  obtain ⟨t', hok, hgraft⟩ := hreason.graft h hx
  refine ⟨extra, u, t', ?_, hend, hgraft, hreason⟩
  rw [inlineIf_eq, hrun]
  exact Edit.replaceWith_ok hok

lemma WellLinked.inlineIf_ok (h : t.WellLinked) (hx : t.AtOrBelow t.root x)
    {loop : NodeId} (hloop : t.enclosingIf x = some loop) (condition : Bool) :
    ∃ t', Edit.inlineIf loop condition t = .ok () t' ∧ ∀ S, Resolves S t x t' := by
  obtain ⟨extra, u, t', hok, hend, hgraft, hreason⟩ := h.inlineIf_graft hx hloop condition
  exact ⟨t', hok, fun S => Resolves.last hgraft hreason (hend.brings fun _ => h.childrenOf?_lt)⟩

lemma WellLinked.inlineHook_ok (h : t.WellLinked) (hx : t.AtOrBelow t.root x)
    {operation : NodeId} (hhook : t.enclosingHook x = some operation) (condition : Bool) :
    ∃ t', Edit.inlineHook operation condition t = .ok () t' ∧ ∀ S, Resolves S t x t' := by
  obtain ⟨slot, hslot, howner⟩ := h.enclosingHook_some hhook
  have hreason := Reason.operand condition rfl howner hslot
  obtain ⟨t', hok, hgraft⟩ := hreason.graft h hx
  refine ⟨t', ?_, fun S =>
    Resolves.last hgraft hreason (Brings.of_lt fun _ => h.childrenOf?_lt)⟩
  rw [Edit.inlineHook, bind_ok (show (get : Edit Tree) t = .ok t t from rfl)]
  exact Edit.replaceWith_ok hok

end Tree

/-- The second log has what the first has and more that was told, but no more warnings. -/
def Log.Tells (log log' : Log) : Prop :=
  ∃ told, log'.diagnostics = log.diagnostics ++ told ∧ ∀ d ∈ told, d.severity = .information

lemma Log.Tells.refl (log : Log) : log.Tells log := ⟨[], by simp⟩

lemma Log.Tells.info {log log' : Log} (h : log.Tells log') (t : Tree) (id : NodeId)
    (message : String) : log.Tells (log'.info t id message) := by
  obtain ⟨told, heq, htold⟩ := h
  refine ⟨told ++ [⟨.information, message, log'.location t id⟩], ?_, fun d hd => ?_⟩
  · rw [← List.append_assoc, ← heq]
    rfl
  · rcases List.mem_append.1 hd with hd | hd
    · exact htold d hd
    · rw [List.mem_singleton.1 hd]

/-- The scalars whose literals an answer puts into the tree: the configured value, and the outcomes of
comparisons. -/
def Scalar.IsAnswer (value v : Scalar) : Prop := v = value ∨ ∃ b, v = .bool b

namespace Step

variable {variants : Variants} {site : CallSite} {w w' w₁ : Workspace}

/-! ### The outcomes -/

/-- What is wrong with a call that is left alone with a warning. -/
inductive Faulty (variants : Variants) (site : CallSite) (t : Tree) : Malformed → Prop
  /-- The arguments are too few or too many, or do not begin with a key. -/
  | arguments {m : Malformed} (hargs : t.keyArguments site.call site.method.arity = .error m) :
      Faulty variants site t m
  /-- The key is configured, and there is no object literal to select from. -/
  | map {m : Malformed} {key : String} {args : List NodeId} {value : Scalar}
      (hm : site.method = .select)
      (hargs : t.keyArguments site.call site.method.arity = .ok (key, args))
      (hv : variants.lookup key = some value) (hbs : t.branches (Tree.secondArg args) = .error m) :
      Faulty variants site t m
  /-- The key is configured, and there is no text to compare its value with. -/
  | candidates {key : String} {args : List NodeId} {value : Scalar}
      (hm : site.method = .isSet ∨ site.method = .compilerIsSet)
      (hargs : t.keyArguments site.call site.method.arity = .ok (key, args))
      (hv : variants.lookup key = some value)
      (hlit : (t.node (Tree.secondArg args)).isStringLiteral = false) :
      Faulty variants site t (.candidates (Tree.secondArg args))

/-- The tree is left alone; at most a warning is added. -/
def Left (site : CallSite) (w w' : Workspace) : Prop :=
  w' = w ∨ ∃ m, w' = { w with log := w.log.malformed w.tree site m }

/-- A call is answered with the configured value: the tree changes by rewrites, and only what was done is
told. -/
structure Answered (site : CallSite) (value : Scalar) (w w' : Workspace) : Prop where
  resolves : w.tree.Resolves value.IsAnswer site.call w'.tree
  tells : w.log.Tells w'.log

/-- What a step does to a well-linked tree. -/
inductive Outcome (variants : Variants) (site : CallSite) (w : Workspace) :
    EStateM.Result Failure Workspace Bool → Prop
  | unset {key : String} {args : List NodeId}
      (hargs : w.tree.keyArguments site.call site.method.arity = .ok (key, args))
      (hv : variants.lookup key = none) : Outcome variants site w (.ok false w)
  | faulty {m : Malformed} (h : Faulty variants site w.tree m) :
      Outcome variants site w (.ok false { w with log := w.log.malformed w.tree site m })
  | failed {key : String} {args : List NodeId} {value : Scalar}
      (hargs : w.tree.keyArguments site.call site.method.arity = .ok (key, args))
      (hv : variants.lookup key = some value) (e : VariantError) :
      Outcome variants site w (.error (.variant e) w)
  | changed {key : String} {args : List NodeId} {value : Scalar} {w' : Workspace}
      (hargs : w.tree.keyArguments site.call site.method.arity = .ok (key, args))
      (hv : variants.lookup key = some value) (h : Answered site value w w') :
      Outcome variants site w (.ok true w')

lemma resolve_select (hm : site.method = .select) :
    resolve variants site = select variants site := by
  simp only [resolve, hm]

lemma resolve_isSet (hm : site.method = .isSet ∨ site.method = .compilerIsSet) :
    resolve variants site = isSet variants site := by
  rcases hm with hm | hm <;> simp only [resolve, hm]

lemma resolve_get (hm : site.method = .get) : resolve variants site = getValue variants site := by
  simp only [resolve, hm]

lemma arity_isSet {m : Method} (hm : m = .isSet ∨ m = .compilerIsSet) : m.arity = 2 := by
  rcases hm with rfl | rfl <;> rfl

/-- A faulty call is left alone with a warning, whatever was reported before. -/
lemma Faulty.resolve_eq {t : Tree} {m : Malformed} (h : Faulty variants site t m) (log : Log) :
    resolve variants site ⟨t, log⟩ = .ok false ⟨t, log.malformed t site m⟩ := by
  cases h with
  | arguments hargs => exact resolve_malformed (w := ⟨t, log⟩) hargs
  | map hm hargs hv hbs =>
    rw [hm] at hargs
    rw [resolve_select hm]
    exact select_notMap (w := ⟨t, log⟩) hargs hv hbs
  | candidates hm hargs hv hlit =>
    rw [arity_isSet hm] at hargs
    rw [resolve_isSet hm]
    exact isSet_notString (w := ⟨t, log⟩) hargs hv hlit

section Cases

variable {key : String} {args : List NodeId} {value : Scalar}
variable (h : w.tree.WellLinked) (hatt : w.tree.AtOrBelow w.tree.root site.call)
  (hkind : w.tree.kind site.call = .call)
include h hatt hkind

lemma select_changed {bs : List Branch} {b : NodeId}
    (hargs : w.tree.keyArguments site.call 2 = .ok (key, args))
    (hv : variants.lookup key = some value) (hbs : w.tree.branches (Tree.secondArg args) = .ok bs)
    (hb : Branch.choose bs value = some b) :
    ∃ w', select variants site w = .ok true w' ∧ Answered site value w w' := by
  have hentry := h.isEntryValue hargs hbs hb
  have hreason := Tree.Reason.entry hkind rfl hentry
  obtain ⟨t', hok, hgraft⟩ := hreason.graft h hatt
  refine ⟨_, select_chosen hargs hv hbs hb hok, ?_, (Log.Tells.refl w.log).info ..⟩
  refine Tree.Resolves.last hgraft hreason (Tree.Brings.of_lt fun n hn => ?_)
  rw [List.mem_singleton.1 hn]
  exact hentry.below.atOrBelow.lt (hatt.lt h.root_lt)

lemma select_cases (hm : site.method = .select) :
    Outcome variants site w (select variants site w) := by
  rcases hargs : w.tree.keyArguments site.call site.method.arity with m | ⟨key, args⟩
  · have hfaulty : Faulty variants site w.tree m := Faulty.arguments hargs
    rw [hm] at hargs
    rw [select_malformed hargs]
    exact Outcome.faulty hfaulty
  have hargs₂ := hargs
  rw [hm] at hargs₂
  rcases hv : variants.lookup key with _ | value
  · rw [select_unset hargs₂ hv]
    exact Outcome.unset hargs hv
  rcases hbs : w.tree.branches (Tree.secondArg args) with m | bs
  · rw [select_notMap hargs₂ hv hbs]
    exact Outcome.faulty (Faulty.map hm hargs hv hbs)
  rcases hb : Branch.choose bs value with _ | b
  · rw [select_noMatch hargs₂ hv hbs hb]
    exact Outcome.failed hargs hv _
  · obtain ⟨w', hrun, hres⟩ := select_changed h hatt hkind hargs₂ hv hbs hb
    rw [hrun]
    exact Outcome.changed hargs hv hres

lemma isSet_changed (hargs : w.tree.keyArguments site.call 2 = .ok (key, args))
    (hv : variants.lookup key = some value)
    (hlit : (w.tree.node (Tree.secondArg args)).isStringLiteral = true) :
    ∃ w', isSet variants site w = .ok true w' ∧ Answered site value w w' := by
  have htold := (Log.Tells.refl w.log).info
  rcases hloop : w.tree.enclosingIf site.call with _ | loop
  · rcases hhook : w.tree.enclosingHook site.call with _ | operation
    · rcases hrun : (Build.boolean (matchedIn w.tree args value)
        (w.tree.node site.call).line?).run w.tree with ⟨n, u⟩
      have hleaf := Tree.newLeaf_boolean h (matchedIn w.tree args value)
        (w.tree.node site.call).line?
      rw [hrun] at hleaf
      have hreason := Tree.Reason.literal (Tree.AtOrBelow.refl w.tree site.call) (Or.inl hkind) hleaf
      obtain ⟨t', hok, hgraft⟩ := hreason.graft h hatt
      exact ⟨_, isSet_constant hargs hv hlit hloop hhook hrun hok,
        Tree.Resolves.last hgraft hreason (hleaf.brings (Or.inr ⟨_, rfl⟩)), Log.Tells.refl w.log⟩
    · obtain ⟨t', hok, hres⟩ := h.inlineHook_ok hatt hhook (matchedIn w.tree args value)
      exact ⟨_, isSet_hook hargs hv hlit hloop hhook hok, hres _, htold ..⟩
  · obtain ⟨t', hok, hres⟩ := h.inlineIf_ok hatt hloop (matchedIn w.tree args value)
    exact ⟨_, isSet_if hargs hv hlit hloop hok, hres _, htold ..⟩

lemma isSet_cases (hm : site.method = .isSet ∨ site.method = .compilerIsSet) :
    Outcome variants site w (isSet variants site w) := by
  rcases hargs : w.tree.keyArguments site.call site.method.arity with m | ⟨key, args⟩
  · have hfaulty : Faulty variants site w.tree m := Faulty.arguments hargs
    rw [arity_isSet hm] at hargs
    rw [isSet_malformed hargs]
    exact Outcome.faulty hfaulty
  have hargs₂ := hargs
  rw [arity_isSet hm] at hargs₂
  rcases hv : variants.lookup key with _ | value
  · rw [isSet_unset hargs₂ hv]
    exact Outcome.unset hargs hv
  rcases hlit : (w.tree.node (Tree.secondArg args)).isStringLiteral with _ | _
  · rw [isSet_notString hargs₂ hv hlit]
    exact Outcome.faulty (Faulty.candidates hm hargs hv hlit)
  · obtain ⟨w', hrun, hres⟩ := isSet_changed h hatt hkind hargs₂ hv hlit
    rw [hrun]
    exact Outcome.changed hargs hv hres

lemma getValue_changed (hargs : w.tree.keyArguments site.call 1 = .ok (key, args))
    (hv : variants.lookup key = some value) {n : NodeId} {u : Tree} {line : Option Int64}
    (hm : w.tree.materialize value (w.tree.node site.call).line?
      (w.log.location w.tree site.call) = .ok (n, u))
    (hleaf : w.tree.NewLeaf .constant (value.literalAttributes.withLine line) n u) :
    ∃ w', getValue variants site w = .ok true w' ∧ Answered site value w w' := by
  have hbool : ∀ b, value.IsAnswer (.bool b) := fun b => Or.inr ⟨b, rfl⟩
  have hbrings := hleaf.brings (S := value.IsAnswer) (Or.inl rfl)
  have hreason := Tree.Reason.literal (Tree.AtOrBelow.refl w.tree site.call) (Or.inl hkind) hleaf
  obtain ⟨t₁, hok, hgraft⟩ := hreason.graft h hatt
  have hattn := hgraft.attached_new (List.mem_singleton_self n)
  obtain ⟨m, t₂, hrun, hfolds⟩ := Tree.foldAll_folds hgraft.wellLinked hattn le_rfl
  obtain ⟨hwl₂, hattm⟩ := hfolds.attached hgraft.wellLinked hattn
  have hfolded : ∀ {t₃}, t₂ = t₃ ∨ Tree.Resolves value.IsAnswer t₂ m t₃ →
      Tree.Resolves value.IsAnswer w.tree site.call t₃ :=
    Tree.Resolves.of_folds hbool hgraft hreason hbrings hleaf.le hfolds
  have htold := (Log.Tells.refl w.log).info t₁ n (replacedText site.callee key value)
  rw [getValue_set hargs hv hm hok]
  rcases hloop : t₂.enclosingIf m with _ | loop
  · exact ⟨_, settle_plain hrun (Or.inl hloop), hfolded (Or.inl rfl), htold⟩
  rcases hd : (t₂.node m).decode? with _ | v
  · exact ⟨_, settle_plain hrun (Or.inr hd), hfolded (Or.inl rfl), htold⟩
  · obtain ⟨t₃, hok₃, hres⟩ := hwl₂.inlineIf_ok hattm hloop (conditionTruth v)
    exact ⟨_, settle_if hrun hloop hd hok₃, hfolded (Or.inr (hres _)), htold.info ..⟩

lemma getValue_cases (hm : site.method = .get) :
    Outcome variants site w (getValue variants site w) := by
  rcases hargs : w.tree.keyArguments site.call site.method.arity with m | ⟨key, args⟩
  · have hfaulty : Faulty variants site w.tree m := Faulty.arguments hargs
    rw [hm] at hargs
    rw [getValue_malformed hargs]
    exact Outcome.faulty hfaulty
  have hargs₁ := hargs
  rw [hm] at hargs₁
  rcases hv : variants.lookup key with _ | value
  · rw [getValue_unset hargs₁ hv]
    exact Outcome.unset hargs hv
  rcases Tree.materialize_cases h value (w.tree.node site.call).line?
    (w.log.location w.tree site.call) with ⟨-, n, u, hn, hleaf⟩ | ⟨-, e, he⟩
  · obtain ⟨w', hrun, hres⟩ := getValue_changed h hatt hkind hargs₁ hv hn hleaf
    rw [hrun]
    exact Outcome.changed hargs hv hres
  · rw [getValue_unsupported hargs₁ hv he]
    exact Outcome.failed hargs hv e

variable (variants) in
/-- A step on a well-linked tree leaves the tree alone, ends the run with a complaint about the
configuration, or rewrites the tree. -/
theorem resolve_cases : Outcome variants site w (resolve variants site w) := by
  rcases hm : site.method
  · rw [resolve_select hm]
    exact select_cases h hatt hkind hm
  · rw [resolve_isSet (Or.inl hm)]
    exact isSet_cases h hatt hkind (Or.inl hm)
  · rw [resolve_isSet (Or.inr hm)]
    exact isSet_cases h hatt hkind (Or.inr hm)
  · rw [resolve_get hm]
    exact getValue_cases h hatt hkind hm

end Cases

/-! ### Runs -/

lemma visit_attached (h : w.tree.WellLinked) (hatt : w.tree.AtOrBelow w.tree.root site.call) :
    visit variants site w = resolve variants site w := by
  rw [visit, bind_ok (tree_ok w), if_pos (h.isAttached_iff.2 hatt)]

/-- A call that was cut out is skipped. -/
lemma visit_detached (h : w.tree.WellLinked) (hnot : ¬ w.tree.AtOrBelow w.tree.root site.call) :
    visit variants site w = .ok false
      { w with log := w.log.note .trace ("Skipping detached call site " ++ site.callee) } := by
  rw [visit, bind_ok (tree_ok w), if_neg fun hatt => hnot (h.isAttached_iff.1 hatt)]
  rfl

/-- A visit leaves the tree alone, ends the run with a complaint about the configuration, or answers a
call in the tree. -/
lemma visit_cases (variants : Variants) (h : w.tree.WellLinked)
    (hkind : w.tree.kind site.call = .call) :
    (∃ w', visit variants site w = .ok false w' ∧ w'.tree = w.tree) ∨
    (∃ e, visit variants site w = .error (.variant e) w) ∨
    w.tree.AtOrBelow w.tree.root site.call ∧ ∃ key args value w',
      w.tree.keyArguments site.call site.method.arity = .ok (key, args) ∧
      variants.lookup key = some value ∧ visit variants site w = .ok true w' ∧
      Answered site value w w' := by
  by_cases hatt : w.tree.AtOrBelow w.tree.root site.call
  · rw [visit_attached h hatt]
    have hcases := resolve_cases variants h hatt hkind
    generalize resolve variants site w = r at hcases ⊢
    cases hcases with
    | unset => exact Or.inl ⟨w, rfl, rfl⟩
    | faulty => exact Or.inl ⟨_, rfl, rfl⟩
    | failed _ _ e => exact Or.inr (Or.inl ⟨e, rfl⟩)
    | changed hargs hv hanswer =>
      exact Or.inr (Or.inr ⟨hatt, _, _, _, _, hargs, hv, rfl, hanswer⟩)
  · exact Or.inl ⟨_, visit_detached h hatt, rfl⟩

/-- A run ends with a well-linked tree that has a property, well or with a complaint about the
configuration. -/
def Ends (P : Tree → Prop) (r : EStateM.Result Failure Workspace Bool) : Prop :=
  ∃ w, w.tree.WellLinked ∧ P w.tree ∧ ((∃ b, r = .ok b w) ∨ ∃ e, r = .error (.variant e) w)

/-- The nodes of calls that are to be resolved are calls. -/
def Calls (t : Tree) (sites : List CallSite) : Prop :=
  ∀ site ∈ sites, site.call < t.size ∧ t.kind site.call = .call

lemma calls_callSites {t : Tree} (h : t.WellLinked) (namespaces : List String) :
    Calls t (t.callSites namespaces) := by
  intro site hsite
  obtain ⟨name, -, hname⟩ := List.mem_filterMap.1 hsite
  obtain ⟨operand, -, -, hparent, hkind⟩ := Tree.callOf?_some (Tree.callSite?_some hname).2
  exact ⟨h.parent_lt hparent, hkind⟩

/-- Nodes that were there stay in the store, and their kinds stay. -/
def Keeps (t t' : Tree) : Prop := ∀ y < t.size, y < t'.size ∧ t'.kind y = t.kind y

lemma Calls.rest {t : Tree} {site : CallSite} {sites : List CallSite}
    (h : Calls t (site :: sites)) : Calls t sites :=
  fun s hs => h s (List.mem_cons_of_mem site hs)

lemma Calls.keeps {t t' : Tree} {sites : List CallSite} (h : Calls t sites) (hkept : Keeps t t') :
    Calls t' sites := by
  intro site hsite
  obtain ⟨hlt, hkind⟩ := h site hsite
  obtain ⟨hlt', hkind'⟩ := hkept _ hlt
  exact ⟨hlt', hkind'.trans hkind⟩

lemma visit_ok {b : Bool} (h : w.tree.WellLinked) (hkind : w.tree.kind site.call = .call)
    (hvisit : visit variants site w = .ok b w') : w'.tree.WellLinked ∧ Keeps w.tree w'.tree := by
  rcases visit_cases variants h hkind with ⟨w₁, hrun, htree⟩ | ⟨e, hrun⟩ |
    ⟨-, _, _, _, w₁, -, -, hrun, hanswer⟩
  · obtain ⟨-, rfl⟩ := EStateM.Result.ok.inj (hrun.symm.trans hvisit)
    rw [htree]
    exact ⟨h, fun y hy => ⟨hy, rfl⟩⟩
  · exact absurd (hrun.symm.trans hvisit) (by simp)
  · obtain ⟨-, rfl⟩ := EStateM.Result.ok.inj (hrun.symm.trans hvisit)
    exact ⟨hanswer.resolves.wellLinked, fun y hy => hanswer.resolves.kind_eq hy⟩

variable {P : Tree → Prop} {sites sites' : List CallSite}

lemma optimize_eq (namespaces : List String) (variants : Variants) (w : Workspace) :
    optimize namespaces variants w = visitAll variants (w.tree.callSites namespaces) w := by
  rw [optimize, bind_ok (tree_ok w)]

/-- A run through calls ends well if every visit does. -/
lemma visitAll_cons_ok {b : Bool} : visitAll variants (site :: sites) w = .ok b w' ↔
    ∃ b₁ w₁ b₂, visit variants site w = .ok b₁ w₁ ∧ visitAll variants sites w₁ = .ok b₂ w' ∧
      b = (b₁ || b₂) := by
  rw [visitAll]
  constructor
  · intro h
    obtain ⟨b₁, w₁, hvisit, h⟩ := of_bind_ok h
    obtain ⟨b₂, w₂, hrest, h⟩ := of_bind_ok h
    obtain ⟨rfl, rfl⟩ := EStateM.Result.ok.inj h
    exact ⟨b₁, w₁, b₂, hvisit, hrest, rfl⟩
  · rintro ⟨b₁, w₁, b₂, hvisit, hrest, rfl⟩
    rw [bind_ok hvisit, bind_ok hrest]
    rfl

/-- A run through calls ends at the first visit that fails. -/
lemma visitAll_cons_error {e : Failure} : visitAll variants (site :: sites) w = .error e w' ↔
    visit variants site w = .error e w' ∨
      ∃ b w₁, visit variants site w = .ok b w₁ ∧ visitAll variants sites w₁ = .error e w' := by
  rw [visitAll]
  constructor
  · intro h
    rcases hvisit : visit variants site w with ⟨b, w₁⟩ | ⟨e', w₁⟩
    · rw [bind_ok hvisit] at h
      rcases hrest : visitAll variants sites w₁ with ⟨b', w₂⟩ | ⟨e', w₂⟩
      · rw [bind_ok hrest] at h
        exact absurd h (by simp [pure, EStateM.pure])
      · rw [bind_error hrest] at h
        exact Or.inr ⟨b, w₁, rfl, hrest.trans h⟩
    · rw [bind_error hvisit] at h
      exact Or.inl h
  · rintro (hvisit | ⟨b, w₁, hvisit, hrest⟩)
    · rw [bind_error hvisit]
    · rw [bind_ok hvisit, bind_error hrest]

/-- Calls in two parts. -/
lemma visitAll_append : visitAll variants (sites ++ sites') = (do
    let changed ← visitAll variants sites
    let changedLater ← visitAll variants sites'
    return changed || changedLater) := by
  induction sites with
  | nil => simp only [List.nil_append, visitAll, pure_bind, Bool.false_or, bind_pure]
  | cons site rest ih =>
    simp only [List.cons_append, visitAll, ih, bind_assoc, pure_bind, Bool.or_assoc]

section Keeps

variable (hP : ∀ {t u t' : Tree} {x old : NodeId} {new : List NodeId}, t.AtOrBelow t.root x →
  t.Graft u old new t' → t.Reason u x old new → P t → P t')
include hP

/-- What every rewrite keeps, a visit keeps. -/
lemma visit_keeps (variants : Variants) (h : w.tree.WellLinked)
    (hkind : w.tree.kind site.call = .call) (hw : P w.tree) :
    (∃ b w', visit variants site w = .ok b w' ∧ P w'.tree) ∨
    ∃ e, visit variants site w = .error (.variant e) w := by
  rcases visit_cases variants h hkind with ⟨w', hrun, htree⟩ | hfail |
    ⟨hatt, _, _, _, w', -, -, hrun, hanswer⟩
  · exact Or.inl ⟨false, w', hrun, htree ▸ hw⟩
  · exact Or.inr hfail
  · exact Or.inl ⟨true, w', hrun, hanswer.resolves.keeps (fun hx g r _ => hP hx g r) hatt hw⟩

/-- What every rewrite keeps, a run through a list of calls keeps. -/
lemma visitAll_keeps (variants : Variants) (h : w.tree.WellLinked) (hsites : Calls w.tree sites)
    (hw : P w.tree) : Ends P (visitAll variants sites w) := by
  induction sites generalizing w with
  | nil => exact ⟨w, h, hw, Or.inl ⟨false, rfl⟩⟩
  | cons site rest ih =>
    obtain ⟨-, hkind⟩ := hsites site List.mem_cons_self
    rcases visit_keeps hP variants h hkind hw with
      ⟨b, w₁, hvisit, hw₁⟩ | ⟨e, hvisit⟩
    · obtain ⟨h₁, hkept⟩ := visit_ok h hkind hvisit
      obtain ⟨w₂, h₂, hw₂, ⟨b', hend⟩ | ⟨e, hend⟩⟩ := ih h₁ (hsites.rest.keeps hkept) hw₁
      · exact ⟨w₂, h₂, hw₂, Or.inl ⟨_, visitAll_cons_ok.2 ⟨b, w₁, b', hvisit, hend, rfl⟩⟩⟩
      · exact ⟨w₂, h₂, hw₂, Or.inr ⟨e, visitAll_cons_error.2 (Or.inr ⟨b, w₁, hvisit, hend⟩)⟩⟩
    · exact ⟨w, h, hw, Or.inr ⟨e, visitAll_cons_error.2 (Or.inl hvisit)⟩⟩

/-- What every rewrite keeps, a whole run keeps. -/
theorem optimize_keeps (variants : Variants) (h : w.tree.WellLinked) (hw : P w.tree)
    (namespaces : List String) :
    Ends P (optimize namespaces variants w) := by
  rw [optimize_eq]
  exact visitAll_keeps hP variants h (calls_callSites h namespaces) hw

end Keeps

lemma visitAll_ok {b : Bool} (h : w.tree.WellLinked) (hsites : Calls w.tree sites)
    (hrun : visitAll variants sites w = .ok b w') : w'.tree.WellLinked ∧ Keeps w.tree w'.tree := by
  have hstep : ∀ {t u t' : Tree} {old : NodeId} {new : List NodeId}, t.Graft u old new t' →
      Keeps w.tree t → Keeps w.tree t' := by
    intro t u t' old new g hkept y hy
    obtain ⟨hlt, hkind⟩ := hkept y hy
    exact ⟨hlt.trans_le g.size_le, (g.kind_eq hlt).trans hkind⟩
  obtain ⟨w₁, h₁, hkept, ⟨b₁, hend⟩ | ⟨e, hend⟩⟩ :=
    visitAll_keeps (fun _ g _ => hstep g) variants h hsites fun y hy => ⟨hy, rfl⟩
  · obtain ⟨-, rfl⟩ := EStateM.Result.ok.inj (hend.symm.trans hrun)
    exact ⟨h₁, hkept⟩
  · exact absurd (hend.symm.trans hrun) (by simp)

end Step

/-! ### An example -/

/-- An `if` statement on the value of a variant, with nothing around it: what takes its place becomes the
root.  The branch that is not taken declares a name, and another one in a function. -/
def ifOnVariant : Tree where
  root := 0
  nodes := ⟨#[
    { kind := .loop, children := [1, 9, 10],
      attributes := KeyMap.empty.insert Attr.loopType (.string Build.ifType) },
    { kind := .expression, children := [2], parent := some 0 },
    { kind := .call, children := [3, 7], parent := some 1 },
    { kind := .operand, children := [4], parent := some 2 },
    { kind := .dottedName, children := [5, 6], parent := some 3 },
    { kind := .identifier, parent := some 4,
      attributes := KeyMap.empty.insert Attr.name (.string "env") },
    { kind := .identifier, parent := some 4,
      attributes := KeyMap.empty.insert Attr.name (.string "get") },
    { kind := .params, children := [8], parent := some 2 },
    { kind := .constant, parent := some 7, attributes := ConstantType.string.attributes "debug" },
    { kind := .statement, parent := some 0 },
    { kind := .elseStatement, children := [11, 13], parent := some 0 },
    { kind := .var, children := [12], parent := some 10 },
    { kind := .definition, parent := some 11, attributes := Declaration.attributes ("x", none) },
    { kind := .function, children := [14], parent := some 10 },
    { kind := .definition, parent := some 13, attributes := Declaration.attributes ("y", none) }]⟩

/-- The variant is switched on. -/
def debugOn : Variants := KeyMap.empty.insert "debug" (.bool true)

/-- The workspace after a run that ends well with a value. -/
def Step.endsWith? {α : Type} [DecidableEq α] (a : α) :
    EStateM.Result Failure Workspace α → Option Workspace
  | .ok b w => if b = a then some w else none
  | .error _ _ => none

lemma Step.endsWith?_eq_some {α : Type} [DecidableEq α] {a : α}
    {r : EStateM.Result Failure Workspace α} {w : Workspace} :
    endsWith? a r = some w ↔ r = .ok a w := by
  rcases r with ⟨b, w'⟩ | ⟨e, w'⟩
  · simp [endsWith?]
  · simp [endsWith?]

end VariantFold
