/-
A run agrees with direct evaluation.

The tree of a program is built, and a run goes through the calls that it finds at the start, while the
tree changes under it.  What it comes to is what direct evaluation says: the tree of the program that is
left, or the complaint about the first selection without an entry (`optimize_eval`).  Both
`Expr.simulates` and `Statement.simulates` are inductions on syntax in which every case is one of the
rules for rows, calls and `if` statements.
-/
import VariantFold.Proofs.Built
import VariantFold.Proofs.IfRules

namespace VariantFold

variable {namespaces : List String} {variants : Variants}

/-! ### Programs declare nothing -/

namespace Shape

lemma plain_literal (value : Scalar) : (literal value).Plain :=
  .node (by simp) (by simp)

lemma plain_call (callee : String) {args : List Snapshot} (h : ∀ s ∈ args, s.Plain) :
    (call callee args).Plain := by
  have hname : (dottedName callee).Plain := by
    refine .node (by simp) fun s hs => ?_
    obtain ⟨part, -, rfl⟩ := List.mem_map.1 hs
    exact .node (by simp) (by simp)
  have hoperand : (Snapshot.node .operand KeyMap.empty [dottedName callee]).Plain :=
    .node (by simp) (List.forall_mem_singleton.2 hname)
  have hparams : (Snapshot.node .params KeyMap.empty args).Plain := .node (by simp) h
  exact .node (by simp) (List.forall_mem_cons.2 ⟨hoperand, List.forall_mem_singleton.2 hparams⟩)

lemma plain_branches {whenTrue : List Snapshot} {whenFalse : Option (List Snapshot)}
    (h : ∀ s ∈ whenTrue, s.Plain) (h' : ∀ ss ∈ whenFalse, ∀ s ∈ ss, s.Plain) :
    ∀ s ∈ branches whenTrue whenFalse, s.Plain := by
  have hslot : ∀ {k : Kind} {ss : List Snapshot}, k ≠ .definition → (∀ s ∈ ss, s.Plain) →
      (Snapshot.node k KeyMap.empty [block ss]).Plain := fun hk hss =>
    .node hk (List.forall_mem_singleton.2 (.node (by simp) hss))
  refine List.forall_mem_cons.2 ⟨hslot (by simp) h, fun s hs => ?_⟩
  obtain ⟨ss, hss, rfl⟩ := Option.map_eq_some_iff.1 (Option.mem_toList.1 hs)
  exact hslot (by simp) (h' ss hss)

end Shape

lemma Expr.plain_shape (e : Expr namespaces) : e.shape.Plain := by
  induction e using Expr.induction with
  | call callee args ih =>
    rw [shape_call]
    exact Shape.plain_call callee (List.forall_mem_map.2 ih)
  | select space key entries ih =>
    rw [shape_select]
    have hmap : (Shape.map (entries.map fun e => (e.1, e.2.shape))).Plain := by
      refine .node (by simp) fun s hs => ?_
      obtain ⟨_, hmem, rfl⟩ := List.mem_map.1 hs
      obtain ⟨e, he, rfl⟩ := List.mem_map.1 hmem
      exact .node (by simp) (List.forall_mem_singleton.2
        (.node (by simp) (List.forall_mem_singleton.2 (ih e he))))
    exact Shape.plain_call _ (List.forall_mem_cons.2
      ⟨Shape.plain_literal _, List.forall_mem_singleton.2 hmap⟩)

lemma Condition.plain_shape (c : Condition namespaces) : c.shape.Plain := by
  have hget : ∀ (space : Space namespaces) key,
      (Shape.call (space.callee .get) [Shape.literal (.string key)]).Plain := fun _ _ =>
    Shape.plain_call _ (List.forall_mem_singleton.2 (Shape.plain_literal _))
  cases c with
  | value space key => exact hget space key
  | comparison space key operator literal =>
    exact .node (by simp) (List.forall_mem_cons.2
      ⟨.node (by simp) (List.forall_mem_singleton.2 (hget space key)), List.forall_mem_singleton.2
        (.node (by simp) (List.forall_mem_singleton.2 (Shape.plain_literal _)))⟩)
  | oneOf space key candidates =>
    exact Shape.plain_call _ (List.forall_mem_cons.2
      ⟨Shape.plain_literal _, List.forall_mem_singleton.2 (Shape.plain_literal _)⟩)

lemma Statement.plain_shape (s : Statement namespaces) : s.shape.Plain := by
  induction s using Statement.induction with
  | expression e =>
    rw [shape_expression]
    exact e.plain_shape
  | ifThen c whenTrue whenFalse ih ih' =>
    rw [shape_ifThen]
    have hcondition : (Snapshot.node .expression KeyMap.empty [c.shape]).Plain :=
      .node (by simp) (List.forall_mem_singleton.2 c.plain_shape)
    refine .node (by simp) (List.forall_mem_cons.2 ⟨hcondition, Shape.plain_branches
      (List.forall_mem_map.2 ih) fun ss hss => ?_⟩)
    obtain ⟨statements, hmem, rfl⟩ := Option.map_eq_some_iff.1 hss
    exact List.forall_mem_map.2 (ih' statements hmem)
  | block statements ih =>
    rw [shape_block]
    exact .node (by simp) (List.forall_mem_map.2 ih)

/-! ### Expressions -/

lemma Expr.kind_shape (e : Expr namespaces) : e.shape.kind = .call := by
  cases e with
  | call callee args => rw [shape_call]; rfl
  | select space key entries => rw [shape_select]; rfl

lemma Expr.isClosed_shape (e : Expr namespaces) : e.shape.kind.isClosed = true := by
  rw [kind_shape]
  rfl

/-- A run through the calls of an expression evaluates it. -/
lemma Expr.simulates (e : Expr namespaces) :
    Simulates namespaces variants [e.shape] ((e.eval variants).map fun e' => [e'.shape]) := by
  induction e using Expr.induction with
  | call callee args ih =>
    -- the first argument is no key, so the call is left alone whatever it calls
    have hcalls : ∀ s ∈ args.map shape, s.kind = .call :=
      List.forall_mem_map.2 fun a _ => a.kind_shape
    rw [shape_call, eval_call]
    refine Simulates.put_together (Simulates.call (LeftAlone.of_calls hcalls)
      (Simulates.row isClosed_shape ih)) fun args' => ?_
    rw [shape_call]
  | select space key entries ih =>
    rw [shape_select]
    rcases hv : variants.lookup key with _ | value
    · rw [eval_select_none hv]
      refine Simulates.put_together (Simulates.select_unset hv ih) fun entries' => ?_
      rw [shape_select]
    · rw [eval_select_some hv]
      exact Simulates.select hv kind_shape ih

/-! ### Statements -/

lemma Statement.isClosed_shape (s : Statement namespaces) : s.shape.kind.isClosed = true := by
  cases s with
  | expression e => rw [shape_expression, e.isClosed_shape]
  | ifThen c whenTrue whenFalse => rw [shape_ifThen]; rfl
  | block statements => rw [shape_block]; rfl

section Exact

variable (hexact : ∀ key value, variants.lookup key = some value → value.isExact = true)
include hexact

/-- A run through the calls of a statement evaluates it. -/
lemma Statement.simulates (s : Statement namespaces) :
    Simulates namespaces variants [s.shape] ((s.eval variants).map fun s' => [s'.shape]) := by
  induction s using Statement.induction with
  | expression e =>
    have h : Simulates namespaces variants [e.shape] _ := e.simulates
    rw [shape_expression, eval_expression]
    generalize e.eval variants = r at h ⊢
    rcases r with error | e'
    · exact h
    · change Simulates namespaces variants _ (.ok [(expression e').shape])
      rw [shape_expression]
      exact h
  | ifThen c whenTrue whenFalse ih ih' =>
    rw [shape_ifThen, eval_ifThen]
    have hrow := Simulates.row isClosed_shape ih
    have hother : ∀ ss ∈ whenFalse, Simulates namespaces variants (ss.map shape) _ := fun ss hss =>
      Simulates.row isClosed_shape (ih' ss hss)
    rcases hc : c.truth? variants with _ | b
    · -- the statement stays, around what is left of its branches
      have h := Simulates.ifStatement_unset (c.simulates_unset hc) hrow hother
      dsimp only
      generalize inOrder (whenTrue.map (eval variants)) = r at h ⊢
      generalize (whenFalse.mapM fun ss => inOrder (ss.map (eval variants))) = r' at h ⊢
      rcases r with error | ss
      · exact h
      · rcases r' with error | ss'
        · exact h
        · change Simulates namespaces variants _ (.ok [(ifThen c ss ss').shape])
          rw [shape_ifThen]
          exact h
    · -- a branch takes its place, an empty one if it is missing
      have hrow' : Simulates namespaces variants ((whenFalse.map (List.map shape)).getD [])
          ((inOrder ((whenFalse.getD []).map (eval variants))).map (List.map shape)) := by
        rcases whenFalse with _ | ss
        · exact Simulates.nil
        · exact hother ss rfl
      -- no name has to be kept for the branch that is dropped
      have hplain : ∀ s ∈ Shape.branches (whenTrue.map shape) (whenFalse.map (List.map shape)),
          s.Plain := by
        refine Shape.plain_branches (List.forall_mem_map.2 fun s _ => s.plain_shape) fun ss hss => ?_
        obtain ⟨statements, -, rfl⟩ := Option.map_eq_some_iff.1 hss
        exact List.forall_mem_map.2 fun s _ => s.plain_shape
      have h := Simulates.ifStatement (c.decides hexact hc) hplain hrow hrow'
      cases b with
      | true => exact h.put_together fun ss => by rw [shape_block]
      | false => exact h.put_together fun ss => by rw [shape_block]
  | block statements ih =>
    rw [shape_block, eval_block]
    refine Simulates.put_together ((Simulates.row isClosed_shape ih).node (by simp)) fun ss => ?_
    rw [shape_block]
    rfl

/-- Running a program agrees with evaluating it: if evaluation leaves a program, the run ends well and
the tree becomes the tree of that program; if it fails on a selection without an entry, so does the
run. -/
theorem optimize_eval (program : Program namespaces) (log : Log) :
    match program.eval variants with
    | .ok result => ∃ changed w',
        Step.optimize namespaces variants ⟨program.tree, log⟩ = .ok changed w' ∧
        w'.tree.snapshot w'.tree.root = result.tree.snapshot result.tree.root
    | .error e => ∃ w', Step.optimize namespaces variants ⟨program.tree, log⟩ =
        .error (e.complaint log.file) w' := by
  obtain ⟨h, hshape⟩ := program.tree_eq
  obtain ⟨hkind, hattributes, hrow⟩ := h.snapshot_iff.1 hshape
  have hsites : program.tree.callSites namespaces = (program.tree.children program.tree.root).flatMap
      (program.tree.sitesBelow namespaces) := h.sitesBelow_of_kind (by simp [hkind])
  -- the statements are a row in the place of all children of the root
  have hall := Simulates.row Statement.isClosed_shape fun s (_ : s ∈ program) => s.simulates hexact
  have hrun := hall ⟨program.tree, log⟩ program.tree.root [] _ [] h (Tree.AtOrBelow.refl _ _)
    (by simp) hrow
  rw [Step.optimize_eq, hsites]
  rw [← Program.eval] at hrun
  generalize program.eval variants = r at hrun ⊢
  rcases r with e | result
  · exact hrun
  · obtain ⟨changed, w', hrun, -, xs, l, hxs⟩ := hrun
    refine ⟨changed, w', hrun, ?_⟩
    rw [l.root_eq, l.snapshot_eq, hkind, hattributes, hxs, result.tree_eq.2]
    simp [Program.shape]

end Exact

/-! ### An example -/

/-- A namespace. -/
def envSpace : Space ["env"] := ⟨"env", List.mem_singleton_self _⟩

/-- Two variants. -/
def fastMode (debug : Bool) : Variants :=
  (KeyMap.empty.insert "debug" (.bool debug)).insert "mode" (.string "fast")

/-- An `if` statement with a selection that has no entries in one branch.  In the other branch two
selections by the same variant can be resolved, one of them in a selection that stays. -/
def failureInBranch : Program ["env"] :=
  [.ifThen (.comparison envSpace "debug" .ne ⟨.bool true, rfl⟩)
    [.expression (.select envSpace "mode" [])]
    (some [
      .ifThen (.oneOf envSpace "mode" "slow|fast")
        [.expression (.select envSpace "mode" [("slow", .call "walk" []), ("fast", .call "run" [])])]
        none,
      .expression (.select envSpace "theme"
        [("dark", .select envSpace "mode" [("default", .call "paint" [])])]),
      .ifThen (.value envSpace "unset") [] none])]

/-- What is left of it when the branch with the failure is dropped. -/
def failureDropped : Program ["env"] :=
  [.block [.block [.expression (.call "run" [])],
    .expression (.select envSpace "theme" [("dark", .call "paint" [])]),
    .ifThen (.value envSpace "unset") [] none]]

theorem optimize_eval_failureInBranch :
    (∀ debug key value, (fastMode debug).lookup key = some value → value.isExact = true) ∧
    (∃ changed w',
      Step.optimize ["env"] (fastMode true) ⟨failureInBranch.tree, {}⟩ = .ok changed w' ∧
      w'.tree.snapshot w'.tree.root = failureDropped.tree.snapshot failureDropped.tree.root) ∧
    ∃ w', Step.optimize ["env"] (fastMode false) ⟨failureInBranch.tree, {}⟩ =
      .error (.variant (.noMatchingBranch "mode" "fast" ⟨none, none⟩)) w' := by
  have hget : ∀ debug key value, (fastMode debug).get? key = some value → value.isExact = true := by
    intro debug key value h
    rw [fastMode, KeyMap.get?_insert, KeyMap.get?_insert] at h
    split_ifs at h
    · exact Option.some_injective _ h ▸ rfl
    · exact Option.some_injective _ h ▸ rfl
    · exact absurd h (by simp)
  have hexact : ∀ debug key value, (fastMode debug).lookup key = some value →
      value.isExact = true := by
    intro debug key value h
    rw [Variants.lookup] at h
    split at h
    · rename_i hkey
      exact hget debug key value (hkey.trans h)
    · exact hget debug _ value h
  have hdebug : ∀ debug, (fastMode debug).lookup "debug" = some (.bool debug) := by decide
  have hmode : ∀ debug, (fastMode debug).lookup "mode" = some (.string "fast") := by decide
  have htheme : ∀ debug, (fastMode debug).lookup "theme" = none := by decide
  have hunset : ∀ debug, (fastMode debug).lookup "unset" = none := by decide
  have heval : ∀ debug, Program.eval (fastMode debug) failureInBranch =
      if debug then .ok failureDropped else .error ⟨"mode", "fast"⟩ := by
    intro debug
    simp only [Program.eval, failureInBranch, List.map_cons, List.map_nil, Statement.eval_ifThen,
      Condition.truth?, hdebug, hmode, hunset, Option.map_some, Option.map_none, Option.getD_some,
      Statement.eval_expression, Expr.eval_select_some (hmode debug),
      Expr.eval_select_none (htheme debug), Expr.eval_call]
    cases debug <;> rfl
  have htrue := optimize_eval (hexact true) failureInBranch {}
  have hfalse := optimize_eval (hexact false) failureInBranch {}
  rw [heval] at htrue hfalse
  exact ⟨hexact, htrue, hfalse⟩

end VariantFold
