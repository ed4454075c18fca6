/-
Passes come to an end.

Every answer cuts out the call that asked, and rewrites never add a call.  So the number of calls in the
tree bounds the number of passes that change it, and when no pass does so any more, a further one finds
every call as the last one did.

* `Step.visitAll_callCount`: a pass that changes the tree leaves fewer calls, one that does not leaves the
  tree as it is;
* `Step.visitAll_idle`: whether a pass is idle does not depend on what was reported before;
* `optimizeUntilStable_stable`: the bound on the number of passes, and what they end with.
-/
import VariantFold.Proofs.SecondPass

namespace VariantFold

namespace Tree

variable {t t' : Tree} {x y : NodeId} {S : Scalar → Prop}

/-- The number of calls in the tree. -/
def callCount (t : Tree) : Nat := ((t.descendants t.root).filter fun x => t.kind x = .call).length

lemma WellLinked.mem_calls (h : t.WellLinked) :
    x ∈ (t.descendants t.root).filter (fun x => t.kind x = .call) ↔
      t.AtOrBelow t.root x ∧ t.kind x = .call := by
  rw [List.mem_filter, h.mem_descendants, decide_eq_true_eq]

/-- Calls that are in the tree after rewrites were there before. -/
lemma Resolves.call_before (r : Resolves S t x t') (hx : t.AtOrBelow t.root x)
    (hatt : t'.AtOrBelow t'.root y) (hy : t'.kind y = .call) :
    t.AtOrBelow t.root y ∧ t.kind y = .call := by
  refine r.keeps (P := fun t' => ∀ y, t'.AtOrBelow t'.root y → t'.kind y = .call →
    t.AtOrBelow t.root y ∧ t.kind y = .call) ?_ hx (fun _ hatt hy => ⟨hatt, hy⟩) y hatt hy
  intro t₁ u t₂ x old new _ g reason _ hbefore y hatt hy
  rcases Nat.lt_or_ge y t₁.size with hlt | hge
  · exact hbefore y (g.attached_before hlt hatt).1 ((g.kind_eq hlt).symm.trans hy)
  · -- none of the nodes that rewrites add is a call
    rcases reason.added g hatt hge with (hk | hk | hk) | ⟨hk, -⟩ <;> rw [hk] at hy <;>
      exact absurd hy (by simp)

/-- An answer leaves fewer calls. -/
lemma Resolves.callCount_lt (r : Resolves S t x t') (h : t.WellLinked)
    (hx : t.AtOrBelow t.root x) (hkind : t.kind x = .call) : t'.callCount < t.callCount := by
  have hmem := h.mem_calls.2 ⟨hx, hkind⟩
  have hnd := (r.wellLinked.nodup_descendants t'.root).filter fun x => t'.kind x = .call
  have hsub : (t'.descendants t'.root).filter (fun x => t'.kind x = .call) ⊆
      ((t.descendants t.root).filter fun x => t.kind x = .call).erase x := by
    intro y hy
    obtain ⟨hatt, hcall⟩ := r.wellLinked.mem_calls.1 hy
    have hne : y ≠ x := by
      rintro rfl
      exact r.not_attached (hx.lt h.root_lt) hatt
    exact (List.mem_erase_of_ne hne).2 (h.mem_calls.2 (r.call_before hx hatt hcall))
  calc t'.callCount
      ≤ (((t.descendants t.root).filter fun x => t.kind x = .call).erase x).length :=
        (hnd.subperm hsub).length_le
    _ < t.callCount := by
        rw [List.length_erase_of_mem hmem]
        exact Nat.sub_lt (List.length_pos_of_mem hmem) Nat.one_pos

end Tree

namespace Step

variable {variants : Variants} {namespaces : List String} {site : CallSite} {sites : List CallSite}
  {w w' : Workspace} {b : Bool}

/-! ### One pass -/

/-- A visit leaves the tree as it is, or leaves fewer calls. -/
lemma visit_callCount (h : w.tree.WellLinked) (hkind : w.tree.kind site.call = .call)
    (hvisit : visit variants site w = .ok b w') :
    b = false ∧ w'.tree = w.tree ∨ b = true ∧ w'.tree.callCount < w.tree.callCount := by
  rcases visit_cases variants h hkind with ⟨w₁, hrun, htree⟩ | ⟨e, hrun⟩ |
    ⟨hatt, _, _, _, w₁, -, -, hrun, hanswer⟩
  · obtain ⟨rfl, rfl⟩ := EStateM.Result.ok.inj (hrun.symm.trans hvisit)
    exact Or.inl ⟨rfl, htree⟩
  · exact absurd (hrun.symm.trans hvisit) (by simp)
  · obtain ⟨rfl, rfl⟩ := EStateM.Result.ok.inj (hrun.symm.trans hvisit)
    exact Or.inr ⟨rfl, hanswer.resolves.callCount_lt h hatt hkind⟩

/-- A run through calls leaves the tree as it is, or leaves fewer calls. -/
lemma visitAll_callCount (h : w.tree.WellLinked) (hsites : Calls w.tree sites)
    (hrun : visitAll variants sites w = .ok b w') :
    b = false ∧ w'.tree = w.tree ∨ b = true ∧ w'.tree.callCount < w.tree.callCount := by
  induction sites generalizing w b with
  | nil =>
    obtain ⟨rfl, rfl⟩ := EStateM.Result.ok.inj hrun
    exact Or.inl ⟨rfl, rfl⟩
  | cons site rest ih =>
    obtain ⟨-, hkind⟩ := hsites site List.mem_cons_self
    obtain ⟨b₁, w₁, b₂, hvisit, hrest, rfl⟩ := visitAll_cons_ok.1 hrun
    obtain ⟨h₁, hkept⟩ := visit_ok h hkind hvisit
    rcases visit_callCount h hkind hvisit with ⟨rfl, htree⟩ | ⟨rfl, hlt⟩ <;>
      rcases ih h₁ (hsites.rest.keeps hkept) hrest with ⟨rfl, htree'⟩ | ⟨rfl, hlt'⟩
    · exact Or.inl ⟨rfl, htree'.trans htree⟩
    · exact Or.inr ⟨rfl, htree ▸ hlt'⟩
    · exact Or.inr ⟨rfl, htree'.symm ▸ hlt⟩
    · exact Or.inr ⟨rfl, hlt'.trans hlt⟩

/-! ### Idle passes -/

/-- Whether a visit is idle does not depend on what was reported before. -/
lemma visit_idle (h : w.tree.WellLinked) (hkind : w.tree.kind site.call = .call)
    (hvisit : visit variants site w = .ok false w') (log : Log) :
    ∃ log', visit variants site ⟨w.tree, log⟩ = .ok false ⟨w.tree, log'⟩ := by
  by_cases hatt : w.tree.AtOrBelow w.tree.root site.call
  · rw [visit_attached (w := ⟨w.tree, log⟩) h hatt]
    have hcases := resolve_cases variants h hatt hkind
    rw [← visit_attached h hatt, hvisit] at hcases
    cases hcases with
    | unset hargs hv => exact ⟨log, resolve_unset (w := ⟨w.tree, log⟩) hargs hv⟩
    | faulty hfaulty => exact ⟨_, hfaulty.resolve_eq log⟩
  · exact ⟨_, visit_detached (w := ⟨w.tree, log⟩) h hatt⟩

lemma visitAll_idle (h : w.tree.WellLinked) (hsites : Calls w.tree sites)
    (hrun : visitAll variants sites w = .ok false w') (log : Log) :
    ∃ log', visitAll variants sites ⟨w.tree, log⟩ = .ok false ⟨w.tree, log'⟩ := by
  induction sites generalizing w w' log with
  | nil => exact ⟨log, rfl⟩
  | cons site rest ih =>
    obtain ⟨-, hkind⟩ := hsites site List.mem_cons_self
    obtain ⟨b₁, w₁, b₂, hvisit, hrest, hor⟩ := visitAll_cons_ok.1 hrun
    obtain ⟨rfl, rfl⟩ := Bool.or_eq_false_iff.1 hor.symm
    obtain ⟨h₁, hkept⟩ := visit_ok h hkind hvisit
    obtain ⟨-, htree⟩ | ⟨hb, -⟩ := visit_callCount h hkind hvisit
    · obtain ⟨log₁, hvisit₁⟩ := visit_idle h hkind hvisit log
      obtain ⟨log₂, hrest₂⟩ := ih h₁ (hsites.rest.keeps hkept) hrest log₁
      rw [htree] at hrest₂
      exact ⟨log₂, visitAll_cons_ok.2 ⟨false, _, false, hvisit₁, hrest₂, rfl⟩⟩
    · exact absurd hb (by simp)

/-! ### Passes in a row -/

/-- The number of passes that change the tree is at most the limit and at most the number of calls.
Below the limit they end with a tree for which every pass is idle. -/
lemma optimizeUntilStable_ok {limit passes : Nat} (h : w.tree.WellLinked)
    (hrun : optimizeUntilStable namespaces variants limit w = .ok passes w') :
    passes ≤ limit ∧ passes ≤ w.tree.callCount ∧ (w.tree.callCount < limit →
      ∀ log, ∃ log', optimize namespaces variants ⟨w'.tree, log⟩ = .ok false ⟨w'.tree, log'⟩) := by
  induction limit generalizing w passes with
  | zero =>
    obtain ⟨rfl, rfl⟩ := EStateM.Result.ok.inj hrun
    exact ⟨le_rfl, Nat.zero_le _, fun hlt => absurd hlt (Nat.not_lt_zero _)⟩
  | succ limit ih =>
    rw [optimizeUntilStable] at hrun
    obtain ⟨b, w₁, hpass, hrun⟩ := of_bind_ok hrun
    rw [optimize_eq] at hpass
    have hsites := calls_callSites h namespaces
    rcases visitAll_callCount h hsites hpass with ⟨rfl, htree⟩ | ⟨rfl, hlt⟩
    · obtain ⟨rfl, rfl⟩ := EStateM.Result.ok.inj hrun
      refine ⟨Nat.zero_le _, Nat.zero_le _, fun _ log => ?_⟩
      rw [htree, optimize_eq]
      exact visitAll_idle h hsites hpass log
    · obtain ⟨passes', w₂, hmore, hrun⟩ := of_bind_ok hrun
      obtain ⟨rfl, rfl⟩ := EStateM.Result.ok.inj hrun
      obtain ⟨hle, hcount, hstable⟩ := ih (visitAll_ok h hsites hpass).1 hmore
      exact ⟨by omega, by omega, fun hlimit => hstable (by omega)⟩

end Step

/-- A pass that changes the tree leaves fewer calls, and any other pass leaves the whole tree as it is.
So repeated passes that do not fail come to an end: at most as many of them change the tree as there are
calls, and if more are allowed the tree is stable afterwards. -/
theorem optimizeUntilStable_stable {w : Workspace} (h : w.tree.WellLinked)
    (namespaces : List String) (variants : Variants) :
    (∀ w', Step.optimize namespaces variants w = .ok true w' →
      w'.tree.callCount < w.tree.callCount) ∧
    (∀ w', Step.optimize namespaces variants w = .ok false w' → w'.tree = w.tree) ∧
    ∀ limit passes w', Step.optimizeUntilStable namespaces variants limit w = .ok passes w' →
      passes ≤ min w.tree.callCount limit ∧
      (w.tree.callCount < limit →
        ∃ w'', Step.optimize namespaces variants w' = .ok false w'' ∧ w''.tree = w'.tree) := by
  have hpass : ∀ {b w'}, Step.optimize namespaces variants w = .ok b w' →
      b = false ∧ w'.tree = w.tree ∨ b = true ∧ w'.tree.callCount < w.tree.callCount := by
    intro b w' hrun
    rw [Step.optimize_eq] at hrun
    exact Step.visitAll_callCount h (Step.calls_callSites h namespaces) hrun
  refine ⟨fun w' hrun => ?_, fun w' hrun => ?_, fun limit passes w' hrun => ?_⟩
  · obtain ⟨hb, -⟩ | ⟨-, hlt⟩ := hpass hrun
    · exact absurd hb (by simp)
    · exact hlt
  · obtain ⟨-, htree⟩ | ⟨hb, -⟩ := hpass hrun
    · exact htree
    · exact absurd hb (by simp)
  · obtain ⟨hle, hcount, hstable⟩ := Step.optimizeUntilStable_ok h hrun
    refine ⟨le_min hcount hle, fun hlimit => ?_⟩
    obtain ⟨log', hidle⟩ := hstable hlimit w'.log
    exact ⟨_, hidle, rfl⟩

/-- A selection that becomes the arguments of a call takes a second pass, and the tree is stable after
it. -/
theorem optimizeUntilStable_stable_callWithSelection :
    (callWithSelection [2, 6, 18]).WellLinked ∧ (callWithSelection [2, 6, 18]).callCount = 2 ∧
    ∃ w', Step.optimizeUntilStable ["env"] debugOn 3 ⟨callWithSelection [2, 6, 18], {}⟩ =
        .ok 2 w' ∧
      2 ≤ min (callWithSelection [2, 6, 18]).callCount 3 ∧
      ∃ w'', Step.optimize ["env"] debugOn w' = .ok false w'' ∧ w''.tree = w'.tree := by
  have h : (callWithSelection [2, 6, 18]).WellLinked := by decide
  have hcount : (callWithSelection [2, 6, 18]).callCount = 2 := by decide +kernel
  have hrun : ∃ w', Step.optimizeUntilStable ["env"] debugOn 3
      ⟨callWithSelection [2, 6, 18], {}⟩ = .ok 2 w' := by
    have htwo : (Step.endsWith? 2 (Step.optimizeUntilStable ["env"] debugOn 3
        ⟨callWithSelection [2, 6, 18], {}⟩)).isSome = true := by decide +kernel
    obtain ⟨w', hrun⟩ := Option.isSome_iff_exists.1 htwo
    exact ⟨w', Step.endsWith?_eq_some.1 hrun⟩
  obtain ⟨w', hrun⟩ := hrun
  obtain ⟨-, -, hruns⟩ := optimizeUntilStable_stable (w := ⟨callWithSelection [2, 6, 18], {}⟩) h
    ["env"] debugOn
  obtain ⟨hle, hstable⟩ := hruns 3 2 w' hrun
  exact ⟨h, hcount, w', hrun, hle, hstable (by simp only [hcount]; omega)⟩

end VariantFold
