/-
Variants that a tree does not mention make no difference.

A step looks up one key, the text of a string literal in the tree.  The string literals that rewrites add
are those of configured values.  So a set of keys that has the texts of the literals and is closed under
looking up strings has all keys that a run looks up, however often the tree changes (`Tree.TextsIn`), and
two configurations that agree on the set lead to the same runs.
-/
import VariantFold.Proofs.ReadBack
import VariantFold.Proofs.SecondPass

namespace VariantFold

variable {K : Set String} {variants variants' : Variants}

namespace Tree

variable {t t' : Tree} {x call : NodeId} {S : Scalar → Prop}

/-! ### The texts of a tree -/

/-- The texts of the string literals in a tree are among those of a set. -/
def TextsIn (K : Set String) (t : Tree) : Prop :=
  ∀ x, t.AtOrBelow t.root x → (t.node x).isStringLiteral = true → (t.node x).literalText ∈ K

/-- The key that a call asks for is one of the texts. -/
lemma TextsIn.key_mem (ht : t.TextsIn K) (h : t.WellLinked) (hatt : t.AtOrBelow t.root call)
    {expected : Nat} {key : String} {args : List NodeId}
    (hargs : t.keyArguments call expected = .ok (key, args)) : key ∈ K := by
  obtain ⟨heq, -, first, rest, hfirst, hlit, rfl⟩ := keyArguments_ok hargs
  obtain ⟨params, hparams, -, hmem⟩ :=
    mem_callArgs (show first ∈ t.callArgs call by rw [← heq, hfirst]; exact List.mem_cons_self)
  refine ht first (hatt.trans ?_) hlit
  exact (h.below_child hparams).atOrBelow.trans (h.below_child hmem).atOrBelow

/-- Rewrites keep the texts in a set that has the strings whose literals come in. -/
lemma Resolves.textsIn (r : Resolves S t x t') (hx : t.AtOrBelow t.root x)
    (hS : ∀ s, S (.string s) → s ∈ K) (ht : t.TextsIn K) : t'.TextsIn K := by
  refine r.keeps ?_ hx ht
  intro t u t' x old new _ g reason hbrings ht y hatt hlit
  rcases Nat.lt_or_ge y t.size with hlt | hge
  · have hlabel := g.sameLabel hlt
    rw [hlabel.isStringLiteral_eq] at hlit
    rw [hlabel.literalText_eq]
    exact ht y (g.attached_before hlt hatt).1 hlit
  · have hkind := kind_of_isStringLiteral hlit
    have hnew := reason.mem_new_of_constant g hatt hge hkind
    rcases g.source y hnew with ⟨-, hlt, -⟩ | hbelow
    · obtain ⟨v, line, hv, has⟩ := hbrings y hnew hge ((g.replaced.kind_eq y hlt).symm.trans hkind)
      rw [← g.replaced.attributes_eq y hlt] at has
      have hstring := Node.eq_string_of_isStringLiteral hkind has hlit
      exact hS _ (hstring ▸ hv)
    · exact absurd (hbelow.atOrBelow.lt g.old_lt) (not_lt.2 hge)

end Tree

/-- Two configurations agree on a set of keys, and a string that is configured for one of them is one of
them. -/
structure Agree (K : Set String) (variants variants' : Variants) : Prop where
  lookup_eq : ∀ k ∈ K, variants.lookup k = variants'.lookup k
  closed : ∀ k ∈ K, ∀ s, variants.lookup k = some (.string s) → s ∈ K

namespace Step

variable {namespaces : List String} {site : CallSite} {sites : List CallSite} {w w' : Workspace}
  {b : Bool}

/-! ### Steps -/

/-- A step looks up the key of its call and nothing else. -/
lemma resolve_congr (h : ∀ key args,
      w.tree.keyArguments site.call site.method.arity = .ok (key, args) →
      variants.lookup key = variants'.lookup key) :
    resolve variants site w = resolve variants' site w := by
  rcases hargs : w.tree.keyArguments site.call site.method.arity with m | ⟨key, args⟩
  · rw [resolve_malformed hargs, resolve_malformed hargs]
  have hv := h key args hargs
  rcases hm : site.method <;> rw [hm] at hargs <;> simp only [resolve, hm]
  · rw [select, select, bind_ok (tree_ok w), bind_ok (tree_ok w)]
    simp only [show w.tree.keyArguments site.call 2 = _ from hargs, hv]
  · rw [isSet, isSet, bind_ok (tree_ok w), bind_ok (tree_ok w)]
    simp only [show w.tree.keyArguments site.call 2 = _ from hargs, hv]
  · rw [isSet, isSet, bind_ok (tree_ok w), bind_ok (tree_ok w)]
    simp only [show w.tree.keyArguments site.call 2 = _ from hargs, hv]
  · rw [getValue, getValue, bind_ok (tree_ok w), bind_ok (tree_ok w)]
    simp only [show w.tree.keyArguments site.call 1 = _ from hargs, hv]

section Runs

variable (hagree : Agree K variants variants')
include hagree

lemma visit_agree (site : CallSite) (h : w.tree.WellLinked) (ht : w.tree.TextsIn K) :
    visit variants site w = visit variants' site w := by
  by_cases hatt : w.tree.AtOrBelow w.tree.root site.call
  · rw [visit_attached h hatt, visit_attached h hatt]
    exact resolve_congr fun key args hargs => hagree.lookup_eq key (ht.key_mem h hatt hargs)
  · rw [visit_detached h hatt, visit_detached h hatt]

lemma visit_textsIn (h : w.tree.WellLinked) (hkind : w.tree.kind site.call = .call)
    (ht : w.tree.TextsIn K) (hvisit : visit variants site w = .ok b w') : w'.tree.TextsIn K := by
  rcases visit_cases variants h hkind with ⟨w₁, hrun, htree⟩ | ⟨e, hrun⟩ |
    ⟨hatt, key, args, value, w₁, hargs, hv, hrun, hanswer⟩
  · obtain ⟨-, rfl⟩ := EStateM.Result.ok.inj (hrun.symm.trans hvisit)
    rwa [htree]
  · exact absurd (hrun.symm.trans hvisit) (by simp)
  · obtain ⟨-, rfl⟩ := EStateM.Result.ok.inj (hrun.symm.trans hvisit)
    refine hanswer.resolves.textsIn hatt (fun s hs => ?_) ht
    rcases hs with rfl | ⟨b, hb⟩
    · exact hagree.closed key (ht.key_mem h hatt hargs) s hv
    · exact absurd hb (by simp)

/-- Runs through calls are the same, and the texts stay in the set. -/
lemma visitAll_agree (h : w.tree.WellLinked) (hsites : Calls w.tree sites)
    (ht : w.tree.TextsIn K) :
    visitAll variants sites w = visitAll variants' sites w ∧
      ∀ b w', visitAll variants sites w = .ok b w' → w'.tree.TextsIn K := by
  induction sites generalizing w with
  | nil =>
    refine ⟨rfl, fun b w' hrun => ?_⟩
    obtain ⟨-, rfl⟩ := EStateM.Result.ok.inj hrun
    exact ht
  | cons site rest ih =>
    obtain ⟨-, hkind⟩ := hsites site List.mem_cons_self
    have hvisit := visit_agree hagree site h ht
    rw [visitAll, visitAll]
    rcases hrun : visit variants site w with ⟨b₁, w₁⟩ | ⟨e, w₁⟩
    · obtain ⟨h₁, hkept⟩ := visit_ok h hkind hrun
      obtain ⟨hsame, hend⟩ := ih h₁ (hsites.rest.keeps hkept)
        (visit_textsIn hagree h hkind ht hrun)
      rw [bind_ok hrun, bind_ok (hvisit.symm.trans hrun)]
      refine ⟨?_, fun b w' hall => ?_⟩
      · simp only [bind, EStateM.bind, hsame]
      · obtain ⟨b₂, w₂, hrest, hall⟩ := of_bind_ok hall
        obtain ⟨-, rfl⟩ := EStateM.Result.ok.inj hall
        exact hend b₂ w₂ hrest
    · rw [bind_error hrun, bind_error (hvisit.symm.trans hrun)]
      exact ⟨rfl, fun b w' hall => absurd hall (by simp)⟩

/-- Passes in a row are the same. -/
lemma optimizeUntilStable_agree (h : w.tree.WellLinked) (ht : w.tree.TextsIn K) (limit : Nat) :
    optimizeUntilStable namespaces variants limit w =
      optimizeUntilStable namespaces variants' limit w := by
  induction limit generalizing w with
  | zero => rfl
  | succ limit ih =>
    have hsites := calls_callSites h namespaces
    obtain ⟨hsame, hend⟩ := visitAll_agree hagree h hsites ht
    rw [← optimize_eq, ← optimize_eq] at hsame
    rw [optimizeUntilStable, optimizeUntilStable]
    rcases hrun : optimize namespaces variants w with ⟨b, w₁⟩ | ⟨e, w₁⟩
    · rw [bind_ok hrun, bind_ok (hsame.symm.trans hrun)]
      rw [optimize_eq] at hrun
      cases b with
      | false => rfl
      | true =>
        have hmore := ih (visitAll_ok h hsites hrun).1 (hend true w₁ hrun)
        simp only [if_true, bind, EStateM.bind, hmore]
    · rw [bind_error hrun, bind_error (hsame.symm.trans hrun)]

end Runs

end Step

/-- Variants that a tree does not mention make no difference: let a set of keys have the empty text, the
texts of the string literals in the tree, and every string that is configured for one of its keys.  Two
configurations that agree on these keys lead to the same result, the same tree and the same reports. -/
theorem optimize_congr {K : Set String} {variants variants' : Variants} {w : Workspace}
    (h : w.tree.WellLinked) (hempty : "" ∈ K)
    (htexts : ∀ x, w.tree.AtOrBelow w.tree.root x → (w.tree.node x).isStringLiteral = true →
      ∀ s, (w.tree.node x).str? Attr.value = some s → s ∈ K)
    (hclosed : ∀ k ∈ K, ∀ s, variants.lookup k = some (.string s) → s ∈ K)
    (hagree : ∀ k ∈ K, variants.lookup k = variants'.lookup k) (namespaces : List String) :
    Step.optimize namespaces variants w = Step.optimize namespaces variants' w ∧
      ∀ limit, Step.optimizeUntilStable namespaces variants limit w =
        Step.optimizeUntilStable namespaces variants' limit w := by
  have ht : w.tree.TextsIn K := by
    intro x hatt hlit
    rw [Node.literalText]
    rcases hs : (w.tree.node x).str? Attr.value with _ | s
    · exact hempty
    · exact htexts x hatt hlit s hs
  have hboth : Agree K variants variants' := ⟨hagree, hclosed⟩
  refine ⟨?_, Step.optimizeUntilStable_agree hboth h ht⟩
  rw [Step.optimize_eq, Step.optimize_eq]
  exact (Step.visitAll_agree hboth h (Step.calls_callSites h namespaces) ht).1

/-- The value of one variant is the key of another. -/
def debugIsLocale : Variants := KeyMap.empty.insert "debug" (.string "locale")

theorem optimize_congr_callWithSelection :
    (callWithSelection [2, 6, 18]).WellLinked ∧
    debugIsLocale.lookup "theme" ≠
      Variants.lookup (debugIsLocale.insert "theme" (.string "dark")) "theme" ∧
    Step.optimize ["env"] debugIsLocale ⟨callWithSelection [2, 6, 18], {}⟩ =
      Step.optimize ["env"] (debugIsLocale.insert "theme" (.string "dark"))
        ⟨callWithSelection [2, 6, 18], {}⟩ ∧
    ∀ limit, Step.optimizeUntilStable ["env"] debugIsLocale limit
        ⟨callWithSelection [2, 6, 18], {}⟩ =
      Step.optimizeUntilStable ["env"] (debugIsLocale.insert "theme" (.string "dark")) limit
        ⟨callWithSelection [2, 6, 18], {}⟩ := by
  have h : (callWithSelection [2, 6, 18]).WellLinked := by decide
  have htexts : ∀ x ∈ (callWithSelection [2, 6, 18]).descendants 0,
      ∀ s ∈ ((callWithSelection [2, 6, 18]).node x).str? Attr.value,
        s ∈ ["", "debug", "locale"] := by decide +kernel
  have hclosed : ∀ k ∈ ["", "debug", "locale"],
      ∀ v ∈ debugIsLocale.lookup k, v = .string "locale" := by decide +kernel
  have hagree : ∀ k ∈ ["", "debug", "locale"], debugIsLocale.lookup k =
      Variants.lookup (debugIsLocale.insert "theme" (.string "dark")) k := by decide +kernel
  refine ⟨h, by decide +kernel, optimize_congr (K := { k | k ∈ ["", "debug", "locale"] })
    (w := ⟨callWithSelection [2, 6, 18], {}⟩) h (by simp) ?_ ?_ hagree ["env"]⟩
  · exact fun x hatt _ s hs => htexts x (h.mem_descendants.2 hatt) s hs
  · intro k hk s hs
    obtain rfl : s = "locale" := Scalar.string.inj (hclosed k hk _ hs)
    simp

end VariantFold
