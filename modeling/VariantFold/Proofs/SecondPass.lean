/-
One pass is enough.

In a tree whose calls are in order, a pass goes through the calls that ask for variants from the outside
in: a call comes before the calls below it.  So when a call is reached, all below it is as it was at the
start, or the call was cut out with all of it.  Every call with a configured key is then answered and
goes, the others stay, and a second pass has nothing to do.
-/
import VariantFold.Proofs.Sites

namespace VariantFold

namespace Tree

variable {t t₀ t' : Tree} {b c x y : NodeId} {namespaces : List String} {variants : Variants}
  {site : CallSite}

/-! ### The order of the calls -/

/-- A list without repetition has no two elements in both orders. -/
lemma not_sublist_swap {l : List NodeId} (hnd : l.Nodup) (h : [x, y].Sublist l) :
    ¬ [y, x].Sublist l := by
  intro h'
  induction l with
  | nil => exact absurd h (by simp)
  | cons z l ih =>
    obtain ⟨hz, hnd⟩ := List.nodup_cons.1 hnd
    cases h with
    | cons _ h =>
      cases h' with
      | cons _ h' => exact ih hnd h h'
      | cons_cons => exact hz (h.subset (by simp))
    | cons_cons _ h =>
      cases h' with
      | cons _ h' => exact hz (h'.subset (by simp))
      | cons_cons => exact hz (h.subset (by simp))

/-- A call that asks for a variant comes before those below it. -/
lemma Orderly.pairwise_callSites (ho : t.Orderly namespaces variants) (h : t.WellLinked) :
    (t.callSites namespaces).Pairwise fun site site' => ¬ t.Below site'.call site.call := by
  rw [callSites, List.pairwise_filterMap, List.pairwise_iff_forall_sublist]
  intro x y hxy site hsite site' hsite' hbelow
  have hy : y ∈ t.descendants t.root := hxy.subset (by simp)
  obtain ⟨hkind, -, operand, hop, -, hcall, -⟩ := callSite?_spells hsite
  obtain ⟨hkind', -, operand', hop', hkindop', hcall', hkindcall'⟩ := callSite?_spells hsite'
  obtain ⟨hfirst, hname⟩ := ho.calleeFirst y hy site' hsite' operand' hop'
  -- the walk through the outer call begins with the call, its operand and its name
  obtain ⟨rest, hrest⟩ : ∃ rest, t.descendants site'.call = site'.call :: operand' :: y :: rest := by
    obtain ⟨cs, hcs⟩ := List.head?_eq_some_iff.1 hfirst
    obtain ⟨ns, hns⟩ := List.head?_eq_some_iff.1 hname
    rw [h.descendants_eq, hcs, List.flatMap_cons, h.descendants_eq operand', hns, List.flatMap_cons,
      h.descendants_eq y]
    exact ⟨_, rfl⟩
  have hmem : x ∈ t.descendants site'.call := by
    refine h.mem_descendants.2 (hbelow.atOrBelow.trans ?_)
    exact (below_of_parent hcall).atOrBelow.trans (below_of_parent hop).atOrBelow
  have hatt' : t.AtOrBelow t.root site'.call := by
    refine h.attached_above ?_ (h.mem_descendants.1 hy)
    exact (below_of_parent hcall').atOrBelow.trans (below_of_parent hop').atOrBelow
  have hsub := h.descendants_sublist hatt'
  rw [hrest] at hmem hsub
  have hyx : [y, x].Sublist (t.descendants t.root) := by
    refine List.Sublist.trans ?_ hsub
    refine List.Sublist.cons _ (List.Sublist.cons _ (List.Sublist.cons_cons _ ?_))
    rw [List.singleton_sublist]
    rcases List.mem_cons.1 hmem with rfl | hmem
    · rw [hkindcall'] at hkind
      exact absurd hkind (by simp)
    rcases List.mem_cons.1 hmem with rfl | hmem
    · rw [hkindop'] at hkind
      exact absurd hkind (by simp)
    rcases List.mem_cons.1 hmem with rfl | hmem
    · rw [hsite] at hsite'
      rw [Option.some_injective _ hsite'] at hbelow
      exact absurd hbelow h.not_below_self
    · exact hmem
  exact not_sublist_swap (h.nodup_descendants t.root) hxy hyx

/-! ### Calls that are left -/

lemma Progress.label_arg (h : t₀.Progress namespaces t) (h₀ : t₀.WellLinked)
    (hc : c ∈ t₀.callArgs site.call) : t₀.SameLabel t c := by
  obtain ⟨params, -, -, hmem⟩ := mem_callArgs hc
  exact h.label c (h₀.child_lt hmem)

/-- The entries of an object literal are below it. -/
lemma SameBelow.branches_eq (h : t₀.SameBelow t x) (h₀ : t₀.WellLinked) :
    t.branches x = t₀.branches x := by
  obtain ⟨hlabel, hchildren⟩ := h x (AtOrBelow.refl t₀ x)
  have hsame : ∀ {y}, t₀.SameBelow t y → ∀ c ∈ t₀.children y, t₀.SameLabel t c :=
    fun hy c hc => (hy.child h₀ hc c (AtOrBelow.refl t₀ c)).1
  have hentry : ∀ e ∈ t₀.children x, t.branch? e = t₀.branch? e := by
    intro e he
    have hbelow := h.child h₀ he
    obtain ⟨hlabele, hchildrene⟩ := hbelow e (AtOrBelow.refl t₀ e)
    rw [branch?, branch?, hlabele.kind_eq, hlabele.str?_eq,
      childOfKind?_congr hchildrene (hsame hbelow) .value]
    rcases hfound : t₀.childOfKind? e .value with _ | slot
    · rfl
    · have hslot := hbelow.child h₀ (childOfKind?_some hfound).1
      have hcontents := contents_congr (hslot slot (AtOrBelow.refl t₀ slot)).2 (hsame hslot)
      simp only [Option.bind_eq_bind, Option.bind_some, hcontents]
  rw [branches, branches, hlabel.kind_eq, hchildren, List.filterMap_congr hentry]

section Left

variable (h : t₀.Progress namespaces t) (h₀ : t₀.WellLinked) (ho : t₀.Orderly namespaces variants)
  (hstay : t₀.ArgumentsStay namespaces) (hsite : site ∈ t₀.callSites namespaces)
  (hatt : t.AtOrBelow t.root site.call)
include h h₀ ho hstay hsite hatt

lemma Progress.callArgs_site : t.callArgs site.call = t₀.callArgs site.call := by
  obtain ⟨params, hp⟩ := exists_hasParams (ho.wellFormed site hsite) (hstay site hsite)
  exact h.callArgs_eq h₀ hp hatt

lemma Progress.siteKey_eq : t.siteKey site.call = t₀.siteKey site.call := by
  rw [siteKey, siteKey, h.callArgs_site h₀ ho hstay hsite hatt]
  rcases hargs : t₀.callArgs site.call with _ | ⟨key, rest⟩
  · rfl
  · have hkey := h.label_arg h₀ (show key ∈ t₀.callArgs site.call by simp [hargs])
    simp only [List.head?_cons, Option.map_some, hkey.literalText_eq]

lemma Progress.isWellFormed_site : t.isWellFormed site = true := by
  have hlabel : ∀ c ∈ t₀.callArgs site.call, t₀.SameLabel t c := fun c => h.label_arg h₀
  obtain ⟨key, rest, hargs, hkey, hrest⟩ := isWellFormed_iff.1 (ho.wellFormed site hsite)
  rw [hargs] at hlabel
  refine isWellFormed_iff.2 ⟨key, rest, (h.callArgs_site h₀ ho hstay hsite hatt).trans hargs, ?_,
    hrest.imp_right ?_⟩
  · rwa [(hlabel key List.mem_cons_self).isStringLiteral_eq]
  · rintro ⟨second, rfl, hsecond⟩
    have hsame := hlabel second (by simp)
    refine ⟨second, rfl, ?_⟩
    rwa [hsame.isStringLiteral_eq, hsame.kind_eq]

lemma Progress.isAnswered_site (hsame : t₀.SameBelow t site.call) :
    t.isAnswered variants site = true := by
  rw [← ho.answered site hsite, isAnswered, isAnswered, h.siteKey_eq h₀ ho hstay hsite hatt,
    h.callArgs_site h₀ ho hstay hsite hatt]
  obtain ⟨key, rest, hargs, -, hrest⟩ := isWellFormed_iff.1 (ho.wellFormed site hsite)
  rcases hrest with ⟨hm, -⟩ | ⟨second, rfl, ⟨hm | hm, -⟩ | ⟨hm, -⟩⟩ <;> simp only [hm]
  obtain ⟨params, hp, -, hmem⟩ := mem_callArgs (a := second) (by rw [hargs]; simp)
  have hbelow : t₀.AtOrBelow site.call second :=
    (h₀.below_child hp).atOrBelow.trans
      (h₀.below_child hmem).atOrBelow
  rw [hargs, show secondArg [key, second] = second from rfl, (hsame.mono hbelow).branches_eq h₀]

end Left

end Tree

namespace Step

variable {t₀ : Tree} {namespaces : List String} {variants : Variants} {site : CallSite}
  {w w' : Workspace} {value : Scalar}

/-- A call with well-formed arguments whose key is configured is answered if there is an answer. -/
lemma resolve_set (h : w.tree.WellLinked) (hatt : w.tree.AtOrBelow w.tree.root site.call)
    (hkind : w.tree.kind site.call = .call) (hform : w.tree.isWellFormed site = true)
    (hanswer : w.tree.isAnswered variants site = true)
    (hv : variants.lookup (w.tree.siteKey site.call) = some value) :
    ∃ w', resolve variants site w = .ok true w' ∧ Answered site value w w' := by
  obtain ⟨key, rest, hargs, hkey, hrest⟩ := Tree.isWellFormed_iff.1 hform
  have hkeyArgs := Tree.keyArguments_of_isWellFormed hform
  rw [hargs] at hkeyArgs
  rw [Tree.isAnswered, hv] at hanswer
  rcases hrest with ⟨hm, rfl⟩ | ⟨second, rfl, ⟨hm | hm, hlit⟩ | ⟨hm, hmap⟩⟩ <;>
    rw [hm] at hkeyArgs <;> simp only [resolve, hm] at hanswer ⊢
  · rcases Tree.materialize_cases h value (w.tree.node site.call).line?
      (w.log.location w.tree site.call) with ⟨-, n, u, hn, hleaf⟩ | ⟨hnot, -⟩
    · exact getValue_changed h hatt hkind hkeyArgs hv hn hleaf
    · rw [hnot] at hanswer
      exact absurd hanswer (by simp)
  · exact isSet_changed h hatt hkind hkeyArgs hv hlit
  · exact isSet_changed h hatt hkind hkeyArgs hv hlit
  · rw [hargs] at hanswer
    split at hanswer
    · rename_i bs hbs
      obtain ⟨b, hb⟩ := Option.isSome_iff_exists.1 hanswer
      exact select_changed h hatt hkind hkeyArgs hv hbs hb
    · exact absurd hanswer (by simp)

/-! ### Passes -/

/-- A pass through calls with well-formed arguments whose keys are not configured does nothing. -/
lemma visitAll_unset (h : w.tree.WellLinked) {sites : List CallSite}
    (hsites : ∀ site ∈ sites, w.tree.AtOrBelow w.tree.root site.call ∧
      w.tree.isWellFormed site = true ∧ variants.lookup (w.tree.siteKey site.call) = none) :
    visitAll variants sites w = .ok false w := by
  induction sites with
  | nil => rfl
  | cons site rest ih =>
    obtain ⟨hatt, hform, hv⟩ := hsites site List.mem_cons_self
    have hvisit : visit variants site w = .ok false w := by
      rw [visit_attached h hatt, resolve_unset (Tree.keyArguments_of_isWellFormed hform) hv]
    have hrest := ih fun s hs => hsites s (List.mem_cons_of_mem site hs)
    exact visitAll_cons_ok.2 ⟨false, w, false, hvisit, hrest, rfl⟩

section Pass

variable (h₀ : t₀.WellLinked) (ho : t₀.Orderly namespaces variants)
  (hstay : t₀.ArgumentsStay namespaces)
include h₀ ho hstay

/-- A call below which all is as it was at the start is answered if its key is configured, and then it
is gone. -/
lemma visit_settles (h : t₀.Progress namespaces w.tree) (hsite : site ∈ t₀.callSites namespaces)
    (hsame : w.tree.AtOrBelow w.tree.root site.call → t₀.SameBelow w.tree site.call) :
    ∃ b w', visit variants site w = .ok b w' ∧ t₀.Progress namespaces w'.tree ∧
      (w'.tree = w.tree ∨ ∃ S, w.tree.Resolves S site.call w'.tree) ∧
      (w'.tree.AtOrBelow w'.tree.root site.call →
        variants.lookup (t₀.siteKey site.call) = none) := by
  obtain ⟨hlt₀, hkind₀⟩ := calls_callSites h₀ namespaces site hsite
  rw [visit, bind_ok (tree_ok w)]
  by_cases hatt : w.tree.AtOrBelow w.tree.root site.call
  · rw [if_pos (h.wellLinked.isAttached_iff.2 hatt)]
    have hform := h.isWellFormed_site h₀ ho hstay hsite hatt
    have hkey := h.siteKey_eq h₀ ho hstay hsite hatt
    rcases hv : variants.lookup (t₀.siteKey site.call) with _ | value
    · exact ⟨false, w, resolve_unset (Tree.keyArguments_of_isWellFormed hform) (hkey ▸ hv), h,
        Or.inl rfl, fun _ => rfl⟩
    · have hanswer := h.isAnswered_site h₀ ho hstay hsite hatt (hsame hatt)
      obtain ⟨w', hrun, ⟨hres, -⟩⟩ := resolve_set h.wellLinked hatt
        ((h.label _ hlt₀).kind_eq.trans hkind₀) hform hanswer (hkey ▸ hv)
      refine ⟨true, w', hrun, ?_, Or.inr ⟨_, hres⟩, fun hatt' => ?_⟩
      · exact hres.keeps (fun _ g r _ hp => hp.graft ho h₀ g r) hatt h
      · exact absurd hatt' (hres.not_attached (hlt₀.trans_le h.size_le))
  · rw [if_neg (fun hyes => hatt (h.wellLinked.isAttached_iff.1 hyes))]
    exact ⟨false, _, rfl, h, Or.inl rfl, fun hatt' => absurd hatt' hatt⟩

/-- A pass through calls, the outer ones before the inner ones. -/
lemma visitAll_settles {sites : List CallSite} (h : t₀.Progress namespaces w.tree)
    (hsites : ∀ site ∈ sites, site ∈ t₀.callSites namespaces)
    (horder : sites.Pairwise fun site site' => ¬ t₀.Below site'.call site.call)
    (hsame : ∀ site ∈ sites, w.tree.AtOrBelow w.tree.root site.call →
      t₀.SameBelow w.tree site.call) :
    ∃ b w', visitAll variants sites w = .ok b w' ∧ t₀.Progress namespaces w'.tree ∧
      (∀ y < t₀.size, w'.tree.AtOrBelow w'.tree.root y → w.tree.AtOrBelow w.tree.root y) ∧
      ∀ site ∈ sites, w'.tree.AtOrBelow w'.tree.root site.call →
        variants.lookup (t₀.siteKey site.call) = none := by
  induction sites generalizing w with
  | nil => exact ⟨false, w, rfl, h, fun _ _ hatt => hatt, by simp⟩
  | cons site rest ih =>
    obtain ⟨horder₁, horder⟩ := List.pairwise_cons.1 horder
    have hsite := hsites site List.mem_cons_self
    obtain ⟨b, w₁, hvisit, h₁, hchange, hgone⟩ :=
      visit_settles h₀ ho hstay h hsite (hsame site List.mem_cons_self)
    have hbefore : ∀ y < t₀.size, w₁.tree.AtOrBelow w₁.tree.root y →
        w.tree.AtOrBelow w.tree.root y := by
      intro y hy hatt
      rcases hchange with heq | ⟨S, hres⟩
      · exact heq ▸ hatt
      · exact hres.attached_before (hy.trans_le h.size_le) hatt
    -- no later call is above this one, so nothing below a later call changes
    have hsame₁ : ∀ later ∈ rest, w₁.tree.AtOrBelow w₁.tree.root later.call →
        t₀.SameBelow w₁.tree later.call := by
      intro later hlater hatt₁
      have hlt := (calls_callSites h₀ namespaces later
        (hsites later (List.mem_cons_of_mem site hlater))).1
      have hatt := hbefore _ hlt hatt₁
      have hstill := hsame later (List.mem_cons_of_mem site hlater) hatt
      rcases hchange with heq | ⟨S, hres⟩
      · rwa [heq]
      have hnot : ¬ w.tree.Below later.call site.call := by
        intro habove
        have hlt' := (calls_callSites h₀ namespaces site hsite).1
        exact horder₁ later hlater
          ((h.below_iff _ hlt _ hlt' hatt (hatt.trans habove.atOrBelow)).1 habove)
      exact hstill.trans (hres.sameBelow h.wellLinked (hlt.trans_le h.size_le) hnot hatt₁) h₀
        h.wellLinked
    obtain ⟨b', w', hrun, h', hbefore', hrest⟩ := ih h₁
      (fun s hs => hsites s (List.mem_cons_of_mem site hs)) horder hsame₁
    refine ⟨b || b', w', visitAll_cons_ok.2 ⟨b, w₁, b', hvisit, hrun, rfl⟩, h',
      fun y hy hatt => hbefore y hy (hbefore' y hy hatt), fun s hs hatt => ?_⟩
    rcases List.mem_cons.1 hs with rfl | hs
    · exact hgone (hbefore' _ (calls_callSites h₀ namespaces s hsite).1 hatt)
    · exact hrest s hs hatt

end Pass

end Step

/-- In a tree whose calls are in order, one pass succeeds, the calls that ask for variants after it are
those from before that still belong to the tree and whose keys are not configured, and a second pass
does and reports nothing. -/
theorem optimize_settles {namespaces : List String} {variants : Variants} {w : Workspace}
    (h : w.tree.WellLinked) (ho : w.tree.Orderly namespaces variants)
    (hstay : w.tree.ArgumentsStay namespaces) :
    ∃ changed w', Step.optimize namespaces variants w = .ok changed w' ∧
      (∀ site, site ∈ w'.tree.callSites namespaces ↔
        site ∈ w.tree.callSites namespaces ∧ w'.tree.AtOrBelow w'.tree.root site.call ∧
          variants.lookup (w.tree.siteKey site.call) = none) ∧
      Step.optimize namespaces variants w' = .ok false w' := by
  obtain ⟨changed, w', hrun, h', -, hunset⟩ := Step.visitAll_settles h ho hstay
    (Tree.Progress.refl h) (fun _ hsite => hsite) (ho.pairwise_callSites h)
    (fun site _ _ => Tree.SameBelow.refl w.tree site.call)
  refine ⟨changed, w', hrun, fun site => ?_, ?_⟩
  · rw [h'.mem_callSites_iff h]
    exact ⟨fun ⟨hsite, hatt⟩ => ⟨hsite, hatt, hunset site hsite hatt⟩,
      fun ⟨hsite, hatt, _⟩ => ⟨hsite, hatt⟩⟩
  · rw [Step.optimize, bind_ok (Step.tree_ok w')]
    refine Step.visitAll_unset h'.wellLinked fun site hsite' => ?_
    obtain ⟨hsite, hatt⟩ := (h'.mem_callSites_iff h).1 hsite'
    refine ⟨hatt, h'.isWellFormed_site h ho hstay hsite hatt, ?_⟩
    rw [h'.siteKey_eq h ho hstay hsite hatt]
    exact hunset site hsite hatt

/-! ### Arguments that move -/

/-- A call that asks for `locale` and has a selection among its parts, which has other arguments as an
entry; `parts` is the order of the parts. -/
def callWithSelection (parts : List NodeId) : Tree where
  root := 0
  nodes := ⟨#[
    { kind := .file, children := [1] },
    { kind := .call, children := parts, parent := some 0 },
    { kind := .operand, children := [3], parent := some 1 },
    { kind := .dottedName, children := [4, 5], parent := some 2 },
    { kind := .identifier, parent := some 3,
      attributes := KeyMap.empty.insert Attr.name (.string "env") },
    { kind := .identifier, parent := some 3,
      attributes := KeyMap.empty.insert Attr.name (.string "get") },
    { kind := .call, children := [7, 11], parent := some 1 },
    { kind := .operand, children := [8], parent := some 6 },
    { kind := .dottedName, children := [9, 10], parent := some 7 },
    { kind := .identifier, parent := some 8,
      attributes := KeyMap.empty.insert Attr.name (.string "env") },
    { kind := .identifier, parent := some 8,
      attributes := KeyMap.empty.insert Attr.name (.string "select") },
    { kind := .params, children := [12, 13], parent := some 6 },
    { kind := .constant, parent := some 11, attributes := ConstantType.string.attributes "debug" },
    { kind := .map, children := [14], parent := some 11 },
    { kind := .keyValue, children := [15], parent := some 13,
      attributes := KeyMap.empty.insert Attr.key (.string "default") },
    { kind := .value, children := [16], parent := some 14 },
    { kind := .params, children := [17], parent := some 15 },
    { kind := .constant, parent := some 16, attributes := ConstantType.string.attributes "debug" },
    { kind := .params, children := [19], parent := some 1 },
    { kind := .constant, parent := some 18,
      attributes := ConstantType.string.attributes "locale" }]⟩

theorem optimize_settles_callWithSelection :
    (callWithSelection [2, 18, 6]).WellLinked ∧
    (callWithSelection [2, 18, 6]).Orderly ["env"] debugOn ∧
    (callWithSelection [2, 18, 6]).ArgumentsStay ["env"] ∧
    ∃ changed w', Step.optimize ["env"] debugOn ⟨callWithSelection [2, 18, 6], {}⟩ =
        .ok changed w' ∧
      (∀ site, site ∈ w'.tree.callSites ["env"] ↔
        site ∈ (callWithSelection [2, 18, 6]).callSites ["env"] ∧
          w'.tree.AtOrBelow w'.tree.root site.call ∧
          debugOn.lookup ((callWithSelection [2, 18, 6]).siteKey site.call) = none) ∧
      Step.optimize ["env"] debugOn w' = .ok false w' := by
  have h : (callWithSelection [2, 18, 6]).WellLinked := by decide
  have ho : (callWithSelection [2, 18, 6]).Orderly ["env"] debugOn :=
    ⟨by decide +kernel, by decide +kernel, by decide +kernel, by decide +kernel, by decide +kernel⟩
  have hstay : (callWithSelection [2, 18, 6]).ArgumentsStay ["env"] := by
    unfold Tree.ArgumentsStay
    decide +kernel
  exact ⟨h, ho, hstay, optimize_settles (w := ⟨callWithSelection [2, 18, 6], {}⟩) h ho hstay⟩

/-- Where a selection comes before the arguments of a call, it may become the arguments, and a second
pass answers a call that the first one left. -/
theorem second_pass_changes :
    (callWithSelection [2, 6, 18]).WellLinked ∧
    (callWithSelection [2, 6, 18]).Orderly ["env"] debugOn ∧
    ∃ w' w'', Step.optimize ["env"] debugOn ⟨callWithSelection [2, 6, 18], {}⟩ = .ok true w' ∧
      Step.optimize ["env"] debugOn w' = .ok true w'' := by
  refine ⟨by decide, ⟨by decide +kernel, by decide +kernel, by decide +kernel, by decide +kernel,
    by decide +kernel⟩, ?_⟩
  have hboth : ((Step.endsWith? true (Step.optimize ["env"] debugOn
      ⟨callWithSelection [2, 6, 18], {}⟩)).bind fun w' =>
        Step.endsWith? true (Step.optimize ["env"] debugOn w')).isSome = true := by decide +kernel
  obtain ⟨w'', hboth⟩ := Option.isSome_iff_exists.1 hboth
  obtain ⟨w', hfirst, hsecond⟩ := Option.bind_eq_some_iff.1 hboth
  exact ⟨w', w'', Step.endsWith?_eq_some.1 hfirst, Step.endsWith?_eq_some.1 hsecond⟩

end VariantFold
