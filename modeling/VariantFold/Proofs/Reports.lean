/-
What a step reports, and what a run that fails leaves behind.

Whatever a step does to a well-linked tree shows in what it returns and reports (`Step.Accounts`): a call
that is answered is cut out and nothing is warned of, a call that is left alone is left with the tree as
it is, silently if its key is not configured and with one warning otherwise, and a complaint about the
configuration changes nothing at all.  So a run that fails stops where the earlier steps have come to.
-/
import VariantFold.Proofs.Outcome

namespace VariantFold

namespace Step

variable {variants : Variants} {site : CallSite} {sites : List CallSite} {t : Tree}
  {w w' : Workspace} {e : Failure}

/-! ### Steps -/

/-- The call has as many arguments as its method takes and the first is a string literal, but the key that
this spells is not configured. -/
def AsksUnset (variants : Variants) (site : CallSite) (t : Tree) : Prop :=
  (t.callArgs site.call).length = site.method.arity ∧
    ∃ key ∈ (t.callArgs site.call).head?, (t.node key).isStringLiteral = true ∧
      variants.lookup (t.node key).literalText = none

lemma asksUnset_iff : AsksUnset variants site t ↔
    ∃ key args, t.keyArguments site.call site.method.arity = .ok (key, args) ∧
      variants.lookup key = none := by
  constructor
  · rintro ⟨hlen, key, hkey, hlit, hv⟩
    obtain ⟨rest, hargs⟩ := List.head?_eq_some_iff.1 hkey
    refine ⟨(t.node key).literalText, key :: rest, ?_, hv⟩
    rw [hargs] at hlen
    simp only [Tree.keyArguments, hargs, if_pos hlen, if_pos hlit]
  · rintro ⟨key, args, hargs, hv⟩
    obtain ⟨heq, hlen, first, rest, hfirst, hlit, rfl⟩ := Tree.keyArguments_ok hargs
    refine ⟨heq ▸ hlen, first, ?_, hlit, hv⟩
    rw [← heq, hfirst]
    rfl

lemma not_asksUnset {key : String} {args : List NodeId} {value : Scalar}
    (hargs : t.keyArguments site.call site.method.arity = .ok (key, args))
    (hv : variants.lookup key = some value) : ¬ AsksUnset variants site t := by
  intro hasks
  obtain ⟨key', args', hargs', hv'⟩ := asksUnset_iff.1 hasks
  obtain ⟨rfl, -⟩ := Prod.mk.inj (Except.ok.inj (hargs.symm.trans hargs'))
  exact absurd (hv.symm.trans hv') (by simp)

lemma Faulty.not_asksUnset {m : Malformed} (h : Faulty variants site t m) :
    ¬ AsksUnset variants site t := by
  cases h with
  | arguments hargs =>
    intro hasks
    obtain ⟨key, args, hargs', -⟩ := asksUnset_iff.1 hasks
    exact absurd (hargs.symm.trans hargs') (by simp)
  | map _ hargs hv => exact Step.not_asksUnset hargs hv
  | candidates _ hargs hv => exact Step.not_asksUnset hargs hv

/-- What a step may leave behind and report, by what it returns. -/
def Accounts (variants : Variants) (site : CallSite) (w : Workspace) :
    EStateM.Result Failure Workspace Bool → Prop
  | .ok true w' =>
    ¬ AsksUnset variants site w.tree ∧ ¬ w'.tree.AtOrBelow w'.tree.root site.call ∧
      w.log.Tells w'.log
  | .ok false w' =>
    w'.tree = w.tree ∧
      (AsksUnset variants site w.tree ∧ w'.log.diagnostics = w.log.diagnostics ∨
        ¬ AsksUnset variants site w.tree ∧
          ∃ d, d.severity = .warning ∧ w'.log.diagnostics = w.log.diagnostics ++ [d])
  | .error _ w' => ¬ AsksUnset variants site w.tree ∧ w' = w

lemma Outcome.accounts {r : EStateM.Result Failure Workspace Bool} (h : Outcome variants site w r)
    (hlt : site.call < w.tree.size) : Accounts variants site w r := by
  cases h with
  | unset hargs hv => exact ⟨rfl, Or.inl ⟨asksUnset_iff.2 ⟨_, _, hargs, hv⟩, rfl⟩⟩
  | faulty hfaulty => exact ⟨rfl, Or.inr ⟨hfaulty.not_asksUnset, _, rfl, rfl⟩⟩
  | failed hargs hv => exact ⟨not_asksUnset hargs hv, rfl⟩
  | changed hargs hv hanswer =>
    exact ⟨not_asksUnset hargs hv, hanswer.resolves.not_attached hlt, hanswer.tells⟩

/-! ### Runs that fail -/

/-- A visit that fails is that of a call in the tree, and leaves all as it is. -/
lemma visit_error (h : w.tree.WellLinked) (hkind : w.tree.kind site.call = .call)
    (hvisit : visit variants site w = .error e w') :
    w' = w ∧ w.tree.AtOrBelow w.tree.root site.call ∧ resolve variants site w = .error e w := by
  by_cases hatt : w.tree.AtOrBelow w.tree.root site.call
  · rw [visit_attached h hatt] at hvisit
    have hcases := resolve_cases variants h hatt hkind
    rw [hvisit] at hcases
    cases hcases
    exact ⟨rfl, hatt, hvisit⟩
  · rw [visit_detached h hatt] at hvisit
    exact absurd hvisit (by simp)

/-- A run that fails has come through the calls before the one that fails, and that one changes
nothing. -/
lemma visitAll_error (h : w.tree.WellLinked) (hsites : Calls w.tree sites)
    (hrun : visitAll variants sites w = .error e w') :
    ∃ before failing after changed, sites = before ++ failing :: after ∧
      visitAll variants before w = .ok changed w' ∧ w'.tree.AtOrBelow w'.tree.root failing.call ∧
      resolve variants failing w' = .error e w' := by
  induction sites generalizing w with
  | nil => exact absurd hrun (by simp [visitAll, pure, EStateM.pure])
  | cons site rest ih =>
    obtain ⟨-, hkind⟩ := hsites site List.mem_cons_self
    rcases visitAll_cons_error.1 hrun with hvisit | ⟨b, w₁, hvisit, hrest⟩
    · obtain ⟨rfl, hatt, hfail⟩ := visit_error h hkind hvisit
      exact ⟨[], site, rest, false, rfl, rfl, hatt, hfail⟩
    · obtain ⟨h₁, hkept⟩ := visit_ok h hkind hvisit
      obtain ⟨before, failing, after, b', heq, hbefore, hatt, hfail⟩ :=
        ih h₁ (hsites.rest.keeps hkept) hrest
      refine ⟨site :: before, failing, after, b || b', by rw [heq]; rfl, ?_, hatt, hfail⟩
      exact visitAll_cons_ok.2 ⟨b, w₁, b', hvisit, hbefore, rfl⟩

end Step

/-- Every step on a call in a well-linked tree accounts for what it does, and a run that fails leaves the
tree and the reports as they are when the calls before the one that fails have been resolved in order,
those apart that were cut out by then. -/
theorem reports_match_outcomes {w : Workspace} (h : w.tree.WellLinked) (variants : Variants) :
    (∀ site : CallSite, w.tree.AtOrBelow w.tree.root site.call → w.tree.kind site.call = .call →
      Step.Accounts variants site w (Step.resolve variants site w)) ∧
    ∀ namespaces e w', Step.optimize namespaces variants w = .error e w' →
      ∃ before failing after changed, w.tree.callSites namespaces = before ++ failing :: after ∧
        Step.visitAll variants before w = .ok changed w' ∧
        w'.tree.AtOrBelow w'.tree.root failing.call ∧
        Step.resolve variants failing w' = .error e w' := by
  refine ⟨fun site hatt hkind => ?_, fun namespaces e w' hrun => ?_⟩
  · exact (Step.resolve_cases variants h hatt hkind).accounts (hatt.lt h.root_lt)
  · rw [Step.optimize_eq] at hrun
    exact Step.visitAll_error h (Step.calls_callSites h namespaces) hrun

/-! ### An example -/

/-- A file with a call that asks for the value of `debug`, and a selection by `debug` that has an entry for
`off` only. -/
def valueThenSelection : Tree where
  root := 0
  nodes := ⟨#[
    { kind := .file, children := [1, 8] },
    { kind := .call, children := [2, 6], parent := some 0 },
    { kind := .operand, children := [3], parent := some 1 },
    { kind := .dottedName, children := [4, 5], parent := some 2 },
    { kind := .identifier, parent := some 3,
      attributes := KeyMap.empty.insert Attr.name (.string "env") },
    { kind := .identifier, parent := some 3,
      attributes := KeyMap.empty.insert Attr.name (.string "get") },
    { kind := .params, children := [7], parent := some 1 },
    { kind := .constant, parent := some 6, attributes := ConstantType.string.attributes "debug" },
    { kind := .call, children := [9, 13], parent := some 0 },
    { kind := .operand, children := [10], parent := some 8 },
    { kind := .dottedName, children := [11, 12], parent := some 9 },
    { kind := .identifier, parent := some 10,
      attributes := KeyMap.empty.insert Attr.name (.string "env") },
    { kind := .identifier, parent := some 10,
      attributes := KeyMap.empty.insert Attr.name (.string "select") },
    { kind := .params, children := [14, 15], parent := some 8 },
    { kind := .constant, parent := some 13, attributes := ConstantType.string.attributes "debug" },
    { kind := .map, children := [16], parent := some 13 },
    { kind := .keyValue, children := [17], parent := some 15,
      attributes := KeyMap.empty.insert Attr.key (.string "off") },
    { kind := .value, children := [18], parent := some 16 },
    { kind := .constant, parent := some 17, attributes := ConstantType.string.attributes "quiet" }]⟩

theorem reports_match_outcomes_valueThenSelection :
    valueThenSelection.WellLinked ∧
    valueThenSelection.AtOrBelow valueThenSelection.root 1 ∧ valueThenSelection.kind 1 = .call ∧
    Step.Accounts debugOn ⟨1, .get, "env.get"⟩ ⟨valueThenSelection, {}⟩
      (Step.resolve debugOn ⟨1, .get, "env.get"⟩ ⟨valueThenSelection, {}⟩) ∧
    ∃ e w', Step.optimize ["env"] debugOn ⟨valueThenSelection, {}⟩ = .error e w' ∧
      ∃ before failing after changed,
        valueThenSelection.callSites ["env"] = before ++ failing :: after ∧
        Step.visitAll debugOn before ⟨valueThenSelection, {}⟩ = .ok changed w' ∧
        w'.tree.AtOrBelow w'.tree.root failing.call ∧
        Step.resolve debugOn failing w' = .error e w' := by
  have h : valueThenSelection.WellLinked := by decide
  have hatt : valueThenSelection.AtOrBelow valueThenSelection.root 1 :=
    (Tree.below_of_parent rfl).atOrBelow
  have hfails : ∃ e w', Step.optimize ["env"] debugOn ⟨valueThenSelection, {}⟩ = .error e w' := by
    have hno : ∀ b, Step.endsWith? b
        (Step.optimize ["env"] debugOn ⟨valueThenSelection, {}⟩) = none := by decide +kernel
    rcases hrun : Step.optimize ["env"] debugOn ⟨valueThenSelection, {}⟩ with ⟨b, w'⟩ | ⟨e, w'⟩
    · exact absurd ((hno b).symm.trans (Step.endsWith?_eq_some.2 hrun)) (by simp)
    · exact ⟨e, w', rfl⟩
  obtain ⟨hsteps, hruns⟩ :=
    reports_match_outcomes (w := ⟨valueThenSelection, {}⟩) h debugOn
  obtain ⟨e, w', hrun⟩ := hfails
  exact ⟨h, hatt, rfl, hsteps ⟨1, .get, "env.get"⟩ hatt rfl, e, w', hrun, hruns ["env"] e w' hrun⟩

end VariantFold
