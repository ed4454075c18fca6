/-
A call is built, pushed and found again.

The builder of a call takes the text of what is called apart at its dots, with an identifier for each part.
The search for calls puts the parts together again, all but the last, which has to name a method.  So the
call is found exactly if the text is a namespace, a dot and the name of a method (`spells_iff`), whatever
else is in the tree and in the arguments.

The nodes that are given as arguments may be any nodes but the root, and may be named several times: a node
goes below the call from wherever it is (`exists_pushed`).

The main result is `callSites_pushedCall`.
-/
import VariantFold.Proofs.Anatomy

namespace VariantFold

variable {namespaces : List String} {callee : String} {m : Method}

/-! ### What is called -/

lemma Method.name_of_ofName? {s : String} (h : Method.ofName? s = some m) : m.name = s := by
  simpa using List.find?_some h

/-- The parts of a text name a namespace and then a method exactly if the text does.  If there is but one
part, the namespace that is left is the empty text. -/
lemma spells_iff (hspaces : "" ∉ namespaces) :
    (∃ last, (Text.fields '.' callee).getLast? = some last ∧
      ".".intercalate (Text.fields '.' callee).dropLast ∈ namespaces ∧
        Method.ofName? last = some m) ↔
      ∃ space ∈ namespaces, callee = space ++ "." ++ m.name := by
  constructor
  · rintro ⟨last, hlast, hspace, hm⟩
    obtain ⟨front, hfields⟩ := List.getLast?_eq_some_iff.1 hlast
    rw [hfields, List.dropLast_concat] at hspace
    have hfront : front ≠ [] := by
      rintro rfl
      exact hspaces hspace
    refine ⟨".".intercalate front, hspace, ?_⟩
    calc callee = ".".intercalate (front ++ [last]) := by rw [← hfields, Text.intercalate_fields]
      _ = ".".intercalate front ++ "." ++ ".".intercalate [last] :=
          String.intercalate_append_of_ne_nil hfront (by simp)
      _ = ".".intercalate front ++ "." ++ m.name := by
          rw [String.intercalate_singleton, Method.name_of_ofName? hm]
  · rintro ⟨space, hspace, rfl⟩
    rw [Method.fields_callee, List.dropLast_concat, Text.intercalate_fields]
    exact ⟨m.name, List.getLast?_concat, hspace, m.ofName?_name⟩

namespace Tree

variable {t u : Tree} {args cs : List NodeId} {name operand params x y z : NodeId} {k : Kind}
  {site : CallSite}

lemma spelling?_eq_some_iff {parts : List String} {s : String} (hkind : t.kind x = .dottedName)
    (hparts : t.nameParts? x = some parts) : t.spelling? namespaces x = some (m, s) ↔
      (∃ last, parts.getLast? = some last ∧ ".".intercalate parts.dropLast ∈ namespaces ∧
        Method.ofName? last = some m) ∧ ".".intercalate parts = s := by
  rw [spelling?, if_pos hkind, hparts, Option.bind_eq_bind, Option.bind_some, Option.bind_eq_bind]
  rcases hlast : parts.getLast? with _ | last
  · simp
  · rw [Option.bind_some]
    by_cases hspace : ".".intercalate parts.dropLast ∈ namespaces
    · rcases hm : Method.ofName? last with _ | m' <;> simp [hspace, hm]
    · simp [hspace]

/-- Which call is found through the name that a call has, if any. -/
lemma IsCall.callSite?_eq_some_iff (c : t.IsCall x operand name params callee) (h : t.WellLinked)
    (hspaces : "" ∉ namespaces) : t.callSite? namespaces name = some site ↔
      site.call = x ∧ site.callee = callee ∧
        ∃ space ∈ namespaces, callee = space ++ "." ++ site.method.name := by
  have hspell : ∀ m s, t.spelling? namespaces name = some (m, s) ↔
      (∃ space ∈ namespaces, callee = space ++ "." ++ m.name) ∧ callee = s := by
    intro m s
    rw [spelling?_eq_some_iff c.kind_name c.parts_eq, spells_iff hspaces, Text.intercalate_fields]
  rw [callSite?_eq, c.callOf?_name h, Option.bind_eq_some_iff]
  constructor
  · rintro ⟨⟨m, s⟩, hs, hsite⟩
    obtain rfl := Option.some_injective _ hsite
    obtain ⟨hspace, rfl⟩ := (hspell m s).1 hs
    exact ⟨rfl, rfl, hspace⟩
  · rintro ⟨rfl, rfl, hspace⟩
    exact ⟨(site.method, site.callee), (hspell _ _).2 ⟨hspace, rfl⟩, rfl⟩

/-! ### A call in a tree -/

/-- Only one name leads to a call. -/
lemma IsCall.eq_name_of_callOf? (c : t.IsCall x operand name params callee) (h : t.WellLinked)
    (hy : t.callOf? y = some x) : y = name := by
  obtain ⟨o, hyo, hkind, hox, -⟩ := callOf?_some hy
  have ho : o ∈ [operand, params] := c.children_call ▸ h.mem_of_parent hox
  have hoperand : o = operand := by
    rcases List.mem_pair.1 ho with rfl | rfl
    · rfl
    · exact absurd (hkind.symm.trans c.kind_params) (by simp)
  have hmem : y ∈ [name] := by
    rw [← c.children_operand, ← hoperand]
    exact h.mem_of_parent hyo
  exact List.mem_singleton.1 hmem

/-- A list without repetition in which at most one element has an image. -/
lemma filterMap_eq_toList {α β : Type} {f : α → Option β} {l : List α} {a : α} (hnd : l.Nodup)
    (ha : a ∈ l) (hf : ∀ b, b ≠ a → f b = none) : l.filterMap f = (f a).toList := by
  obtain ⟨l₁, l₂, rfl⟩ := List.append_of_mem ha
  obtain ⟨-, hnd₂, hapart⟩ := List.nodup_append.1 hnd
  have h₁ : l₁.filterMap f = [] := List.filterMap_eq_nil_iff.2 fun b hb =>
    hf b (hapart b hb a List.mem_cons_self)
  have h₂ : l₂.filterMap f = [] := List.filterMap_eq_nil_iff.2 fun b hb =>
    hf b fun heq => (List.nodup_cons.1 hnd₂).1 (heq ▸ hb)
  rw [List.filterMap_append, List.filterMap_cons, h₁, h₂]
  rcases f a with _ | b <;> rfl

/-- The search finds a call of the tree once or not at all. -/
lemma IsCall.filter_callSites (c : t.IsCall x operand name params callee) (h : t.WellLinked)
    (hx : t.AtOrBelow t.root x) (namespaces : List String) :
    (t.callSites namespaces).filter (fun site => site.call = x) =
      (t.callSite? namespaces name).toList := by
  have hoperand : operand ∈ t.children x := by simp [c.children_call]
  have hcalled : name ∈ t.children operand := by simp [c.children_operand]
  have hname : name ∈ t.descendants t.root := h.mem_descendants.2 <|
    hx.trans ((h.below_child hoperand).trans_left (h.below_child hcalled).atOrBelow).atOrBelow
  have hself : (t.callSite? namespaces name).filter (fun site => site.call = x) =
      t.callSite? namespaces name := by
    rcases hsite : t.callSite? namespaces name with _ | site
    · rfl
    · simp [c.site_call h hsite]
  rw [callSites, List.filter_filterMap, filterMap_eq_toList (h.nodup_descendants _) hname, hself]
  intro y hy
  refine Option.filter_eq_none_iff.2 fun site hsite => ?_
  rw [decide_eq_true_iff]
  rintro rfl
  exact hy (c.eq_name_of_callOf? h (callSite?_some hsite).2)

/-- The names through which calls ask for variants, in pre-order. -/
def calleeNames (t : Tree) (namespaces : List String) : List NodeId :=
  (t.descendants t.root).filter fun x =>
    (t.spelling? namespaces x).isSome && (t.callOf? x).isSome

/-- Calls are found in the order of the names through which they ask. -/
lemma forall₂_callSites (t : Tree) (namespaces : List String) :
    List.Forall₂ (fun x (site : CallSite) => t.callOf? x = some site.call ∧
        t.spelling? namespaces x = some (site.method, site.callee))
      (t.calleeNames namespaces) (t.callSites namespaces) := by
  rw [calleeNames, callSites]
  induction t.descendants t.root with
  | nil => exact List.Forall₂.nil
  | cons x rest ih =>
    rw [List.filter_cons, List.filterMap_cons, callSite?_eq]
    rcases hspell : t.spelling? namespaces x with _ | ⟨m, s⟩
    · simpa using ih
    · rcases hcall : t.callOf? x with _ | call
      · simpa using ih
      · exact List.Forall₂.cons ⟨hcall, hspell⟩ ih

/-! ### Building and pushing a call -/

lemma run_bind {α β : Type} (b : Build α) (f : α → Build β) (t : Tree) :
    (b >>= f).run t = (f (b.run t).1).run (b.run t).2 := rfl

lemma run_node (k : Kind) (cs : List NodeId) (t : Tree) :
    (Build.node k cs).run t = t.createWith k cs := rfl

/-- The nodes of a call are made one after the other. -/
lemma call_run (callee : String) (args : List NodeId) (t : Tree) :
    (Build.call callee args).run t =
      let name := (Build.dottedName callee).run t
      let operand := name.2.createWith .operand [name.1]
      let params := operand.2.createWith .params args
      params.2.createWith .call [operand.1, params.1] := by
  rw [Build.call, run_bind, run_bind, run_bind, run_node, run_node, run_node]

/-- The operand of a call is made from nothing. -/
lemma WellLinked.parts_operand (h : t.WellLinked) (callee : String) :
    let name := (Build.dottedName callee).run t
    let operand := name.2.createWith .operand [name.1]
    t.Parts operand.2 [(operand.1, .node .operand KeyMap.empty [Shape.dottedName callee])] := by
  have hnone : t.Parts t ([] ++ []) := ⟨h, Grown.refl h, List.nodup_nil, by simp, by simp⟩
  obtain ⟨_, rfl, hname⟩ := Build.builds_dottedName callee t t [] hnone
  exact hname.node (l := [_]) .operand

/-- A new node that takes its children from elsewhere leaves a node without a parent as it is. -/
lemma CreatedWith.beside (hnew : t.CreatedWith k cs u) (h : t.WellLinked) (hz : z < t.size)
    (htop : t.parent? z = none) (hcs : ∀ c ∈ cs, ¬ t.AtOrBelow z c) :
    u.parent? z = none ∧ u.snapshot z = t.snapshot z := by
  constructor
  · rw [hnew.parent_eq, if_neg fun hmem => hcs z hmem (AtOrBelow.refl t z), htop]
  · refine (hnew.sameBelow h hz fun c hc hbelow => ?_).snapshot_eq h hnew.wellLinked
    exact hcs c hc hbelow.atOrBelow

/-- The last two nodes of a call: the arguments go below the parameters, the operand and the parameters
below the call. -/
lemma WellLinked.exists_call_on (h : t.WellLinked) (hx : x < t.size) (hne : x ≠ t.root)
    (htop : t.parent? x = none) (hargs : ∀ a ∈ args, a < t.size ∧ a ≠ t.root ∧ ¬ t.AtOrBelow x a) :
    ∃ call u ss, (t.createWith .params args).2.createWith .call [x, (t.createWith .params args).1] =
        (call, u) ∧ u.WellLinked ∧ t.size ≤ call ∧ call < u.size ∧ call ≠ u.root ∧
      u.snapshot call =
        .node .call KeyMap.empty [t.snapshot x, .node .params KeyMap.empty ss] := by
  have hparams := h.createWith_dedup .params fun a ha => ⟨(hargs a ha).1, (hargs a ha).2.1⟩
  change ∃ call u ss, (t.createWith .params args).2.createWith .call [x, t.size] = (call, u) ∧ _
  generalize (t.createWith .params args).2 = v at hparams
  have hargs' : ∀ a ∈ args.dedup, a < t.size ∧ ¬ t.AtOrBelow x a := by
    intro a ha
    obtain ⟨hlt, -, hnot⟩ := hargs a (List.mem_dedup.1 ha)
    exact ⟨hlt, hnot⟩
  obtain ⟨htop', hlook⟩ := hparams.beside h hx htop fun a ha => (hargs' a ha).2
  have hroot : v.root = t.root := hparams.root_eq
  have hparts : ∀ c ∈ [x, t.size], c < v.size ∧ c ≠ v.root ∧ v.parent? c = none := by
    intro c hc
    rw [hparams.size_eq, hroot]
    rcases List.mem_pair.1 hc with rfl | rfl
    · exact ⟨hx.trans (Nat.lt_succ_self _), hne, htop'⟩
    · exact ⟨Nat.lt_succ_self _, (Nat.ne_of_lt h.root_lt).symm,
        hparams.parent_new fun a ha => (hargs' a ha).1⟩
  obtain ⟨hid, hcall⟩ := hparams.wellLinked.createWith .call
    (fun c hc => ⟨(hparts c hc).1, (hparts c hc).2.1⟩) (by simpa using Nat.ne_of_lt hx)
  generalize v.createWith .call [x, t.size] = done at hid hcall
  refine ⟨done.1, done.2, (v.snapshot t.size).children, rfl, hcall.wellLinked, ?_⟩
  rw [hid, hcall.size_eq, hcall.root_eq]
  refine ⟨hparams.size_eq ▸ Nat.le_succ _, Nat.lt_succ_self _,
    (Nat.ne_of_lt hparams.wellLinked.root_lt).symm, ?_⟩
  rw [hcall.snapshot_new hparams.wellLinked fun c hc => ⟨(hparts c hc).1, (hparts c hc).2.2⟩,
    List.map_cons, List.map_singleton, hlook, hparams.wellLinked.snapshot_eq t.size, hparams.kind_new,
    hparams.attributes_new]
  rfl

/-- A call can be built from any nodes but the root. -/
lemma WellLinked.exists_call (h : t.WellLinked) (callee : String)
    (hargs : ∀ a ∈ args, a < t.size ∧ a ≠ t.root) :
    ∃ call u ss, (Build.call callee args).run t = (call, u) ∧ u.WellLinked ∧ t.size ≤ call ∧
      call < u.size ∧ call ≠ u.root ∧ u.snapshot call = Shape.call callee ss := by
  have hparts := h.parts_operand callee
  have hrun := call_run callee args t
  dsimp only at hparts hrun
  generalize (Build.dottedName callee).run t = named at hparts hrun
  generalize named.2.createWith .operand [named.1] = built at hparts hrun
  obtain ⟨operand, v⟩ := built
  have hgrown : t.Grown v := hparts.grown
  obtain ⟨hle, hlt, htop⟩ : t.size ≤ operand ∧ operand < v.size ∧ v.parent? operand = none :=
    hparts.added _ List.mem_cons_self
  have hlook : v.snapshot operand = _ := hparts.snapshot_eq _ List.mem_cons_self
  -- the root and the arguments are of the old tree, so they are not the operand or below it
  have hold : ∀ a < t.size, ¬ v.AtOrBelow operand a := by
    intro a ha hbelow
    exact not_lt.2 hle (h.atOrBelow_lt ((hgrown.atOrBelow_iff h ha).1 hbelow) ha)
  have hne : operand ≠ v.root := by
    rintro rfl
    exact hold _ (hgrown.root_eq ▸ h.root_lt) (AtOrBelow.refl v _)
  obtain ⟨call, u, ss, hmade, hu, hge, hcall⟩ := hgrown.wellLinked.exists_call_on hlt hne htop
    fun a ha => ⟨(hargs a ha).1.trans_le hgrown.size_le, hgrown.root_eq ▸ (hargs a ha).2,
      hold a (hargs a ha).1⟩
  rw [hlook] at hcall
  exact ⟨call, u, ss, hrun.trans hmade, hu, hgrown.size_le.trans hge, hcall⟩

/-- Any node but the root can be pushed to the end of the root. -/
lemma WellLinked.exists_pushed (h : t.WellLinked) (hx : x < t.size) (hne : x ≠ t.root) :
    ∃ u, t.pushStatements [x] = (none, u) ∧ u.WellLinked ∧ u.parent? x = some u.root ∧
      u.snapshot x = t.snapshot x := by
  have hnot : ¬ t.AtOrBelow x t.root := by rwa [h.atOrBelow_root]
  have hwl := h.attach h.root_lt hx hne hnot
  refine ⟨t.attach t.root x, h.pushStatements_eq (by simpa using ⟨hx, hne⟩), hwl, ?_, ?_⟩
  · rw [parent?_attach hx, if_pos rfl, (sameNodes_attach t t.root x).root_eq]
  · exact (h.sameBelow_attach h.root_lt h.not_below_self hnot).snapshot_eq h hwl

/-- A call that is built and pushed to the end of the root, from any nodes but the root: it is found exactly
if the text of what it calls is a namespace, a dot and the name of a method, and it is then found once, with
that text and that method.  All calls are found in the order of the names through which they ask. -/
theorem callSites_pushedCall (h : t.WellLinked) (hspaces : "" ∉ namespaces) (callee : String)
    (hargs : ∀ a ∈ args, a < t.size ∧ a ≠ t.root) :
    ∃ call built u, (Build.call callee args).run t = (call, built) ∧
      built.pushStatements [call] = (none, u) ∧ u.WellLinked ∧
      t.size ≤ call ∧ u.parent? call = some u.root ∧
      ((∃ site ∈ u.callSites namespaces, site.call = call) ↔
        ∃ space ∈ namespaces, ∃ m : Method, callee = space ++ "." ++ m.name) ∧
      (∀ space ∈ namespaces, ∀ m : Method, callee = space ++ "." ++ m.name →
        (u.callSites namespaces).filter (fun site => site.call = call) = [⟨call, m, callee⟩]) ∧
      List.Forall₂ (fun x (site : CallSite) => u.callOf? x = some site.call ∧
          u.spelling? namespaces x = some (site.method, site.callee))
        (u.calleeNames namespaces) (u.callSites namespaces) := by
  obtain ⟨call, built, ss, hrun, hbuilt, hle, hlt, hne, hsnap⟩ := h.exists_call callee hargs
  obtain ⟨u, hpush, hu, hparent, hsame⟩ := hbuilt.exists_pushed hlt hne
  obtain ⟨operand, name, params, c, -⟩ := hu.isCall (hsame.trans hsnap)
  have hfilter := c.filter_callSites hu (below_of_parent hparent).atOrBelow namespaces
  refine ⟨call, built, u, hrun, hpush, hu, hle, hparent, ?_, ?_, u.forall₂_callSites namespaces⟩
  · have hfound : (∃ site ∈ u.callSites namespaces, site.call = call) ↔
        ∃ site, u.callSite? namespaces name = some site := by
      simp only [← Option.mem_toList, ← hfilter, List.mem_filter, decide_eq_true_iff]
    rw [hfound]
    constructor
    · rintro ⟨site, hsite⟩
      obtain ⟨-, -, space, hspace, heq⟩ := (c.callSite?_eq_some_iff hu hspaces).1 hsite
      exact ⟨space, hspace, site.method, heq⟩
    · rintro ⟨space, hspace, m, heq⟩
      exact ⟨⟨call, m, callee⟩,
        (c.callSite?_eq_some_iff hu hspaces).2 ⟨rfl, rfl, space, hspace, heq⟩⟩
  · intro space hspace m heq
    have hsite : u.callSite? namespaces name = some ⟨call, m, callee⟩ :=
      (c.callSite?_eq_some_iff hu hspaces).2 ⟨rfl, rfl, space, hspace, heq⟩
    rw [hfilter, hsite]
    rfl

/-- A call that has been cut out is the argument of another, and is named twice.  Of the two namespaces
one starts with the other. -/
theorem callSites_pushedCall_nested :
    (ifOnVariant.detached 2).WellLinked ∧ "" ∉ ["env", "env.get"] ∧
    (∀ a ∈ [2, 2], a < (ifOnVariant.detached 2).size ∧ a ≠ (ifOnVariant.detached 2).root) ∧
    ∃ call built u, (Build.call "env.get.isSet" [2, 2]).run (ifOnVariant.detached 2) = (call, built) ∧
      built.pushStatements [call] = (none, u) ∧
      (u.callSites ["env", "env.get"]).filter (fun site => site.call = call) =
        [⟨call, .isSet, "env.get.isSet"⟩] := by
  have h : (ifOnVariant.detached 2).WellLinked := by decide
  have hspaces : "" ∉ ["env", "env.get"] := by decide
  have hargs : ∀ a ∈ [2, 2],
      a < (ifOnVariant.detached 2).size ∧ a ≠ (ifOnVariant.detached 2).root := by decide
  obtain ⟨call, built, u, hrun, hpush, -, -, -, -, honce, -⟩ :=
    callSites_pushedCall h hspaces "env.get.isSet" hargs
  exact ⟨h, hspaces, hargs, call, built, u, hrun, hpush,
    honce "env.get" (by decide) .isSet (by decide)⟩

end Tree

end VariantFold
