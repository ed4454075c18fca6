/-
What a run makes of calls.

A call that does not ask for a variant in a way that can be answered is left alone, and the run goes on
below its arguments (`Simulates.call`).  A selection whose variant is configured gives way to the entry
that is picked, and the run goes on there; what is below the other entries is passed over
(`Simulates.select`).  If the variant is not configured, the run goes on below all entries
(`Simulates.select_unset`).
-/
import VariantFold.Proofs.Anatomy

namespace VariantFold

open Step

variable {namespaces : List String} {variants : Variants} {callee key : String}
  {ss : List Snapshot} {r : Except Unmatched (List Snapshot)} {α : Type}

/-! ### Rows -/

lemma map_inOrder_cons {ε β : Type} (f : α → β) (r : Except ε α) (rs : List (Except ε α)) :
    (inOrder (r :: rs)).map (List.map f) = do
      return (← r.map fun a => [f a]) ++ (← (inOrder rs).map (List.map f)) := by
  rw [inOrder]
  rcases r with e | a
  · rfl
  · rcases inOrder rs with e | as <;> rfl

/-- A row of which every member is known. -/
lemma Simulates.row {shape : α → Snapshot} {eval : α → Except Unmatched α} {as : List α}
    (hclosed : ∀ a, (shape a).kind.isClosed = true)
    (h : ∀ a ∈ as, Simulates namespaces variants [shape a]
      ((eval a).map fun a' => [shape a'])) :
    Simulates namespaces variants (as.map shape) ((inOrder (as.map eval)).map (List.map shape)) := by
  induction as with
  | nil => exact Simulates.nil
  | cons a as ih =>
    have hrest := ih fun a' ha' => h a' (List.mem_cons_of_mem a ha')
    rw [List.map_cons, List.map_cons, map_inOrder_cons]
    refine (h a List.mem_cons_self).append hrest fun s hs => ?_
    obtain ⟨a', -, rfl⟩ := List.mem_map.1 hs
    exact hclosed a'

/-- What is left of the parts, put together again. -/
lemma Simulates.put_together {β γ : Type} {r : Except Unmatched α} {parts : α → β}
    {g : β → List Snapshot} {f : α → γ} {shape : γ → Snapshot}
    (h : Simulates namespaces variants ss ((r.map parts).map g))
    (hg : ∀ a, [shape (f a)] = g (parts a)) :
    Simulates namespaces variants ss ((do return f (← r)).map fun c => [shape c]) := by
  rcases r with e | a
  · exact h
  · change Simulates namespaces variants ss (.ok [shape (f a)])
    rw [hg]
    exact h

lemma Simulates.literal (value : Scalar) :
    Simulates namespaces variants [Shape.literal value] (.ok [Shape.literal value]) :=
  Simulates.nil.node (by simp)

/-! ### Calls that are left alone -/

/-- The call is left alone by a step, whatever it asks for. -/
def LeftAlone (namespaces : List String) (variants : Variants) (callee : String)
    (ss : List Snapshot) : Prop :=
  ∀ {w : Workspace} {x operand name params : NodeId} {site : CallSite}, w.tree.WellLinked →
    w.tree.IsCall x operand name params callee → (w.tree.children params).map w.tree.snapshot = ss →
    w.tree.callSite? namespaces name = some site →
    ∃ w', resolve variants site w = .ok false w' ∧ Left site w w'

lemma Method.arity_ne_zero (m : Method) : m.arity ≠ 0 := by
  cases m <;> decide

lemma Step.Left.tree_eq {site : CallSite} {w w' : Workspace} (h : Left site w w') :
    w'.tree = w.tree ∧ w'.log.file = w.log.file := by
  rcases h with rfl | ⟨m, rfl⟩
  · exact ⟨rfl, rfl⟩
  · exact ⟨rfl, rfl⟩

/-- A call that is left alone, and its arguments. -/
lemma Simulates.call (hleft : LeftAlone namespaces variants callee ss)
    (hrow : Simulates namespaces variants ss r) :
    Simulates namespaces variants [Shape.call callee ss]
      (r.map fun ss' => [Shape.call callee ss']) := by
  intro w p pre xs post h hp hchildren hxs
  obtain ⟨x, rfl, hx⟩ := List.map_eq_singleton_iff.1 hxs
  obtain ⟨operand, name, params, c, hargs⟩ := h.isCall hx
  have hmem : x ∈ w.tree.children p := by simp [hchildren]
  have hatt := hp.trans (h.below_child hmem).atOrBelow
  -- the run below the arguments, from any workspace with this tree
  have hrest : ∀ w₁ : Workspace, w₁.tree = w.tree →
      ComesTo variants ((w.tree.children params).flatMap (w.tree.sitesBelow namespaces)) w₁
        (r.map fun ss' => [Shape.call callee ss']) fun w' ss' =>
          ∃ xs', w.tree.LocalChange p pre [x] post w'.tree xs' ∧
            xs'.map w'.tree.snapshot = ss' := by
    intro w₁ htree
    rw [← htree] at h hchildren hx c hargs hatt ⊢
    have hattp := hatt.trans (h.below_child c.mem_params).atOrBelow
    refine (hrow w₁ params [] _ [] h hattp (by simp) hargs).map _ ?_
    rintro w' ss' ⟨xs', l, hxs'⟩
    have l₁ : w₁.tree.LocalChange x [operand] [params] [] w'.tree [params] :=
      l.up c.children_call (Tree.AtOrBelow.refl _ params)
    refine ⟨[x], l₁.up hchildren (Tree.AtOrBelow.refl _ x), ?_⟩
    obtain ⟨-, hattributes, hbelow⟩ := h.snapshot_iff.1 hx
    rw [c.children_call] at hbelow
    obtain ⟨hoperand, hparams⟩ := List.cons.inj hbelow
    obtain ⟨-, hattributesp, -⟩ := h.snapshot_iff.1 (List.cons.inj hparams).1
    have hparams' : w'.tree.snapshot params = .node .params KeyMap.empty ss' := by
      rw [l.snapshot_eq, c.kind_params, hattributesp, hxs']
      simp
    simp [l₁.snapshot_eq, c.kind_call, hattributes, hoperand, hparams', Shape.call]
  rw [List.flatMap_singleton, c.sitesBelow_eq h]
  rcases hsite : w.tree.callSite? namespaces name with _ | site
  · exact hrest w rfl
  · obtain ⟨w₁, hrun, hl⟩ := hleft h c hargs hsite
    have hvisit : visit variants site w = .ok false w₁ := by
      rw [visit_attached h (by rwa [c.site_call h hsite]), hrun]
    exact ComesTo.cons hvisit hl.tree_eq.2 (hrest w₁ hl.tree_eq.1)

/-- A call whose arguments are calls cannot be answered. -/
lemma LeftAlone.of_calls (hss : ∀ s ∈ ss, s.kind = .call) :
    LeftAlone namespaces variants callee ss := by
  intro w x operand name params site h c hargs hsite
  have hkind : ∀ a ∈ w.tree.children params, w.tree.kind a = .call := fun a ha => by
    rw [← h.kind_snapshot]
    exact hss _ (hargs ▸ List.mem_map_of_mem ha)
  have hkey : ∀ a ∈ (w.tree.callArgs site.call).head?, (w.tree.node a).isStringLiteral = false := by
    intro a ha
    rw [c.site_call h hsite, c.callArgs_eq fun a ha => by rw [hkind a ha]; rfl] at ha
    refine Bool.eq_false_iff.2 fun hlit => ?_
    have hcall := hkind a (List.mem_of_head? ha)
    rw [Tree.kind_of_isStringLiteral hlit] at hcall
    exact absurd hcall (by simp)
  obtain ⟨m, hm⟩ := Tree.keyArguments_eq_error site.method.arity_ne_zero hkey
  exact ⟨_, resolve_malformed hm, Or.inr ⟨m, rfl⟩⟩

/-- A call whose variant is not configured is left alone. -/
lemma LeftAlone.of_unset {space : Space namespaces} {m : Method} (hv : variants.lookup key = none)
    (harity : m.arity = ss.length + 1) (hplain : ∀ s ∈ ss, s.kind.isComment = false) :
    LeftAlone namespaces variants (space.callee m) (Shape.literal (.string key) :: ss) := by
  intro w x operand name params site h c hargs hsite
  rw [c.callSite?_callee h] at hsite
  obtain rfl := Option.some_injective _ hsite
  obtain ⟨keyArg, rest, hparams, hkeyArg, hrest⟩ := List.map_eq_cons_iff.1 hargs
  have hkeyArgs := c.keyArguments_eq h hparams hkeyArg fun a ha => by
    rw [← h.kind_snapshot]
    exact hplain _ (hrest ▸ List.mem_map_of_mem ha)
  rw [← hrest, List.length_map] at harity
  rw [← harity] at hkeyArgs
  exact ⟨w, resolve_unset hkeyArgs hv, Or.inl rfl⟩

/-! ### Selections -/

namespace Tree

variable {t : Tree} {b x map name operand params keyArg : NodeId} {es : List (String × Snapshot)}

/-- The node `x` is a selection by a key from the entries of `map`. -/
structure IsSelection (t : Tree) (namespaces : List String) (callee : String) (x map : NodeId)
    (key : String) (es : List (String × Snapshot)) : Prop where
  kind_call : t.kind x = .call
  line_eq : (t.node x).line? = none
  arguments : ∃ keyArg, t.keyArguments x 2 = .ok (key, [keyArg, map])
  kind_map : t.kind map = .map
  map_below : t.AtOrBelow x map
  entries_eq : (t.children map).map t.snapshot = es.map Shape.entry
  /-- It asks for a variant itself; all other calls are in the entries. -/
  sites_eq : t.sitesBelow namespaces x =
    ⟨x, .select, callee⟩ :: (t.children map).flatMap (t.sitesBelow namespaces)

/-- A node that looks like a selection is one. -/
lemma WellLinked.isSelection (h : t.WellLinked) {space : Space namespaces}
    (hx : t.snapshot x = Shape.call (space.callee .select)
      [Shape.literal (.string key), Shape.map es]) :
    ∃ map, t.IsSelection namespaces (space.callee .select) x map key es := by
  obtain ⟨operand, name, params, c, hargs⟩ := h.isCall hx
  obtain ⟨keyArg, rest, hparams, hkey, hrest⟩ := List.map_eq_cons_iff.1 hargs
  obtain ⟨map, rfl, hmap⟩ := List.map_eq_singleton_iff.1 hrest
  obtain ⟨hkmap, -, hentries⟩ := h.snapshot_iff.1 hmap
  obtain ⟨hkkey, hnokey, -⟩ := h.stringLiteral hkey
  have hmem : map ∈ t.children params := by simp [hparams]
  refine ⟨map, c.kind_call, c.line_eq, ⟨keyArg, ?_⟩, hkmap, ?_, hentries, ?_⟩
  · exact c.keyArguments_eq h hparams hkey fun a ha => by
      rw [List.mem_singleton.1 ha, hkmap]
      rfl
  · exact (h.below_child c.mem_params).atOrBelow.trans
      (h.below_child hmem).atOrBelow
  · rw [c.sitesBelow_eq h, c.callSite?_callee h, hparams, List.flatMap_cons,
      h.sitesBelow_leaf (by simp [hkkey]) hnokey, List.flatMap_singleton,
      h.sitesBelow_of_kind (x := map) (by simp [hkmap])]
    rfl

/-- The entry that a selection picks, and the row of entries it is in: the value that is chosen is in
that entry, and what is below it is the same. -/
lemma WellLinked.chosen_entry (h : t.WellLinked) {nodes : List NodeId}
    (hnodes : nodes.map t.snapshot = es.map Shape.entry)
    (hplain : ∀ e ∈ es, e.2.kind.isComment = false) {value : Scalar}
    (hb : Branch.choose (nodes.filterMap t.branch?) value = some b) :
    ∃ l₁ entry l₂, nodes = l₁ ++ entry :: l₂ ∧ t.Below entry b ∧
      ∀ namespaces, t.sitesBelow namespaces entry = t.sitesBelow namespaces b := by
  obtain ⟨branch, hbranch, rfl⟩ := Branch.choose_mem hb
  obtain ⟨entry, hentry, hsome⟩ := List.mem_filterMap.1 hbranch
  obtain ⟨l₁, l₂, rfl⟩ := List.append_of_mem hentry
  obtain ⟨e, he, heq⟩ := List.mem_map.1 (hnodes ▸ List.mem_map_of_mem hentry)
  obtain ⟨value, hvalue, -, hbelow, hsites⟩ := h.branch?_eq heq.symm (hplain e he)
  rw [hsome] at hvalue
  obtain rfl := Option.some_injective _ hvalue
  exact ⟨l₁, entry, l₂, rfl, hbelow, hsites⟩

/-- What is chosen looks like what is picked. -/
lemma WellLinked.map_choose (h : t.WellLinked) {nodes : List NodeId}
    (hnodes : nodes.map t.snapshot = es.map Shape.entry)
    (hplain : ∀ e ∈ es, e.2.kind.isComment = false) (value : Scalar) :
    (Branch.choose (nodes.filterMap t.branch?) value).map t.snapshot = pick value.text es := by
  rw [Branch.choose_eq_pick, ← pick_map, List.map_map]
  exact congrArg (pick value.text) (h.filterMap_branch? hnodes hplain)

end Tree

section Selection

variable {space : Space namespaces} {shape : α → Snapshot} {eval : α → Except Unmatched α}
  {entries : List (String × α)}

/-- A selection whose variant is not configured stays, and the run goes on below all its entries. -/
lemma Simulates.select_unset (hv : variants.lookup key = none)
    (h : ∀ e ∈ entries, Simulates namespaces variants [shape e.2]
      ((eval e.2).map fun a => [shape a])) :
    Simulates namespaces variants
      [Shape.call (space.callee .select)
        [Shape.literal (.string key), Shape.map (entries.map fun e => (e.1, shape e.2))]]
      (((inOrder (entries.map fun e => do return (e.1, ← eval e.2))).map
        (List.map fun e => (e.1, shape e.2))).map fun es =>
          [Shape.call (space.callee .select) [Shape.literal (.string key), Shape.map es]]) := by
  let evalEntry : String × α → Except Unmatched (String × α) := fun e => do return (e.1, ← eval e.2)
  have hentry : ∀ e ∈ entries, Simulates namespaces variants [Shape.entry (e.1, shape e.2)]
      ((evalEntry e).map fun e' => [Shape.entry (e'.1, shape e'.2)]) := by
    intro e he
    have hnode : Simulates namespaces variants [Shape.entry (e.1, shape e.2)] _ :=
      ((h e he).node (by simp)).node (by simp)
    rcases hr : eval e.2 with _ | a <;> simp only [evalEntry, hr] at hnode ⊢ <;> exact hnode
  have hmap : Simulates namespaces variants [.node .map KeyMap.empty _] _ :=
    (Simulates.row (fun _ => rfl) hentry).node (by simp)
  have hargs := (Simulates.literal (.string key)).append hmap (List.forall_mem_singleton.2 rfl)
  have hleft : LeftAlone namespaces variants (space.callee .select)
      [Shape.literal (.string key), .node .map KeyMap.empty
        (entries.map fun e => Shape.entry (e.1, shape e.2))] :=
    LeftAlone.of_unset hv rfl (List.forall_mem_singleton.2 rfl)
  have hcall := Simulates.call hleft hargs
  change Simulates namespaces variants _ (((inOrder (entries.map evalEntry)).map _).map _)
  simp only [Shape.map, List.map_map, Function.comp_def]
  generalize inOrder (entries.map evalEntry) = r at hcall ⊢
  rcases r with _ | es
  · exact hcall
  · simp only [Except.map, List.map_map, Function.comp_def] at hcall ⊢
    exact hcall

/-- A selection whose variant is configured gives way to the entry that is picked. -/
lemma Simulates.select {value : Scalar} (hv : variants.lookup key = some value)
    (hkind : ∀ a, (shape a).kind = .call)
    (h : ∀ e ∈ entries, Simulates namespaces variants [shape e.2]
      ((eval e.2).map fun a => [shape a])) :
    Simulates namespaces variants
      [Shape.call (space.callee .select)
        [Shape.literal (.string key), Shape.map (entries.map fun e => (e.1, shape e.2))]]
      (((pick value.text (entries.map fun e => (e.1, eval e.2))).getD
        (.error ⟨key, value.text⟩)).map fun a => [shape a]) := by
  intro w p pre xs post hwl hp hchildren hxs
  obtain ⟨x, rfl, hx⟩ := List.map_eq_singleton_iff.1 hxs
  obtain ⟨map, s⟩ := hwl.isSelection hx
  obtain ⟨keyArg, hargs⟩ := s.arguments
  have hmem : x ∈ w.tree.children p := by simp [hchildren]
  have hatt := hp.trans (hwl.below_child hmem).atOrBelow
  have hplain : ∀ e ∈ entries.map fun e => (e.1, shape e.2), e.2.kind.isComment = false := by
    intro e he
    obtain ⟨e, -, rfl⟩ := List.mem_map.1 he
    rw [hkind]
    rfl
  have hchoose := hwl.map_choose s.entries_eq hplain value
  have hbranches : w.tree.branches (Tree.secondArg [keyArg, map]) =
    .ok ((w.tree.children map).filterMap w.tree.branch?) := if_pos s.kind_map
  rw [pick_map] at hchoose
  rw [List.flatMap_singleton, s.sites_eq, pick_map]
  rcases hpick : pick value.text entries with _ | a
  · rw [hpick, Option.map_none, Option.map_eq_none_iff] at hchoose
    refine ComesTo.cons_error ?_
    rw [visit_attached hwl hatt]
    refine (select_noMatch hargs hv hbranches hchoose).trans ?_
    rw [Log.location, s.line_eq]
    rfl
  · rw [hpick, Option.map_some, Option.map_eq_some_iff] at hchoose
    obtain ⟨b, hb, hsnap⟩ := hchoose
    obtain ⟨e, he, rfl⟩ := pick_mem hpick
    have hreason := Tree.Reason.entry s.kind_call rfl (hwl.isEntryValue hargs hbranches hb)
    obtain ⟨t', hok, g⟩ := hreason.graft hwl hatt
    refine ComesTo.cons ((visit_attached hwl hatt).trans
      (select_chosen hargs hv hbranches hb hok)) rfl ?_
    generalize hw₁ : Workspace.mk t' _ = w₁
    obtain rfl : w₁.tree = t' := by rw [← hw₁]
    obtain ⟨l₁, entry, l₂, hnodes, hbelow, hsites⟩ := hwl.chosen_entry s.entries_eq hplain hb
    rw [hnodes]
    refine Simulates.after_choice (hsnap ▸ h e he) g hchildren s.map_below
      (hnodes.trans (List.nil_append _).symm) hbelow (hsites namespaces) ?_ fun z hz => ?_
    · rw [← hwl.kind_snapshot, hsnap, hkind]
      rfl
    · obtain ⟨e', -, heq⟩ := List.mem_map.1 (s.entries_eq ▸ List.mem_map_of_mem (hnodes ▸ hz))
      rw [(hwl.snapshot_iff.1 heq.symm).1]
      rfl

end Selection

end VariantFold
