/-
Look-ups find their nodes.

Where every link of a tree leads to a node (`Tree.Closed`), whatever is looked up on the way from one
node to another is there, so a query that checks its look-ups answers what the plain query answers.  The
moves of nodes keep a tree closed.
-/
import VariantFold.Proofs.Checked

namespace VariantFold

/-! ### Lists of answers -/

section Lists

variable {ε α β σ : Type} {l : List α}

lemma except_bind (a : α) (f : α → Except ε β) : (Except.ok a >>= f) = f a := rfl

lemma mapM_ok {f : α → Except ε β} {g : α → β} (h : ∀ a ∈ l, f a = .ok (g a)) :
    l.mapM f = .ok (l.map g) := by
  induction l with
  | nil => rfl
  | cons a l ih =>
    rw [List.mapM_cons, h a List.mem_cons_self, ih fun b hb => h b (List.mem_cons_of_mem a hb)]
    rfl

/-- A loop that keeps an invariant under which each round answers. -/
lemma foldlM_ok {f : σ → α → Except ε σ} {g : σ → α → σ} (inv : σ → Prop)
    (h : ∀ s, inv s → ∀ a ∈ l, f s a = .ok (g s a) ∧ inv (g s a)) {s : σ} (hs : inv s) :
    l.foldlM f s = .ok (l.foldl g s) ∧ inv (l.foldl g s) := by
  induction l generalizing s with
  | nil => exact ⟨rfl, hs⟩
  | cons a l ih =>
    obtain ⟨hok, hinv⟩ := h s hs a List.mem_cons_self
    rw [List.foldlM_cons, hok, except_bind, List.foldl_cons]
    exact ih (fun s hs b hb => h s hs b (List.mem_cons_of_mem a hb)) hinv

end Lists

namespace Tree

variable {t t' : Tree} {c d id n old p x : NodeId} {new : List NodeId}

/-! ### Closed trees -/

/-- Every link leads to a node. -/
structure Closed (t : Tree) : Prop where
  root_lt : t.root < t.size
  child_lt : ∀ {x c}, c ∈ t.children x → c < t.size
  parent_lt : ∀ {x p}, t.parent? x = some p → p < t.size

lemma WellLinked.closed (h : t.WellLinked) : t.Closed :=
  ⟨h.root_lt, fun hc => h.child_lt hc, fun hp => h.parent_lt hp⟩

namespace Closed

lemma setParent (h : t.Closed) (hc : c < t.size) {o : Option NodeId} (ho : ∀ p ∈ o, p < t.size) :
    (t.setParent c o).Closed where
  root_lt := by simpa using h.root_lt
  child_lt hd := by
    rw [children_setParent] at hd
    simpa using h.child_lt hd
  parent_lt {x p} hp := by
    rw [parent?_setParent hc] at hp
    rw [size_setParent]
    split at hp
    · exact ho p hp
    · exact h.parent_lt hp

lemma modifyChildren (h : t.Closed) (hp : p < t.size) {f : List NodeId → List NodeId}
    (hf : ∀ c ∈ f (t.children p), c < t.size) : (t.modifyChildren p f).Closed where
  root_lt := by simpa using h.root_lt
  child_lt {x c} hc := by
    rw [children_modifyChildren hp] at hc
    rw [size_modifyChildren]
    split at hc
    · exact hf c hc
    · exact h.child_lt hc
  parent_lt hp := by
    rw [parent?_modifyChildren] at hp
    simpa using h.parent_lt hp

lemma set (h : t.Closed) (n : NodeId) (name : String) (value : Scalar) :
    (t.set n name value).Closed where
  root_lt := by simpa using h.root_lt
  child_lt hc := by
    rw [children_set] at hc
    simpa using h.child_lt hc
  parent_lt hp := by
    rw [parent?_set] at hp
    simpa using h.parent_lt hp

lemma create (h : t.Closed) (k : Kind) : (t.create k).2.Closed where
  root_lt := by
    rw [root_create, size_create]
    exact Nat.lt_succ_of_lt h.root_lt
  child_lt {x c} hc := by
    rw [children, node_create] at hc
    rw [size_create]
    split at hc
    · exact absurd hc List.not_mem_nil
    · exact Nat.lt_succ_of_lt (h.child_lt hc)
  parent_lt {x p} hp := by
    rw [parent?, node_create] at hp
    rw [size_create]
    split at hp
    · exact absurd hp (by simp)
    · exact Nat.lt_succ_of_lt (h.parent_lt hp)

lemma withRoot (h : t.Closed) (hn : n < t.size) : ({ t with root := n } : Tree).Closed :=
  ⟨hn, h.child_lt, h.parent_lt⟩

end Closed

end Tree

namespace Checked

variable {t t' : Tree} {a c d id loop n old operation p x : NodeId} {ids new : List NodeId}

/-! ### Single nodes -/

lemma node_eq (hx : x < t.size) : node t x = .ok (t.node x) := by
  have hget : t.nodes.get? x = some (t.node x) := by
    rw [Tree.node, Store.get?, Array.getElem?_eq_getElem hx]
    rfl
  rw [node, hget]

lemma kind_eq (hx : x < t.size) : kind t x = .ok (t.kind x) := by
  rw [kind, node_eq hx]
  rfl

lemma parent?_eq (hx : x < t.size) : parent? t x = .ok (t.parent? x) := by
  rw [parent?, node_eq hx]
  rfl

lemma children_eq (hx : x < t.size) : children t x = .ok (t.children x) := by
  rw [children, node_eq hx]
  rfl

lemma nodes_eq (h : ∀ x ∈ ids, x < t.size) :
    nodes t ids = .ok (ids.map fun x => (x, t.node x)) := by
  refine mapM_ok fun x hx => ?_
  rw [node_eq (h x hx)]
  rfl

/-- Choosing among nodes with their names is choosing among names. -/
lemma filter_nodes (f : Node → Bool) :
    ((ids.map fun x => (x, t.node x)).filter fun x => f x.2).map Prod.fst =
      ids.filter fun x => f (t.node x) := by
  rw [List.filter_map, List.map_map]
  exact List.map_id _

lemma find_nodes (f : Node → Bool) :
    ((ids.map fun x => (x, t.node x)).find? fun x => f x.2).map Prod.fst =
      ids.find? fun x => f (t.node x) := by
  rw [List.find?_map, Option.map_map]
  exact congrFun Option.map_id _

section Queries

variable (h : t.Closed)
include h

lemma contents_eq (hx : x < t.size) : contents t x = .ok (t.contents x) := by
  rw [contents, children_eq hx, except_bind, nodes_eq fun c hc => h.child_lt hc, except_bind,
    filter_nodes fun n => !n.kind.isComment]
  rfl

lemma childOfKind?_eq (hx : x < t.size) (k : Kind) :
    childOfKind? t x k = .ok (t.childOfKind? x k) := by
  rw [childOfKind?, children_eq hx, except_bind, nodes_eq fun c hc => h.child_lt hc, except_bind,
    find_nodes fun n => decide (n.kind = k)]
  rfl

lemma childOfKind?_lt {k : Kind} (hc : t.childOfKind? x k = some c) : c < t.size :=
  h.child_lt (Tree.childOfKind?_some hc).1

lemma contents_lt (hc : c ∈ t.contents x) : c < t.size := h.child_lt (Tree.mem_contents.1 hc).1

/-! ### Up the tree and down -/

lemma chain_lt {limit : Nat} {o : Option NodeId} (ho : ∀ p ∈ o, p < t.size) :
    ∀ a ∈ t.chain limit o, a < t.size := by
  induction limit generalizing o with
  | zero => simp [Tree.chain]
  | succ limit ih =>
    cases o with
    | none => simp [Tree.chain]
    | some p =>
      intro a ha
      rcases List.mem_cons.1 ha with rfl | ha
      · exact ho _ rfl
      · exact ih (fun q hq => h.parent_lt hq) a ha

lemma ancestors_lt (ha : a ∈ t.ancestors x) : a < t.size :=
  chain_lt h (fun _ hq => h.parent_lt hq) a ha

lemma chain_eq {limit : Nat} {o : Option NodeId} (ho : ∀ p ∈ o, p < t.size) :
    chain t limit o = .ok (t.chain limit o) := by
  induction limit generalizing o with
  | zero => rfl
  | succ limit ih =>
    cases o with
    | none => rfl
    | some p =>
      rw [chain, parent?_eq (ho p rfl), except_bind, ih fun q hq => h.parent_lt hq]
      rfl

lemma ancestors_eq (hx : x < t.size) : ancestors t x = .ok (t.ancestors x) := by
  rw [ancestors, parent?_eq hx, except_bind, chain_eq h fun q hq => h.parent_lt hq]
  rfl

lemma isAncestorOrSelf_eq (hx : x < t.size) :
    isAncestorOrSelf t a x = .ok (t.isAncestorOrSelf a x) := by
  rw [isAncestorOrSelf, ancestors_eq h hx]
  rfl

lemma isAttached_eq (hx : x < t.size) : isAttached t x = .ok (t.isAttached x) := by
  rw [isAttached, ancestors_eq h hx]
  rfl

lemma nearestNonGroup_eq (hx : x < t.size) :
    nearestNonGroup t x = .ok (t.nearestNonGroup x none) := by
  rw [nearestNonGroup, ancestors_eq h hx, except_bind, nodes_eq fun a ha => ancestors_lt h ha,
    except_bind, find_nodes fun n => decide (n.kind ≠ .group), Tree.nearestNonGroup]
  have hsame : ((t.ancestors x).find? fun a =>
      decide (some a = none) || decide (t.kind a ≠ .group)) =
      (t.ancestors x).find? fun a => decide ((t.node a).kind ≠ .group) := by
    congr 1
  rw [hsame]
  cases (t.ancestors x).find? fun a => decide ((t.node a).kind ≠ .group) <;> rfl

lemma nearestNonGroup_lt (hp : t.nearestNonGroup x none = some p) : p < t.size := by
  rw [Tree.nearestNonGroup] at hp
  split at hp
  · rename_i a ha
    rw [← Option.some.inj hp]
    exact ancestors_lt h (List.mem_of_find?_eq_some ha)
  · exact absurd hp (by simp)

lemma unwrap_eq {limit : Nat} (hx : x < t.size) :
    unwrap t limit x = .ok (t.unwrap limit x) ∧ t.unwrap limit x < t.size := by
  induction limit generalizing x with
  | zero => exact ⟨rfl, hx⟩
  | succ limit ih =>
    rw [unwrap, Tree.unwrap, kind_eq hx, except_bind]
    by_cases hk : t.kind x = .group
    · rw [if_pos hk, if_pos hk, contents_eq h hx, except_bind]
      rcases hcs : t.contents x with _ | ⟨c, _ | ⟨d, rest⟩⟩
      · exact ⟨rfl, hx⟩
      · exact ih (contents_lt h (x := x) (hcs ▸ List.mem_singleton_self c))
      · exact ⟨rfl, hx⟩
    · rw [if_neg hk, if_neg hk]
      exact ⟨rfl, hx⟩

lemma skipGroups_eq (hx : x < t.size) : skipGroups t x = .ok (t.skipGroups x) :=
  (unwrap_eq h hx).1

lemma skipGroups_lt (hx : x < t.size) : t.skipGroups x < t.size := (unwrap_eq h hx).2

omit h in
/-- A walk that starts at nodes and goes on to nodes visits nodes. -/
lemma walk_eq {f : NodeId → List NodeId} {g : NodeId → Except Fault (List NodeId)}
    (hf : ∀ x, x < t.size → g x = .ok (f x) ∧ ∀ c ∈ f x, c < t.size) {n : Nat}
    {l : List NodeId} (hl : ∀ x ∈ l, x < t.size) :
    walk g n l = .ok (VariantFold.walk f n l) ∧
      ∀ x ∈ VariantFold.walk f n l, x < t.size := by
  induction n generalizing l with
  | zero => exact ⟨rfl, by simp [VariantFold.walk]⟩
  | succ n ih =>
    rcases l with _ | ⟨x, l⟩
    · exact ⟨rfl, by simp [VariantFold.walk]⟩
    · have hx := hl x List.mem_cons_self
      obtain ⟨hok, hlt⟩ := hf x hx
      obtain ⟨hrest, hrestlt⟩ := @ih (f x ++ l) fun y hy =>
        (List.mem_append.1 hy).elim (hlt y) fun hy => hl y (List.mem_cons_of_mem x hy)
      refine ⟨?_, fun y hy => ?_⟩
      · rw [walk, hok, except_bind, hrest]
        rfl
      · rcases List.mem_cons.1 hy with rfl | hy
        · exact hx
        · exact hrestlt y hy

lemma descendants_eq (hx : x < t.size) :
    descendants t x = .ok (t.descendants x) ∧ ∀ y ∈ t.descendants x, y < t.size :=
  walk_eq (fun _ hy => ⟨children_eq hy, fun _ hc => h.child_lt hc⟩) (by simpa using hx)

lemma declarations_eq (hx : x < t.size) : declarations t x = .ok (t.declarations x) := by
  obtain ⟨hok, hlt⟩ := walk_eq (t := t) (n := t.walkLimit) (l := [x])
    (f := fun i => if t.kind i = .function then [] else t.children i)
    (g := fun i => return (← node t i).inScope)
    (fun y hy => by
      rw [node_eq hy]
      refine ⟨rfl, fun c hc => ?_⟩
      split at hc
      · exact absurd hc List.not_mem_nil
      · exact h.child_lt hc)
    (by simpa using hx)
  rw [declarations, scope, hok, except_bind, nodes_eq hlt, Tree.declarations, Tree.scope]
  simp only [except_bind, pure, Except.pure, List.filter_map, List.filterMap_map]
  rfl

/-! ### Calls that ask for variants -/

lemma nameParts?_eq (hx : x < t.size) : nameParts? t x = .ok (t.nameParts? x) := by
  rw [nameParts?, children_eq hx, except_bind, nodes_eq fun c hc => h.child_lt hc, except_bind,
    Tree.nameParts?, List.mapM_map]
  rfl

lemma callOf?_eq (hx : x < t.size) : callOf? t x = .ok (t.callOf? x) := by
  rw [callOf?, Tree.callOf?, parent?_eq hx, except_bind]
  rcases hp : t.parent? x with _ | p
  · rfl
  dsimp only
  have hplt := h.parent_lt hp
  rw [kind_eq hplt, except_bind]
  by_cases hk : t.kind p = .operand
  · rw [if_pos hk, if_pos hk, parent?_eq hplt, except_bind]
    rcases hq : t.parent? p with _ | q
    · rfl
    dsimp only
    rw [kind_eq (h.parent_lt hq)]
    rfl
  · rw [if_neg hk, if_neg hk]
    rfl

lemma callSite?_eq (namespaces : List String) (hx : x < t.size) :
    callSite? t namespaces x = .ok (t.callSite? namespaces x) := by
  rw [callSite?, Tree.callSite?, kind_eq hx, except_bind]
  by_cases hk : t.kind x = .dottedName
  · rw [if_pos hk, if_pos hk, nameParts?_eq h hx, except_bind, callOf?_eq h hx]
    rfl
  · rw [if_neg hk, if_neg hk]
    rfl

lemma callSites_eq (namespaces : List String) :
    callSites t namespaces = .ok (t.callSites namespaces) := by
  obtain ⟨hok, hlt⟩ := descendants_eq h h.root_lt
  rw [callSites, hok, except_bind, mapM_ok fun x hx => callSite?_eq h namespaces (hlt x hx),
    except_bind, List.filterMap_map]
  rfl

lemma callArgs_eq (hx : x < t.size) : callArgs t x = .ok (t.callArgs x) := by
  rw [callArgs, Tree.callArgs, childOfKind?_eq h hx, except_bind]
  rcases hp : t.childOfKind? x .params with _ | p
  · rfl
  · exact contents_eq h (childOfKind?_lt h hp)

lemma callArgs_lt (ha : a ∈ t.callArgs x) : a < t.size := by
  obtain ⟨p, -, -, ha⟩ := Tree.mem_callArgs ha
  exact h.child_lt ha

lemma keyArguments_eq (hx : x < t.size) {expected : Nat} (hpos : 0 < expected) :
    keyArguments t x expected = .ok (t.keyArguments x expected) := by
  rw [keyArguments, Tree.keyArguments, callArgs_eq h hx, except_bind]
  by_cases hlen : (t.callArgs x).length = expected
  · rw [if_pos hlen, if_pos hlen]
    rcases hargs : t.callArgs x with _ | ⟨key, rest⟩
    · rw [hargs] at hlen
      exact absurd hlen (by simpa using hpos.ne)
    · have hkey : argument (key :: rest) 0 = .ok key := rfl
      rw [hkey, except_bind, node_eq (callArgs_lt h (x := x) (hargs ▸ List.mem_cons_self))]
      rfl
  · rw [if_neg hlen, if_neg hlen, childOfKind?_eq h hx]
    rfl

omit h in
lemma argument_eq {args : List NodeId} (hlen : args.length = 2) :
    argument args 1 = .ok (Tree.secondArg args) := by
  rcases args with _ | ⟨a, _ | ⟨b, rest⟩⟩
  · simp at hlen
  · simp at hlen
  · rfl

lemma branch?_eq (hx : x < t.size) : branch? t x = .ok (t.branch? x) := by
  rw [branch?, Tree.branch?, Tree.kind, node_eq hx, except_bind]
  by_cases hk : (t.node x).kind = .keyValue
  · rw [if_pos hk, if_pos hk, childOfKind?_eq h hx, except_bind]
    rcases hv : t.childOfKind? x .value with _ | v
    · dsimp only
      cases (t.node x).str? Attr.key <;> rfl
    · dsimp only
      rw [contents_eq h (childOfKind?_lt h hv)]
      cases (t.node x).str? Attr.key <;> rfl
  · rw [if_neg hk, if_neg hk]
    rfl

lemma branches_eq (hx : x < t.size) : branches t x = .ok (t.branches x) := by
  rw [branches, Tree.branches, kind_eq hx, except_bind]
  by_cases hk : t.kind x = .map
  · rw [if_pos hk, if_pos hk, children_eq hx, except_bind,
      mapM_ok fun c hc => branch?_eq h (h.child_lt hc), except_bind, List.filterMap_map]
    rfl
  · rw [if_neg hk, if_neg hk]
    rfl

/-! ### Conditions -/

lemma soleContentParent_eq (hx : x < t.size) :
    soleContentParent t x = .ok (t.soleContentParent x) := by
  rw [soleContentParent, Tree.soleContentParent, nearestNonGroup_eq h hx, except_bind]
  rcases hp : t.nearestNonGroup x none with _ | p
  · rfl
  dsimp only
  rw [contents_eq h (nearestNonGroup_lt h hp), except_bind]
  rcases hcs : t.contents p with _ | ⟨c, _ | ⟨d, rest⟩⟩
  · rfl
  · dsimp only
    rw [skipGroups_eq h (contents_lt h (x := p) (hcs ▸ List.mem_singleton_self c))]
    rfl
  · rfl

lemma soleContentParent_lt (hp : t.soleContentParent x = some p) : p < t.size := by
  rw [Tree.soleContentParent] at hp
  split at hp
  · exact absurd hp (by simp)
  rename_i q hq
  have hpq : q = p := by grind
  exact hpq ▸ nearestNonGroup_lt h hq

lemma slotOwner_eq (hx : x < t.size) (slotKind ownerKind : Kind) (attr text : String) :
    slotOwner t x slotKind ownerKind attr text =
      .ok (t.slotOwner x slotKind ownerKind attr text) := by
  rw [slotOwner, Tree.slotOwner, kind_eq hx, except_bind]
  by_cases hk : t.kind x = slotKind
  · rw [if_pos hk, if_pos hk, parent?_eq hx, except_bind]
    rcases hp : t.parent? x with _ | p
    · rfl
    dsimp only
    rw [node_eq (h.parent_lt hp)]
    rfl
  · rw [if_neg hk, if_neg hk]
    rfl

lemma enclosingIf_eq (hx : x < t.size) : enclosingIf t x = .ok (t.enclosingIf x) := by
  rw [enclosingIf, Tree.enclosingIf, soleContentParent_eq h hx, except_bind]
  rcases hp : t.soleContentParent x with _ | p
  · rfl
  · exact slotOwner_eq h (soleContentParent_lt h hp) ..

lemma enclosingHook_eq (hx : x < t.size) : enclosingHook t x = .ok (t.enclosingHook x) := by
  rw [enclosingHook, Tree.enclosingHook, soleContentParent_eq h hx, except_bind]
  rcases hp : t.soleContentParent x with _ | p
  · rfl
  · exact slotOwner_eq h (soleContentParent_lt h hp) ..

lemma slotOwner_lt {slotKind ownerKind : Kind} {attr text : String}
    (hp : t.slotOwner x slotKind ownerKind attr text = some p) : p < t.size :=
  h.parent_lt (Tree.slotOwner_some hp).parent_eq

lemma enclosingIf_lt (hl : t.enclosingIf x = some loop) : loop < t.size := by
  rw [Tree.enclosingIf] at hl
  split at hl
  · exact absurd hl (by simp)
  · exact slotOwner_lt h hl

lemma enclosingHook_lt (hl : t.enclosingHook x = some operation) : operation < t.size := by
  rw [Tree.enclosingHook] at hl
  split at hl
  · exact absurd hl (by simp)
  · exact slotOwner_lt h hl

/-! ### Comparisons -/

/-- What stands first in the slot of an operand, groups around it left out. -/
lemma operand?_eq (hx : x < t.size) (k : Kind) :
    operand? t x k = .ok (do
      let slot ← t.childOfKind? x k
      let other ← (t.contents slot).head?
      return t.node (t.skipGroups other)) := by
  rw [operand?, childOfKind?_eq h hx, except_bind]
  rcases hslot : t.childOfKind? x k with _ | slot
  · rfl
  dsimp only
  rw [contents_eq h (childOfKind?_lt h hslot), except_bind]
  rcases hcs : t.contents slot with _ | ⟨c, rest⟩
  · simp only [Option.bind_eq_bind, Option.bind_some, hcs]
    rfl
  · have hc := contents_lt h (x := slot) (hcs ▸ List.mem_cons_self)
    simp only [List.head?_cons, Option.bind_eq_bind, Option.bind_some, hcs]
    rw [skipGroups_eq h hc, except_bind, node_eq (skipGroups_lt h hc)]
    rfl

lemma comparison?_eq (hx : x < t.size) : comparison? t x = .ok (t.comparison? x) := by
  rw [comparison?, Tree.comparison?, nearestNonGroup_eq h hx, except_bind]
  rcases hslot : t.nearestNonGroup x none with _ | slot
  · rfl
  dsimp only [Option.bind_eq_bind, Option.bind_some]
  have hslotlt := nearestNonGroup_lt h hslot
  rw [kind_eq hslotlt, except_bind, parent?_eq hslotlt, except_bind]
  rcases Tree.oppositeSlot? (t.kind slot) with _ | otherKind
  · rfl
  rcases hop : t.parent? slot with _ | operation
  · rfl
  dsimp only [Option.bind_some]
  have hoplt := h.parent_lt hop
  rw [node_eq hoplt, except_bind, operand?_eq h hoplt, except_bind, node_eq hx, except_bind,
    Tree.kind]
  split
  · simp only [Option.bind_eq_bind, Option.bind_assoc, Option.bind_some, pure]
    rfl
  · rfl

lemma comparison?_lt {found : Comparison} (hf : t.comparison? x = some found) :
    found.operation < t.size := by
  simp only [Tree.comparison?, Option.bind_eq_bind, Option.bind_eq_some_iff] at hf
  obtain ⟨slot, -, otherKind, -, operation, hop, hf⟩ := hf
  split at hf
  · simp only [Option.bind_eq_some_iff] at hf
    obtain ⟨operator, -, otherSlot, -, other, -, left, -, right, -, hf⟩ := hf
    obtain rfl := Option.some_injective _ hf
    exact h.parent_lt hop
  · exact absurd hf (by simp)

end Queries

end Checked

end VariantFold
