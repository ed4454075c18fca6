/-
Where the nodes are that steps look for.

Steps look for nodes above a node, through groups, and below it, by the kinds of slots.  What they find
lies on the path that they follow: a context lies above the node it is asked about, an argument or an
entry lies below its call.
-/
import VariantFold.Proofs.Links
import VariantFold.Step.Get
import VariantFold.Step.Select

namespace VariantFold

namespace Tree

variable {t : Tree} {a c d loop n operation p slot x : NodeId} {k : Kind}

/-! ### Children -/

lemma childOfKind?_some (h : t.childOfKind? p k = some c) : c ∈ t.children p ∧ t.kind c = k :=
  ⟨List.mem_of_find?_eq_some h, by simpa using List.find?_some h⟩

lemma mem_contents : c ∈ t.contents p ↔ c ∈ t.children p ∧ (t.kind c).isComment = false := by
  simp [contents, List.mem_filter]

lemma mem_childrenOf? {o : Option NodeId} :
    c ∈ t.childrenOf? o ↔ ∃ p, o = some p ∧ c ∈ t.children p := by
  cases o <;> simp [childrenOf?]

/-! ### Contexts -/

lemma WellLinked.below_of_nearestNonGroup (h : t.WellLinked)
    (hx : t.nearestNonGroup x none = some a) : t.Below a x ∧ t.kind a ≠ .group := by
  rw [nearestNonGroup] at hx
  split at hx
  · rename_i b hb
    obtain rfl : b = a := Option.some_injective _ hx
    refine ⟨h.mem_ancestors_iff.1 (List.mem_of_find?_eq_some hb), ?_⟩
    simpa using List.find?_some hb
  · exact absurd hx (by simp)

/-- What is found is the end of the way up, and the way down from its only content leads back. -/
lemma soleContentParent_eq_some_iff : t.soleContentParent x = some p ↔
    t.nearestNonGroup x none = some p ∧ ∃ y, t.contents p = [y] ∧ t.skipGroups y = x := by
  rw [soleContentParent]
  constructor
  · intro hx
    split at hx
    · exact absurd hx (by simp)
    · rename_i q hq
      split at hx
      · rename_i y hcontents
        split at hx
        · rename_i hskip
          obtain rfl := Option.some_injective _ hx
          exact ⟨hq, y, hcontents, hskip⟩
        · exact absurd hx (by simp)
      · exact absurd hx (by simp)
  · rintro ⟨hp, y, hcontents, hskip⟩
    rw [hp]
    dsimp only
    rw [hcontents]
    exact if_pos hskip

lemma WellLinked.below_of_soleContentParent (h : t.WellLinked)
    (hx : t.soleContentParent x = some p) : t.Below p x :=
  (h.below_of_nearestNonGroup (soleContentParent_eq_some_iff.1 hx).1).1

/-- A slot of one kind that belongs to an owner of another, which an attribute marks. -/
structure IsSlotOf (t : Tree) (slot owner : NodeId) (slotKind ownerKind : Kind)
    (attr text : String) : Prop where
  parent_eq : t.parent? slot = some owner
  kind_slot : t.kind slot = slotKind
  kind_owner : t.kind owner = ownerKind
  mark : (t.node owner).str? attr = some text

lemma slotOwner_some {slotKind ownerKind : Kind} {attr text : String}
    (h : t.slotOwner slot slotKind ownerKind attr text = some p) :
    t.IsSlotOf slot p slotKind ownerKind attr text := by
  rw [slotOwner] at h
  split at h
  · rename_i hslot
    split at h
    · exact absurd h (by simp)
    · rename_i owner hparent
      split at h
      · rename_i howner
        obtain rfl : owner = p := Option.some_injective _ h
        exact ⟨hparent, hslot, howner.1, howner.2⟩
      · exact absurd h (by simp)
  · exact absurd h (by simp)

/-- An `if` statement lies above its condition. -/
lemma WellLinked.enclosingIf_some (h : t.WellLinked) (hx : t.enclosingIf x = some loop) :
    ∃ slot, t.Below slot x ∧
      t.IsSlotOf slot loop .expression .loop Attr.loopType Build.ifType := by
  rw [enclosingIf] at hx
  split at hx
  · exact absurd hx (by simp)
  · rename_i slot hslot
    exact ⟨slot, h.below_of_soleContentParent hslot, slotOwner_some hx⟩

/-- A conditional expression lies above its condition. -/
lemma WellLinked.enclosingHook_some (h : t.WellLinked) (hx : t.enclosingHook x = some operation) :
    ∃ slot, t.Below slot x ∧
      t.IsSlotOf slot operation .first .operation Attr.operator Build.hookOperator := by
  rw [enclosingHook] at hx
  split at hx
  · exact absurd hx (by simp)
  · rename_i slot hslot
    exact ⟨slot, h.below_of_soleContentParent hslot, slotOwner_some hx⟩

/-- A comparison lies above its operands. -/
lemma WellLinked.comparison?_some (h : t.WellLinked) {found : Comparison}
    (hx : t.comparison? x = some found) :
    ∃ slot, t.Below slot x ∧ t.parent? slot = some found.operation ∧
      t.kind found.operation = .operation := by
  simp only [comparison?, Option.bind_eq_bind, Option.bind_eq_some_iff] at hx
  obtain ⟨slot, hslot, other, -, operation, hparent, hx⟩ := hx
  split at hx
  · rename_i hkind
    simp only [Option.bind_eq_some_iff, Option.pure_def, Option.some.injEq] at hx
    obtain ⟨_, _, _, _, _, _, _, _, _, _, rfl⟩ := hx
    exact ⟨slot, (h.below_of_nearestNonGroup hslot).1, hparent, hkind⟩
  · exact absurd hx (by simp)

/-! ### Calls that ask for variants -/

/-- What a call that is found through a dotted name looks like. -/
lemma callOf?_some (h : t.callOf? x = some c) :
    ∃ operand, t.parent? x = some operand ∧ t.kind operand = .operand ∧
      t.parent? operand = some c ∧ t.kind c = .call := by
  rw [callOf?] at h
  split at h
  · exact absurd h (by simp)
  rename_i operand hoperand
  split at h
  · rename_i hkind
    split at h
    · exact absurd h (by simp)
    rename_i call hcall
    split at h
    · rename_i hkind'
      obtain rfl : call = c := Option.some_injective _ h
      exact ⟨operand, hoperand, hkind, hcall, hkind'⟩
    · exact absurd h (by simp)
  · exact absurd h (by simp)

lemma callSite?_some {namespaces : List String} {site : CallSite}
    (h : t.callSite? namespaces x = some site) :
    t.kind x = .dottedName ∧ t.callOf? x = some site.call := by
  rw [callSite?] at h
  split at h
  · rename_i hkind
    simp only [bind, Option.bind_eq_some_iff] at h
    obtain ⟨parts, -, last, -, h⟩ := h
    split at h
    · simp only [Option.bind_eq_some_iff] at h
      obtain ⟨method, -, call, hcall, h⟩ := h
      obtain rfl := Option.some_injective _ h
      exact ⟨hkind, hcall⟩
    · exact absurd h (by simp)
  · exact absurd h (by simp)

/-! ### Arguments -/

lemma mem_callArgs (h : a ∈ t.callArgs c) :
    ∃ params, params ∈ t.children c ∧ t.kind params = .params ∧ a ∈ t.children params := by
  rw [callArgs] at h
  split at h
  · rename_i params hparams
    obtain ⟨hmem, hkind⟩ := childOfKind?_some hparams
    exact ⟨params, hmem, hkind, (mem_contents.1 h).1⟩
  · exact absurd h (by simp)

/-- The arguments of a call with a key. -/
lemma keyArguments_ok {expected : Nat} {key : String} {args : List NodeId}
    (h : t.keyArguments c expected = .ok (key, args)) :
    args = t.callArgs c ∧ args.length = expected ∧
      ∃ first rest, args = first :: rest ∧ (t.node first).isStringLiteral = true ∧
        key = (t.node first).literalText := by
  simp only [keyArguments] at h
  split at h
  · rename_i hlen
    split at h
    · rename_i first rest hargs
      split at h
      · rename_i hlit
        obtain ⟨rfl, rfl⟩ := Prod.mk.inj (Except.ok.inj h)
        exact ⟨rfl, hlen, first, rest, hargs, hlit, rfl⟩
      · exact absurd h (by simp)
    · exact absurd h (by simp)
  · exact absurd h (by simp)

lemma secondArg_mem {args : List NodeId} (h : args.length = 2) : secondArg args ∈ args := by
  match args, h with
  | [_, b], _ => simp [secondArg]

/-- The value of an entry in the object literal that a call has as an argument. -/
structure IsEntryValue (t : Tree) (call value : NodeId) : Prop where
  path : ∃ params map entry slot, t.parent? params = some call ∧ t.kind params = .params ∧
    t.parent? map = some params ∧ t.kind map = .map ∧ t.parent? entry = some map ∧
    t.kind entry = .keyValue ∧ t.parent? slot = some entry ∧ t.kind slot = .value ∧
    t.parent? value = some slot

lemma branch?_some {entry : NodeId} {b : Branch} (h : t.branch? entry = some b) :
    t.kind entry = .keyValue ∧ ∃ slot, slot ∈ t.children entry ∧ t.kind slot = .value ∧
      b.value ∈ t.children slot := by
  rw [branch?] at h
  split at h
  · rename_i hkind
    simp only [Option.bind_eq_bind, Option.bind_eq_some_iff, Option.pure_def,
      Option.some.injEq] at h
    obtain ⟨keys, -, slot, hslot, value, hvalue, rfl⟩ := h
    obtain ⟨hmem, hslotKind⟩ := childOfKind?_some hslot
    exact ⟨hkind, slot, hmem, hslotKind, (mem_contents.1 (List.mem_of_head? hvalue)).1⟩
  · exact absurd h (by simp)

end Tree

namespace Branch

variable {value : String} {target chosen : NodeId} {branches : List Branch}

/-- An entry is chosen if one of its single keys fits; if not, it may become the default. -/
lemma scan_eq (fallback : Option NodeId) (keys : List String) :
    scan value target fallback keys =
      if keys.any fun key => fits key value then .error target
      else .ok (if defaultKey ∈ keys then some target else fallback) := by
  induction keys generalizing fallback with
  | nil => rfl
  | cons key rest ih =>
    rw [scan, ih]
    by_cases hfits : fits key value = true
    · simp [hfits]
    · rw [if_neg hfits, List.any_cons, eq_false_of_ne_true hfits, Bool.false_or]
      by_cases hkey : key = defaultKey
      · simp [hkey]
      · simp [hkey, Ne.symm hkey]

/-- The first entry with a key that fits, or else the last with a default key. -/
lemma chooseText_eq (fallback : Option NodeId) (branches : List Branch) :
    chooseText value fallback branches =
      (((branches.find? fun b => b.alternatives.any fun key => fits key value).or
        (branches.reverse.find? fun b => defaultKey ∈ b.alternatives)).map Branch.value).or
          fallback := by
  induction branches generalizing fallback with
  | nil => rfl
  | cons b rest ih =>
    rw [chooseText, scan_eq, List.find?_cons, List.reverse_cons, List.find?_append]
    by_cases hfits : (b.alternatives.any fun key => fits key value) = true
    · rw [if_pos hfits, hfits]
      rfl
    · rw [if_neg hfits, eq_false_of_ne_true hfits]
      dsimp only
      rw [ih]
      by_cases hdefault : defaultKey ∈ b.alternatives
      · simp [hdefault, Option.map_or]
      · simp [hdefault]

/-- A chosen entry is one of the entries. -/
lemma choose_mem {v : Scalar} (h : choose branches v = some chosen) :
    ∃ b ∈ branches, b.value = chosen := by
  rw [choose, chooseText_eq, Option.or_none, Option.map_eq_some_iff] at h
  obtain ⟨b, hb, hvalue⟩ := h
  refine ⟨b, ?_, hvalue⟩
  rcases Option.or_eq_some_iff.1 hb with hfound | ⟨-, hfound⟩
  · exact List.mem_of_find?_eq_some hfound
  · exact List.mem_reverse.1 (List.mem_of_find?_eq_some hfound)

end Branch

namespace Tree

variable {t : Tree} {c : NodeId}

/-- What a selection chooses is the value of an entry. -/
lemma WellLinked.isEntryValue (h : t.WellLinked) {key : String} {args : List NodeId}
    {bs : List Branch} {v : Scalar} {b : NodeId} (hargs : t.keyArguments c 2 = .ok (key, args))
    (hbs : t.branches (secondArg args) = .ok bs) (hb : Branch.choose bs v = some b) :
    t.IsEntryValue c b := by
  obtain ⟨hcall, hlen, -⟩ := keyArguments_ok hargs
  obtain ⟨params, hparams, hparamsKind, hmap⟩ :=
    mem_callArgs (c := c) (t := t) (by rw [← hcall]; exact secondArg_mem hlen)
  rw [branches] at hbs
  split at hbs
  · rename_i hmapKind
    obtain ⟨branch, hbranch, rfl⟩ := Branch.choose_mem hb
    rw [← Except.ok.inj hbs, List.mem_filterMap] at hbranch
    obtain ⟨entry, hentry, hsome⟩ := hbranch
    obtain ⟨hentryKind, slot, hslot, hslotKind, hvalue⟩ := branch?_some hsome
    exact ⟨params, secondArg args, entry, slot, h.parent_of_mem hparams, hparamsKind,
      h.parent_of_mem hmap, hmapKind, h.parent_of_mem hentry, hentryKind, h.parent_of_mem hslot,
      hslotKind, h.parent_of_mem hvalue⟩
  · exact absurd hbs (by simp)

lemma IsEntryValue.below {b : NodeId} (h : t.IsEntryValue c b) : t.Below c b := by
  obtain ⟨params, map, entry, slot, hparams, -, hmap, -, hentry, -, hslot, -, hb⟩ := h.path
  exact ((((below_of_parent hparams).trans_left (below_of_parent hmap).atOrBelow).trans_left
    (below_of_parent hentry).atOrBelow).trans_left (below_of_parent hslot).atOrBelow).trans_left
    (below_of_parent hb).atOrBelow

end Tree

end VariantFold
