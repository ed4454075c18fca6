/-
Nodes that look like something.

A node that looks like a call, like an entry or like a literal has the nodes below it that such a thing
has, and what steps find there is known: the call that asks for a variant and its arguments
(`IsCall`), the entries of a selection and the one that is chosen.
-/
import VariantFold.Proofs.Built

namespace VariantFold

namespace Tree

variable {t : Tree} {entry key map name operand params x : NodeId} {k : Kind} {as : Attributes}
  {ss : List Snapshot} {callee : String} {namespaces : List String} {site : CallSite}

lemma WellLinked.snapshot_iff (h : t.WellLinked) : t.snapshot x = .node k as ss ↔
    t.kind x = k ∧ t.attributes x = as ∧ (t.children x).map t.snapshot = ss := by
  rw [h.snapshot_eq, Snapshot.node.injEq]

/-- The kind of a node can be seen from outside. -/
lemma WellLinked.kind_snapshot (h : t.WellLinked) (x : NodeId) : (t.snapshot x).kind = t.kind x := by
  rw [h.snapshot_eq]
  rfl

/-- Calls are found below a node of a kind that is no name where they are found below its children. -/
lemma WellLinked.sitesBelow_of_kind (h : t.WellLinked) (hk : t.kind x ≠ .dottedName) :
    t.sitesBelow namespaces x = (t.children x).flatMap (t.sitesBelow namespaces) := by
  rw [h.sitesBelow_eq, callSite?_eq_none hk]
  rfl

lemma WellLinked.sitesBelow_leaf (h : t.WellLinked) (hk : t.kind x ≠ .dottedName)
    (hx : t.children x = []) : t.sitesBelow namespaces x = [] := by
  rw [h.sitesBelow_of_kind hk, hx]
  rfl

/-! ### Calls -/

/-- The nodes of a call: what is called stands first, the arguments are those of `params`. -/
structure IsCall (t : Tree) (x operand name params : NodeId) (callee : String) : Prop where
  kind_call : t.kind x = .call
  line_eq : (t.node x).line? = none
  children_call : t.children x = [operand, params]
  kind_operand : t.kind operand = .operand
  children_operand : t.children operand = [name]
  kind_name : t.kind name = .dottedName
  parts_eq : t.nameParts? name = some (Text.fields '.' callee)
  kind_params : t.kind params = .params
  identifiers : ∀ c ∈ t.children name, t.kind c = .identifier ∧ t.children c = []

/-- A row of identifiers spells its names. -/
lemma WellLinked.mapM_identifiers (h : t.WellLinked) {cs : List NodeId} {names : List String}
    (hcs : cs.map t.snapshot = names.map Shape.identifier) :
    (cs.mapM fun c => if t.kind c = .identifier then (t.node c).str? Attr.name else none) =
        some names ∧ ∀ c ∈ cs, t.kind c = .identifier ∧ t.children c = [] := by
  induction cs generalizing names with
  | nil =>
    obtain rfl := List.map_eq_nil_iff.1 hcs.symm
    simp
  | cons c cs ih =>
    obtain ⟨name, names, rfl, hc, hcs⟩ := List.map_eq_cons_iff.1 hcs.symm
    obtain ⟨hparts, hall⟩ := ih hcs.symm
    obtain ⟨hkind, has, hchildren⟩ := h.snapshot_iff.1 hc.symm
    have hname : (t.node c).str? Attr.name = some name := by
      rw [Node.str?, Node.get?, show (t.node c).attributes = _ from has, KeyMap.get?_insert_self]
      rfl
    rw [List.mapM_cons, if_pos hkind, hname, hparts]
    refine ⟨rfl, fun d hd => ?_⟩
    rcases List.mem_cons.1 hd with rfl | hd
    · exact ⟨hkind, List.map_eq_nil_iff.1 hchildren⟩
    · exact hall d hd

/-- A node that looks like a call is one, and its arguments look like those of the call. -/
lemma WellLinked.isCall (h : t.WellLinked) (hx : t.snapshot x = Shape.call callee ss) :
    ∃ operand name params, t.IsCall x operand name params callee ∧
      (t.children params).map t.snapshot = ss := by
  obtain ⟨hkind, has, hchildren⟩ := h.snapshot_iff.1 hx
  obtain ⟨operand, rest, hcall, hoperand, hrest⟩ := List.map_eq_cons_iff.1 hchildren
  obtain ⟨params, rfl, hparams⟩ := List.map_eq_singleton_iff.1 hrest
  obtain ⟨hkop, -, hop⟩ := h.snapshot_iff.1 hoperand
  obtain ⟨name, hop, hname⟩ := List.map_eq_singleton_iff.1 hop
  obtain ⟨hkname, -, hparts⟩ := h.snapshot_iff.1 hname
  obtain ⟨hkparams, -, hargs⟩ := h.snapshot_iff.1 hparams
  obtain ⟨hparts, hidentifiers⟩ := h.mapM_identifiers hparts
  refine ⟨operand, name, params, ⟨hkind, ?_, hcall, hkop, hop, hkname, hparts, hkparams,
    hidentifiers⟩, hargs⟩
  rw [Node.line?, Node.get?, show (t.node x).attributes = _ from has]
  rfl

namespace IsCall

variable (c : t.IsCall x operand name params callee)
include c

lemma mem_params : params ∈ t.children x := by simp [c.children_call]

/-- The call to which the name belongs. -/
lemma callOf?_name (h : t.WellLinked) : t.callOf? name = some x :=
  callOf?_eq_some (h.parent_of_mem (by simp [c.children_operand])) c.kind_operand
    (h.parent_of_mem (by simp [c.children_call])) c.kind_call

/-- The calls that are found below a call: the call itself, if it asks for a variant, and those in its
arguments. -/
lemma sitesBelow_eq (h : t.WellLinked) : t.sitesBelow namespaces x =
    (t.callSite? namespaces name).toList ++
      (t.children params).flatMap (t.sitesBelow namespaces) := by
  have hname : (t.children name).flatMap (t.sitesBelow namespaces) = [] := by
    refine List.flatMap_eq_nil_iff.2 fun d hd => ?_
    obtain ⟨hkind, hnil⟩ := c.identifiers d hd
    exact h.sitesBelow_leaf (by simp [hkind]) hnil
  rw [h.sitesBelow_of_kind (by simp [c.kind_call]), c.children_call, List.flatMap_cons,
    List.flatMap_singleton, h.sitesBelow_of_kind (x := operand) (by simp [c.kind_operand]),
    c.children_operand, List.flatMap_singleton, h.sitesBelow_eq name, hname, List.append_nil,
    h.sitesBelow_of_kind (x := params) (by simp [c.kind_params])]

lemma site_call (h : t.WellLinked) (hsite : t.callSite? namespaces name = some site) :
    site.call = x :=
  Option.some_injective _ ((callSite?_some hsite).2.symm.trans (c.callOf?_name h))

end IsCall

/-- A call with a method of one of the namespaces asks for a variant. -/
lemma IsCall.callSite?_callee {space : Space namespaces} {m : Method}
    (c : t.IsCall x operand name params (space.callee m)) (h : t.WellLinked) :
    t.callSite? namespaces name = some ⟨x, m, space.callee m⟩ := by
  have hparts := c.parts_eq
  have hjoin := Text.intercalate_fields (space.callee m)
  rw [Space.callee, Method.fields_callee] at hparts hjoin
  rw [callSite?, if_pos c.kind_name, hparts, Option.bind_eq_bind, Option.bind_some,
    List.getLast?_concat, Option.bind_eq_bind, Option.bind_some, List.dropLast_concat,
    Text.intercalate_fields, if_pos space.2, m.ofName?_name, Option.bind_eq_bind, Option.bind_some,
    c.callOf?_name h, hjoin]
  rfl

/-! ### Arguments -/

/-- A node that looks like the literal of a string. -/
lemma WellLinked.stringLiteral (h : t.WellLinked) {s : String}
    (hx : t.snapshot x = Shape.literal (.string s)) :
    t.kind x = .constant ∧ t.children x = [] ∧ (t.node x).isStringLiteral = true ∧
      (t.node x).literalText = s := by
  obtain ⟨hkind, has, hchildren⟩ := h.snapshot_iff.1 hx
  exact ⟨hkind, List.map_eq_nil_iff.1 hchildren, Node.isStringLiteral_literal hkind has⟩

lemma IsCall.callArgs_eq (c : t.IsCall x operand name params callee)
    (hplain : ∀ a ∈ t.children params, (t.kind a).isComment = false) :
    t.callArgs x = t.children params := by
  have hfind : t.childOfKind? x .params = some params := by
    rw [childOfKind?, c.children_call, List.find?_cons_of_neg (by simp [c.kind_operand]),
      List.find?_cons_of_pos (by simp [c.kind_params])]
  rw [callArgs, hfind]
  exact List.filter_eq_self.2 fun a ha => by simp [hplain a ha]

/-- The arguments of a call with a key. -/
lemma IsCall.keyArguments_eq (c : t.IsCall x operand name params callee) (h : t.WellLinked)
    {s : String} {rest : List NodeId} (hargs : t.children params = key :: rest)
    (hkey : t.snapshot key = Shape.literal (.string s))
    (hplain : ∀ a ∈ rest, (t.kind a).isComment = false) :
    t.keyArguments x (rest.length + 1) = .ok (s, key :: rest) := by
  obtain ⟨hkind, -, hlit, htext⟩ := h.stringLiteral hkey
  have hall : t.callArgs x = key :: rest := by
    rw [← hargs]
    refine c.callArgs_eq fun a ha => ?_
    rw [hargs] at ha
    rcases List.mem_cons.1 ha with rfl | ha
    · rw [hkind]
      rfl
    · exact hplain a ha
  rw [keyArguments, hall, if_pos List.length_cons]
  dsimp only
  rw [if_pos hlit, htext]

/-- Without a key there are no arguments to speak of. -/
lemma keyArguments_eq_error {n : Nat} (hn : n ≠ 0)
    (hkey : ∀ a ∈ (t.callArgs x).head?, (t.node a).isStringLiteral = false) :
    ∃ m, t.keyArguments x n = .error m := by
  rw [keyArguments]
  split
  · rename_i hlength
    rcases hargs : t.callArgs x with _ | ⟨key, rest⟩
    · rw [hargs] at hlength
      exact absurd hlength.symm hn
    · rw [hargs] at hkey
      exact ⟨.key key, if_neg (by simp [hkey key rfl])⟩
  · exact ⟨_, rfl⟩

/-! ### Entries -/

/-- A node that looks like an entry is one; its value looks like the value of the entry, and the calls
below the two are the same. -/
lemma WellLinked.branch?_eq (h : t.WellLinked) {e : String × Snapshot}
    (hx : t.snapshot entry = Shape.entry e) (hplain : e.2.kind.isComment = false) :
    ∃ value, t.branch? entry = some ⟨e.1, value⟩ ∧ t.snapshot value = e.2 ∧ t.Below entry value ∧
      ∀ namespaces, t.sitesBelow namespaces entry = t.sitesBelow namespaces value := by
  obtain ⟨hkind, has, hchildren⟩ := h.snapshot_iff.1 hx
  obtain ⟨slot, hslots, hslot⟩ := List.map_eq_singleton_iff.1 hchildren
  obtain ⟨hkslot, -, hvalues⟩ := h.snapshot_iff.1 hslot
  obtain ⟨value, hvalues, hvalue⟩ := List.map_eq_singleton_iff.1 hvalues
  have hkey : (t.node entry).str? Attr.key = some e.1 := by
    rw [Node.str?, Node.get?, show (t.node entry).attributes = _ from has, KeyMap.get?_insert_self]
    rfl
  have hcontents : t.contents slot = [value] := by
    rw [← hvalue, h.kind_snapshot] at hplain
    rw [contents, hvalues, List.filter_singleton, hplain]
    rfl
  have hfind : t.childOfKind? entry .value = some slot := by
    rw [childOfKind?, hslots, List.find?_cons_of_pos (by simp [hkslot])]
  have hslotmem : slot ∈ t.children entry := by simp [hslots]
  have hvaluemem : value ∈ t.children slot := by simp [hvalues]
  refine ⟨value, ?_, hvalue, ?_, fun namespaces => ?_⟩
  · rw [branch?, if_pos hkind, hkey, hfind]
    simp only [Option.bind_eq_bind, Option.bind_some, hcontents, List.head?_cons, Option.pure_def]
  · exact (h.below_child hslotmem).trans_left
      (h.below_child hvaluemem).atOrBelow
  · rw [h.sitesBelow_of_kind (by simp [hkind]), hslots, List.flatMap_singleton,
      h.sitesBelow_of_kind (by simp [hkslot]), hvalues, List.flatMap_singleton]

/-- The entries of a row of nodes that look like entries. -/
lemma WellLinked.filterMap_branch? (h : t.WellLinked) {nodes : List NodeId}
    {es : List (String × Snapshot)} (hnodes : nodes.map t.snapshot = es.map Shape.entry)
    (hplain : ∀ e ∈ es, e.2.kind.isComment = false) :
    (nodes.filterMap t.branch?).map (fun b => (b.keys, t.snapshot b.value)) = es := by
  induction nodes generalizing es with
  | nil =>
    rw [List.map_nil, eq_comm, List.map_eq_nil_iff] at hnodes
    rw [hnodes]
    rfl
  | cons node nodes ih =>
    obtain ⟨e, es, rfl, he, hes⟩ := List.map_eq_cons_iff.1 hnodes.symm
    obtain ⟨value, hbranch, hvalue, -⟩ :=
      h.branch?_eq he.symm (hplain e List.mem_cons_self)
    rw [List.filterMap_cons_some hbranch, List.map_cons, hvalue,
      ih hes.symm fun e he => hplain e (List.mem_cons_of_mem _ he)]

end Tree

/-! ### Choices -/

section Pick

variable {α β : Type} {text : String}

/-- The choice depends on the keys alone. -/
lemma pick_map (f : α → β) (entries : List (String × α)) :
    pick text (entries.map fun e => (e.1, f e.2)) = (pick text entries).map f := by
  rw [pick, pick, ← List.map_reverse, List.find?_map, List.find?_map]
  simp only [Function.comp_def]
  rw [← Option.map_or, Option.map_map, Option.map_map]
  rfl

lemma pick_mem {entries : List (String × α)} {a : α} (h : pick text entries = some a) :
    ∃ e ∈ entries, e.2 = a := by
  obtain ⟨e, he, rfl⟩ := Option.map_eq_some_iff.1 h
  refine ⟨e, ?_, rfl⟩
  rcases Option.or_eq_some_iff.1 he with hfound | ⟨-, hfound⟩
  · exact List.mem_of_find?_eq_some hfound
  · exact List.mem_reverse.1 (List.mem_of_find?_eq_some hfound)

lemma Branch.choose_eq_pick (branches : List Branch) (value : Scalar) :
    choose branches value = pick value.text (branches.map fun b => (b.keys, b.value)) := by
  rw [choose, chooseText_eq, Option.or_none, pick, ← List.map_reverse, List.find?_map,
    List.find?_map, ← Option.map_or, Option.map_map]
  rfl

end Pick

end VariantFold
