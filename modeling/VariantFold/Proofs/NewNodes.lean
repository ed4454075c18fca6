/-
The nodes that rewrites add.

A literal is one node, an empty block is one node, and a list of declarations is a node with a node for
each name below it.  Each is described in full: where it is, its kind, its attributes and its links.  The
nodes that there were before stay as they are.
-/
import VariantFold.Literal
import VariantFold.Proofs.Graft
import VariantFold.Step.Inline

namespace VariantFold

/-- Attributes with a source line, if one is known. -/
def Attributes.withLine (as : Attributes) : Option Int64 → Attributes
  | some line => as.insert Attr.line (.int line)
  | none => as

/-- The attributes of a constant. -/
def ConstantType.attributes (type : ConstantType) (text : String) : Attributes :=
  (KeyMap.empty.insert Attr.constantType (.string type.name)).insert Attr.value (.string text)

/-- The attributes of the literal of a scalar. -/
def Scalar.literalAttributes : Scalar → Attributes
  | .null => ConstantType.null.attributes "null"
  | .bool b => ConstantType.boolean.attributes (if b then "true" else "false")
  | .int n =>
    (ConstantType.number.attributes (intText n.toInt)).insert Attr.detail (.string intDetail)
  | .float x =>
    (ConstantType.number.attributes (literalFloat x)).insert Attr.detail (.string floatDetail)
  | .string s => (ConstantType.string.attributes s).insert Attr.detail (.string stringDetail)

/-- The attributes of a declaration without an initial value. -/
def Declaration.attributes (d : Declaration) : Attributes :=
  Attributes.withLine (KeyMap.empty.insert Attr.identifier (.string d.1)) d.2

namespace Tree

variable {t u : Tree} {n x : NodeId} {k : Kind} {as : Attributes}

/-- The tree `u` is `t` with one more node `n`, which has no links. -/
structure NewLeaf (t : Tree) (k : Kind) (as : Attributes) (n : NodeId) (u : Tree) : Prop where
  grown : t.Grown u
  eq_size : n = t.size
  size_eq : u.size = t.size + 1
  node_eq : u.node n = { kind := k, attributes := as }

lemma atLine?_run (n : NodeId) (line : Option Int64) (u : Tree) :
    ((Build.atLine? n line).run u).2 =
      match line with
      | some line => u.set n Attr.line (.int line)
      | none => u := by
  cases line <;> rfl

namespace NewLeaf

lemma lt (h : t.NewLeaf k as n u) : n < u.size := by
  rw [h.eq_size, h.size_eq]
  exact Nat.lt_succ_self _

lemma le (h : t.NewLeaf k as n u) : t.size ≤ n := h.eq_size.ge

lemma kind_new (h : t.NewLeaf k as n u) : u.kind n = k := by
  rw [kind, h.node_eq]

lemma attributes_new (h : t.NewLeaf k as n u) : u.attributes n = as := by
  rw [attributes, h.node_eq]

lemma children_new (h : t.NewLeaf k as n u) : u.children n = [] := by
  rw [children, h.node_eq]

lemma parent_new (h : t.NewLeaf k as n u) : u.parent? n = none := by
  rw [parent?, h.node_eq]

lemma create (h : t.WellLinked) (k : Kind) :
    t.NewLeaf k KeyMap.empty (t.create k).1 (t.create k).2 := by
  refine ⟨(Grown.refl h).create k, rfl, size_create t k, ?_⟩
  rw [create_fst, node_create, if_pos rfl]

lemma set (h : t.NewLeaf k as n u) (name : String) (value : Scalar) :
    t.NewLeaf k (as.insert name value) n (u.set n name value) := by
  refine ⟨h.grown.set h.le name value, h.eq_size, ?_, ?_⟩
  · rw [Tree.set, size_modify, h.size_eq]
  · rw [Tree.set, node_modify, if_pos ⟨rfl, h.lt⟩, h.node_eq]
    rfl

lemma atLine? (h : t.NewLeaf k as n u) (line : Option Int64) :
    t.NewLeaf k (as.withLine line) n ((Build.atLine? n line).run u).2 := by
  cases line with
  | none => exact h
  | some line => exact h.set Attr.line (.int line)

end NewLeaf

/-! ### Literals and blocks -/

lemma newLeaf_constant (h : t.WellLinked) (type : ConstantType) (text : String) :
    t.NewLeaf .constant (type.attributes text) ((Build.constant type text).run t).1
      ((Build.constant type text).run t).2 :=
  ((NewLeaf.create h .constant).set Attr.constantType (.string type.name)).set Attr.value
    (.string text)

lemma newLeaf_literal (h : t.WellLinked) (value : Scalar) :
    t.NewLeaf .constant value.literalAttributes ((Build.literal value).run t).1
      ((Build.literal value).run t).2 := by
  cases value with
  | null => exact newLeaf_constant h .null "null"
  | bool b => exact newLeaf_constant h .boolean _
  | int n => exact (newLeaf_constant h .number _).set Attr.detail (.string intDetail)
  | float x => exact (newLeaf_constant h .number _).set Attr.detail (.string floatDetail)
  | string s => exact (newLeaf_constant h .string s).set Attr.detail (.string stringDetail)

lemma newLeaf_boolean (h : t.WellLinked) (b : Bool) (line : Option Int64) :
    t.NewLeaf .constant ((Scalar.bool b).literalAttributes.withLine line)
      ((Build.boolean b line).run t).1 ((Build.boolean b line).run t).2 :=
  (newLeaf_literal h (.bool b)).atLine? line

/-- A scalar has a literal, or the run ends with a complaint about it. -/
lemma materialize_cases (h : t.WellLinked) (value : Scalar) (line : Option Int64)
    (location : Location) :
    (value.isLiteral = true ∧ ∃ n u, t.materialize value line location = .ok (n, u) ∧
      t.NewLeaf .constant (value.literalAttributes.withLine line) n u) ∨
    (value.isLiteral = false ∧ ∃ e, t.materialize value line location = .error e) := by
  by_cases hv : value.isLiteral = true
  · refine Or.inl ⟨hv, _, _, if_pos hv, (newLeaf_literal h value).atLine? line⟩
  · exact Or.inr ⟨by simpa using hv, _, if_neg hv⟩

/-! ### Declarations -/

lemma newLeaf_bareDefinition (h : t.WellLinked) (d : Declaration) :
    t.NewLeaf .definition d.attributes ((Build.bareDefinition d).run t).1
      ((Build.bareDefinition d).run t).2 :=
  ((NewLeaf.create h .definition).set Attr.identifier (.string d.1)).atLine? d.2

/-- The nodes for several declarations: each is new, without links, and declares what it should. -/
lemma mapM_bareDefinition (h : t.WellLinked) (ds : List Declaration) :
    ∃ ids u, (ds.mapM Build.bareDefinition).run t = (ids, u) ∧ t.Grown u ∧ ids.Nodup ∧
      (∀ n ∈ ids, t.size ≤ n ∧ n < u.size) ∧
      List.Forall₂ (fun n d => u.node n = { kind := .definition, attributes := d.attributes })
        ids ds := by
  induction ds generalizing t with
  | nil => exact ⟨[], t, rfl, Grown.refl h, List.nodup_nil, by simp, List.Forall₂.nil⟩
  | cons d ds ih =>
    have hleaf := newLeaf_bareDefinition h d
    obtain ⟨ids, u, hrun, hgrown, hnd, hlt, hall⟩ := ih hleaf.grown.wellLinked
    have hn := hleaf.lt
    refine ⟨((Build.bareDefinition d).run t).1 :: ids, u, ?_, hleaf.grown.trans hgrown, ?_, ?_, ?_⟩
    · rw [List.mapM_cons]
      have hstep : (do
          let n ← Build.bareDefinition d
          let ns ← ds.mapM Build.bareDefinition
          return n :: ns : Build (List NodeId)).run t =
          (((Build.bareDefinition d).run t).1 ::
            ((ds.mapM Build.bareDefinition).run ((Build.bareDefinition d).run t).2).1,
            ((ds.mapM Build.bareDefinition).run ((Build.bareDefinition d).run t).2).2) := rfl
      rw [hstep, hrun]
    · exact List.nodup_cons.2 ⟨fun hmem => absurd (hlt _ hmem).1 (not_le.2 hn), hnd⟩
    · intro n hmem
      rcases List.mem_cons.1 hmem with rfl | hmem
      · exact ⟨hleaf.le, hn.trans_le hgrown.size_le⟩
      · exact ⟨hleaf.grown.size_le.trans (hlt n hmem).1, (hlt n hmem).2⟩
    · exact List.Forall₂.cons ((hgrown.node_eq _ hn).trans hleaf.node_eq) hall

/-- The tree `u` is `t` with a list of declarations without initial values, topped by the node
`list`. -/
structure NewDefinitions (t : Tree) (ds : List Declaration) (line : Option Int64) (list : NodeId)
    (u : Tree) : Prop where
  grown : t.Grown u
  le : t.size ≤ list
  lt : list < u.size
  kind_list : u.kind list = .definitionList
  attributes_list : u.attributes list = Attributes.withLine KeyMap.empty line
  parent_list : u.parent? list = none
  /-- Below the list there is a node for each declaration, in order. -/
  definitions : List.Forall₂ (fun n (d : Declaration) => u.kind n = .definition ∧
    u.attributes n = d.attributes ∧ u.children n = []) (u.children list) ds

lemma exists_of_forall₂ {α β : Type} {R : α → β → Prop} {l : List α} {l' : List β} {a : α}
    (h : List.Forall₂ R l l') (ha : a ∈ l) : ∃ b ∈ l', R a b := by
  induction h with
  | nil => exact absurd ha List.not_mem_nil
  | @cons a' b _ l' hab _ ih =>
    rcases List.mem_cons.1 ha with rfl | ha
    · exact ⟨b, List.mem_cons_self, hab⟩
    · obtain ⟨b', hb', hab'⟩ := ih ha
      exact ⟨b', List.mem_cons_of_mem b hb', hab'⟩

namespace NewDefinitions

variable {ds : List Declaration} {line : Option Int64} {list c : NodeId}

/-- Every node below the list is one of the declarations. -/
lemma of_child (h : t.NewDefinitions ds line list u) (hc : c ∈ u.children list) :
    ∃ d ∈ ds, u.kind c = .definition ∧ u.attributes c = d.attributes ∧ u.children c = [] :=
  exists_of_forall₂ h.definitions hc

/-- For every declaration there is a node below the list. -/
lemma of_declaration (h : t.NewDefinitions ds line list u) {d : Declaration} (hd : d ∈ ds) :
    ∃ c ∈ u.children list, u.kind c = .definition ∧ u.attributes c = d.attributes ∧
      u.children c = [] :=
  exists_of_forall₂ h.definitions.flip hd

end NewDefinitions

/-- The list is put on top of the nodes for the declarations, and then gets its line. -/
lemma bareDefinitions_run {ds : List Declaration} (hds : ds ≠ []) (line : Option Int64)
    {ids : List NodeId} (hrun : (ds.mapM Build.bareDefinition).run t = (ids, u)) :
    (Build.bareDefinitions ds line).run t =
      ([u.size], ((Build.atLine? u.size line).run (u.createWith .definitionList ids).2).2) := by
  have hstep : (Build.bareDefinitions ds line).run t =
      ([((ds.mapM Build.bareDefinition).run t).2.size],
        ((Build.atLine? ((ds.mapM Build.bareDefinition).run t).2.size line).run
          (((ds.mapM Build.bareDefinition).run t).2.createWith .definitionList
            ((ds.mapM Build.bareDefinition).run t).1).2).2) := by
    rw [Build.bareDefinitions, if_neg hds]
    rfl
  rw [hstep, hrun]

/-- A line that is given to the list changes nothing else. -/
lemma NewDefinitions.atLine? {ds : List Declaration} {list : NodeId}
    (d : t.NewDefinitions ds none list u) (line : Option Int64) :
    t.NewDefinitions ds line list ((Build.atLine? list line).run u).2 := by
  rw [atLine?_run]
  cases line with
  | none => exact d
  | some line =>
    refine ⟨d.grown.set d.le _ _, d.le, ?_, ?_, ?_, ?_, ?_⟩
    · simpa using d.lt
    · simpa using d.kind_list
    · rw [attributes_set d.lt, if_pos rfl, d.attributes_list]
      rfl
    · simpa using d.parent_list
    · rw [children_set]
      refine (List.forall₂_iff_zip.2 ⟨d.definitions.length_eq, fun {n e} hzip => ?_⟩)
      obtain ⟨hkind, hattr, hchildren⟩ := (List.forall₂_iff_zip.1 d.definitions).2 hzip
      -- the list is none of its definitions
      have hne : n ≠ list := by
        rintro rfl
        rw [d.kind_list] at hkind
        exact absurd hkind (by simp)
      rw [kind_set, attributes_set d.lt, if_neg hne, children_set]
      exact ⟨hkind, hattr, hchildren⟩

lemma newDefinitions (h : t.WellLinked) {ds : List Declaration} (hds : ds ≠ [])
    (line : Option Int64) :
    ∃ list u, (Build.bareDefinitions ds line).run t = ([list], u) ∧
      t.NewDefinitions ds line list u := by
  obtain ⟨ids, u, hrun, hgrown, hnd, hlt, hall⟩ := mapM_bareDefinition h ds
  have hroot : ∀ n ∈ ids, n ≠ u.root := fun n hn heq =>
    absurd h.root_lt (not_lt.2 (hgrown.root_eq ▸ heq ▸ (hlt n hn).1))
  obtain ⟨-, hnew⟩ := hgrown.wellLinked.createWith .definitionList
    (fun n hn => ⟨(hlt n hn).2, hroot n hn⟩) hnd
  have hdefs : List.Forall₂ (fun n (d : Declaration) =>
      (u.createWith .definitionList ids).2.kind n = .definition ∧
      (u.createWith .definitionList ids).2.attributes n = d.attributes ∧
      (u.createWith .definitionList ids).2.children n = [])
      ((u.createWith .definitionList ids).2.children u.size) ds := by
    rw [hnew.children_new]
    refine (List.forall₂_iff_zip.2 ⟨hall.length_eq, fun {n d} hzip => ?_⟩)
    have hne : n ≠ u.size := (hlt n (List.of_mem_zip hzip).1).2.ne
    have hnode := (List.forall₂_iff_zip.1 hall).2 hzip
    rw [hnew.kind_eq n hne, hnew.attributes_eq n hne, hnew.children_eq n hne, kind, attributes,
      children, hnode]
    exact ⟨rfl, rfl, rfl⟩
  have d : t.NewDefinitions ds none u.size (u.createWith .definitionList ids).2 := {
    grown := hgrown.createWith h .definitionList hlt hnd
    le := hgrown.size_le
    lt := hnew.size_eq ▸ Nat.lt_succ_self _
    kind_list := hnew.kind_new
    attributes_list := hnew.attributes_new
    parent_list := hnew.parent_new fun n hn => (hlt n hn).2
    definitions := hdefs }
  exact ⟨u.size, _, bareDefinitions_run hds line hrun, d.atLine? line⟩

end Tree

end VariantFold
