/-
Trees that are read back from their text.

Two well-linked trees that look the same from a node down have the same shape there: the nodes of one are
carried over to the nodes of the other, one to one, with their kinds, attributes and children in order
(`WellLinked.exists_carries`).  A tree that is written as JSON text and read again looks like the tree
that was written, so it is a copy of the part that belongs to the tree; what was cut out is not written.
-/
import Mathlib.Data.Set.Function
import VariantFold.Proofs.FromSnapshot
import VariantFold.Proofs.JsonNodes

namespace VariantFold

/-- Two lists with the same images: the members of the first can be sent to those of the second. -/
lemma exists_map_eq {α β γ : Type} [DecidableEq α] [Inhabited β] {f : α → γ} {g : β → γ} {l : List α}
    {l' : List β} (hnd : l.Nodup) (h : l.map f = l'.map g) : ∃ e : α → β, l' = l.map e := by
  induction l generalizing l' with
  | nil => exact ⟨fun _ => default, List.map_eq_nil_iff.1 h.symm⟩
  | cons a l ih =>
    obtain ⟨b, rest, rfl, -, hrest⟩ := List.map_eq_cons_iff.1 h.symm
    obtain ⟨ha, hnd⟩ := List.nodup_cons.1 hnd
    obtain ⟨e, rfl⟩ := ih hnd hrest.symm
    refine ⟨Function.update e a b, ?_⟩
    have hkeep : l.map (Function.update e a b) = l.map e :=
      List.map_congr_left fun c hc => Function.update_of_ne (ne_of_mem_of_not_mem hc ha) ..
    rw [List.map_cons, Function.update_self, hkeep]

namespace Tree

variable {t t' : Tree} {f : NodeId → NodeId} {x y z : NodeId} {x' y' : NodeId}

/-! ### Nodes that are carried over -/

/-- The nodes at or below `x` are carried over to `t'` with their kinds, attributes and children. -/
structure Carries (t t' : Tree) (f : NodeId → NodeId) (x : NodeId) : Prop where
  kind_eq : ∀ y, t.AtOrBelow x y → t'.kind (f y) = t.kind y
  attributes_eq : ∀ y, t.AtOrBelow x y → t'.attributes (f y) = t.attributes y
  children_eq : ∀ y, t.AtOrBelow x y → t'.children (f y) = (t.children y).map f

/-- Every node below another is at or below one of its children. -/
lemma WellLinked.exists_child (h : t.WellLinked) (hle : t.AtOrBelow x y) :
    y = x ∨ ∃ c ∈ t.children x, t.AtOrBelow c y := by
  rcases Relation.ReflTransGen.cases_head hle with rfl | ⟨c, hc, hle⟩
  · exact Or.inl rfl
  · exact Or.inr ⟨c, h.mem_of_parent hc, hle⟩

/-- The children of a node are carried over, each with what is below it: so is the node. -/
lemma WellLinked.carries_of_children (h : t.WellLinked) {e : NodeId → NodeId}
    {F : NodeId → NodeId → NodeId} (hkind : t'.kind x' = t.kind x)
    (hattr : t'.attributes x' = t.attributes x) (hchildren : t'.children x' = (t.children x).map e)
    (hF : ∀ c ∈ t.children x, F c c = e c ∧ t.Carries t' (F c) c) :
    ∃ f, f x = x' ∧ t.Carries t' f x := by
  classical
  -- what is below a child goes where that child takes it
  let f : NodeId → NodeId := fun y =>
    if hy : ∃ c ∈ t.children x, t.AtOrBelow c y then F hy.choose y else x'
  have hfx : f x = x' := by
    refine dif_neg fun hex => ?_
    obtain ⟨c, hc, hle⟩ := hex
    exact h.not_atOrBelow_of_below (h.below_child hc) hle
  have hfc : ∀ c ∈ t.children x, ∀ y, t.AtOrBelow c y → f y = F c y := by
    intro c hc y hy
    have hex : ∃ c ∈ t.children x, t.AtOrBelow c y := ⟨c, hc, hy⟩
    have hsame : hex.choose = c := by
      by_contra hne
      exact h.siblings_apart hex.choose_spec.1 hc hne hex.choose_spec.2 hy
    rw [show f y = F hex.choose y from dif_pos hex, hsame]
  refine ⟨f, hfx, fun y hy => ?_, fun y hy => ?_, fun y hy => ?_⟩
  · rcases h.exists_child hy with rfl | ⟨c, hc, hcy⟩
    · rw [hfx, hkind]
    · rw [hfc c hc y hcy, (hF c hc).2.kind_eq y hcy]
  · rcases h.exists_child hy with rfl | ⟨c, hc, hcy⟩
    · rw [hfx, hattr]
    · rw [hfc c hc y hcy, (hF c hc).2.attributes_eq y hcy]
  · rcases h.exists_child hy with rfl | ⟨c, hc, hcy⟩
    · rw [hfx, hchildren]
      refine List.map_congr_left fun c hc => ?_
      rw [hfc c hc c (AtOrBelow.refl t c), (hF c hc).1]
    · rw [hfc c hc y hcy, (hF c hc).2.children_eq y hcy]
      refine List.map_congr_left fun d hd => ?_
      rw [hfc c hc d (hcy.trans (h.below_child hd).atOrBelow)]

/-- What looks the same is carried over. -/
lemma WellLinked.exists_carries (h : t.WellLinked) (h' : t'.WellLinked)
    (heq : t.snapshot x = t'.snapshot x') : ∃ f, f x = x' ∧ t.Carries t' f x := by
  induction x using h.induction_from_leaves generalizing x' with
  | step x ih =>
    rw [h.snapshot_eq, h'.snapshot_eq, Snapshot.node.injEq] at heq
    obtain ⟨hkind, hattr, hmap⟩ := heq
    -- the children in the same position look the same
    obtain ⟨e, he⟩ := exists_map_eq (h.nodup_children x) hmap
    have hsame : ∀ c ∈ t.children x, t.snapshot c = t'.snapshot (e c) := by
      rw [he, List.map_map] at hmap
      exact List.map_inj_left.1 hmap
    have hex : ∀ c, ∃ f, c ∈ t.children x → f c = e c ∧ t.Carries t' f c := by
      intro c
      by_cases hc : c ∈ t.children x
      · obtain ⟨f, hf⟩ := ih c hc (hsame c hc)
        exact ⟨f, fun _ => hf⟩
      · exact ⟨id, fun hc' => absurd hc' hc⟩
    choose F hF using hex
    exact h.carries_of_children hkind.symm hattr.symm he hF

namespace Carries

/-- Parents are carried over to parents. -/
lemma parent?_eq (g : t.Carries t' f x) (h' : t'.WellLinked) (hy : t.AtOrBelow x y)
    (hz : z ∈ t.children y) : t'.parent? (f z) = some (f y) := by
  refine h'.parent_of_mem ?_
  rw [g.children_eq y hy]
  exact List.mem_map_of_mem hz

variable (g : t.Carries t' f x) (h : t.WellLinked) (h' : t'.WellLinked)

include g h h'

lemma atOrBelow (hy : t.AtOrBelow x y) : t'.AtOrBelow (f x) (f y) := by
  induction hy with
  | refl => exact AtOrBelow.refl ..
  | @tail p c hp hc ih =>
    exact ih.trans (below_of_parent (g.parent?_eq h' hp (h.mem_of_parent hc))).atOrBelow

/-- No two nodes are carried over to the same node. -/
lemma injOn (hy : t.AtOrBelow x y) (hz : t.AtOrBelow x z) (heq : f y = f z) : y = z := by
  -- only `x` goes to where `x` goes, since any other node goes below that
  have htop : ∀ w, t.AtOrBelow x w → f w = f x → w = x := by
    intro w hw hfw
    by_contra hne
    obtain ⟨p, hp, hxp⟩ := below_iff.1 ((atOrBelow_iff.1 hw).resolve_left hne)
    have hbelow := below_of_parent (g.parent?_eq h' hxp (h.mem_of_parent hp))
    exact h'.not_atOrBelow_of_below hbelow (hfw ▸ g.atOrBelow h h' hxp)
  induction hy generalizing z with
  | refl => exact (htop z hz heq.symm).symm
  | @tail p c hp hc ih =>
    rcases atOrBelow_iff.1 hz with rfl | hbelow
    · exact htop c (hp.trans (below_of_parent hc).atOrBelow) heq
    · obtain ⟨q, hq, hxq⟩ := below_iff.1 hbelow
      have hparents : f p = f q := by
        have hpc := g.parent?_eq h' hp (h.mem_of_parent hc)
        rw [heq, g.parent?_eq h' hxq (h.mem_of_parent hq)] at hpc
        exact (Option.some_injective _ hpc).symm
      obtain rfl := ih hxq hparents
      have hnd := h'.nodup_children (f p)
      rw [g.children_eq p hp] at hnd
      exact List.inj_on_of_nodup_map hnd (h.mem_of_parent hc) (h.mem_of_parent hq) heq

/-- Every node at or below the place of `x` is carried over from a node at or below `x`. -/
lemma surjOn (hy : t'.AtOrBelow (f x) y') : ∃ y, t.AtOrBelow x y ∧ f y = y' := by
  induction hy with
  | refl => exact ⟨x, AtOrBelow.refl t x, rfl⟩
  | @tail p' c' _ hc' ih =>
    obtain ⟨p, hp, rfl⟩ := ih
    have hmem := h'.mem_of_parent hc'
    rw [g.children_eq p hp] at hmem
    obtain ⟨c, hc, rfl⟩ := List.mem_map.1 hmem
    exact ⟨c, hp.trans (h.below_child hc).atOrBelow, rfl⟩

end Carries

/-! ### What a tree looks like -/

/-- The walk from a node visits as many nodes as there are in what it looks like. -/
lemma WellLinked.length_descendants (h : t.WellLinked) (x : NodeId) :
    (t.descendants x).length = (t.snapshot x).size := by
  induction x using h.induction_from_leaves with
  | step x ih =>
    have hall : ∀ cs : List NodeId, (∀ c ∈ cs, (t.descendants c).length = (t.snapshot c).size) →
        (cs.flatMap t.descendants).length = Snapshot.sizes (cs.map t.snapshot) := by
      intro cs hcs
      induction cs with
      | nil => rfl
      | cons c cs ihc =>
        rw [List.flatMap_cons, List.length_append, List.map_cons, Snapshot.sizes,
          hcs c List.mem_cons_self, ihc fun d hd => hcs d (List.mem_cons_of_mem _ hd)]
    rw [h.descendants_eq, List.length_cons, hall _ ih, Snapshot.size_eq, h.snapshot_eq]
    rfl

lemma WellLinked.isExact_snapshot (h : t.WellLinked)
    (hexact : ∀ y, t.AtOrBelow x y → ∀ e ∈ (t.attributes y).entries, e.2.isExact = true) :
    (t.snapshot x).IsExact := by
  induction x using h.induction_from_leaves with
  | step x ih =>
    rw [h.snapshot_eq]
    refine Snapshot.IsExact.node (hexact x (AtOrBelow.refl t x)) fun s hs => ?_
    obtain ⟨c, hc, rfl⟩ := List.mem_map.1 hs
    exact ih c hc fun y hy => hexact y ((h.below_child hc).atOrBelow.trans hy)

/-- The tree `t'` is a copy of what belongs to `t`: each node that is attached has its place in `t'`, with
its kind, its attributes and its children in order, and `t'` has no other node. -/
structure IsCopy (t t' : Tree) (f : NodeId → NodeId) : Prop where
  root_eq : f t.root = t'.root
  bijOn : Set.BijOn f {x | t.isAttached x = true} {x' | x' < t'.size}
  kind_eq : ∀ x, t.isAttached x = true → t'.kind (f x) = t.kind x
  attributes_eq : ∀ x, t.isAttached x = true → t'.attributes (f x) = t.attributes x
  children_eq : ∀ x, t.isAttached x = true → t'.children (f x) = (t.children x).map f

/-- A tree laid out from what another looks like is a copy of it. -/
lemma WellLinked.exists_isCopy (h : t.WellLinked) :
    ∃ f, t.IsCopy (ofSnapshot (t.snapshot t.root)) f := by
  have h' := wellLinked_ofSnapshot (t.snapshot t.root)
  obtain ⟨f, hroot, g⟩ := h.exists_carries h' (snapshot_ofSnapshot (t.snapshot t.root)).symm
  refine ⟨f, hroot, ⟨fun x hx => ?_, fun x hx y hy heq => ?_, fun x' hx' => ?_⟩, fun x hx => ?_,
    fun x hx => ?_, fun x hx => ?_⟩
  · have hlt : f t.root < (ofSnapshot (t.snapshot t.root)).size := hroot ▸ h'.root_lt
    exact (g.atOrBelow h h' (h.isAttached_iff.1 hx)).lt hlt
  · exact g.injOn h h' (h.isAttached_iff.1 hx) (h.isAttached_iff.1 hy) heq
  · obtain ⟨x, hx, rfl⟩ := g.surjOn h h' (hroot ▸ atOrBelow_ofSnapshot hx')
    exact ⟨x, h.isAttached_iff.2 hx, rfl⟩
  · exact g.kind_eq x (h.isAttached_iff.1 hx)
  · exact g.attributes_eq x (h.isAttached_iff.1 hx)
  · exact g.children_eq x (h.isAttached_iff.1 hx)

end Tree

/-- A tree without floating point numbers, written as JSON text and read again, is a copy of what
belongs to the tree, and is written as the same text. -/
theorem jsonText_readBack (t : Tree) (h : t.WellLinked)
    (hexact : ∀ x, t.isAttached x = true → ∀ e ∈ (t.attributes x).entries, e.2.isExact = true)
    (style : Json.Style) (hstyle : style = .compact ∨ style = .pretty) :
    ∃ t' f, Tree.ofJson (t.toJson style) = .ok t' ∧ t'.WellLinked ∧ t.IsCopy t' f ∧
      t'.size = (t.descendants t.root).length ∧ ∀ style', t'.toJson style' = t.toJson style' := by
  have hblank : style.IsBlank := by
    rcases hstyle with rfl | rfl
    · exact Json.Style.isBlank_compact
    · exact Json.Style.isBlank_pretty
  have hs : (t.snapshot t.root).IsExact :=
    h.isExact_snapshot fun y hy => hexact y (h.isAttached_iff.2 hy)
  obtain ⟨f, hcopy⟩ := h.exists_isCopy
  refine ⟨Tree.ofSnapshot (t.snapshot t.root), f, ?_, Tree.wellLinked_ofSnapshot _, hcopy, ?_, ?_⟩
  · rw [Tree.ofJson, Tree.toJson, Snapshot.ofJson_toJson hs hblank]
    rfl
  · rw [Tree.size_ofSnapshot, h.length_descendants]
  · intro style'
    rw [Tree.toJson, Tree.snapshot_ofSnapshot, Tree.toJson]

/-- A file whose comment is full of escapes and whose block has the least integer; a node with a floating
point number was cut out. -/
def escapesAndLimits : Tree := ⟨⟨⟨[
  { kind := .file, children := [2, 1] },
  { kind := .block, parent := some 0,
    attributes := (KeyMap.empty.insert "least" (.int Int64.minValue)).insert "" .null },
  { kind := .comment, parent := some 0,
    attributes := KeyMap.empty.insert "\"\\" (.string "\u0000\n\"\\/é\u2028😀") },
  { kind := .constant, attributes := KeyMap.empty.insert "value" (.float 0.5) }]⟩⟩, 0⟩

theorem jsonText_readBack_escapes :
    escapesAndLimits.WellLinked ∧ escapesAndLimits.isAttached 3 = false ∧
    ∃ t' f, Tree.ofJson (escapesAndLimits.toJson .pretty) = .ok t' ∧ t'.WellLinked ∧
      escapesAndLimits.IsCopy t' f ∧ t'.size = 3 ∧
      ∀ style', t'.toJson style' = escapesAndLimits.toJson style' := by
  have h : escapesAndLimits.WellLinked := by decide
  have hexact : ∀ x, escapesAndLimits.isAttached x = true →
      ∀ e ∈ (escapesAndLimits.attributes x).entries, e.2.isExact = true := by
    intro x hx
    have hlt : x < escapesAndLimits.size := (h.isAttached_iff.1 hx).lt h.root_lt
    have hall : ∀ x < escapesAndLimits.size, escapesAndLimits.isAttached x = true →
      ∀ e ∈ (escapesAndLimits.attributes x).entries, e.2.isExact = true := by decide
    exact hall x hlt hx
  exact ⟨h, rfl, jsonText_readBack escapesAndLimits h hexact .pretty (Or.inr rfl)⟩

end VariantFold
