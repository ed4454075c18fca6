/-
Trees laid out from snapshots.

A tree is laid out by filling nodes from a stack: a node that is taken off the stack gets its attributes
and its children, which go on the stack to be filled in turn.  All the while every node stands for a
snapshot.  A node on the stack has no more of it than the kind, a node that is being filled has some of
the children, and any other node has all of it (`Stands`).  With the order of the names (`Numbered`) and
the count of the nodes this is the invariant `LaidOut`; it is kept by taking a node off the stack
(`LaidOut.filling`) and by adding a child (`Filling.addChild`), and so by a whole run (`LaidOut.fill`).

* `numbered_ofSnapshot`, `size_ofSnapshot`: the links agree, and there are no more nodes than needed;
* `snapshot_ofSnapshot`: the tree looks like the snapshot it was laid out from;
* `atOrBelow_ofSnapshot`, `descendants_ofSnapshot`: no node is cut out.
-/
import VariantFold.Proofs.Subtrees

namespace VariantFold

namespace Snapshot

/-- The number of nodes of several snapshots. -/
def sizes : List Snapshot → Nat
  | [] => 0
  | s :: rest => s.size + sizes rest

lemma size_eq (s : Snapshot) : s.size = sizes s.children + 1 := by
  obtain ⟨k, as, cs⟩ := s
  rw [size, children]
  induction cs with
  | nil => rfl
  | cons c cs ih =>
    rw [List.map_cons, List.foldr_cons, ih, sizes]
    omega

end Snapshot

namespace Tree

variable {t t' : Tree} {k : Kind} {x y : NodeId} {s s' : Snapshot} {rest : List Snapshot}
  {stack : List (NodeId × Snapshot)} {look : NodeId → Snapshot}

/-! ### A new child -/

/-- The tree `t'` is `t` with a new node of kind `k` after the children of `x`. -/
structure NewChild (t : Tree) (x : NodeId) (k : Kind) (t' : Tree) : Prop where
  wellLinked : t'.WellLinked
  size_eq : t'.size = t.size + 1
  root_eq : t'.root = t.root
  kind_new : t'.kind t.size = k
  kind_eq : ∀ y < t.size, t'.kind y = t.kind y
  attributes_eq : ∀ y < t.size, t'.attributes y = t.attributes y
  parent?_eq : ∀ y, t'.parent? y = if y = t.size then some x else t.parent? y
  children_eq : ∀ y, t'.children y = t.children y ++ if y = x then [t.size] else []

lemma WellLinked.newChild (h : t.WellLinked) (hx : x < t.size) (k : Kind) :
    t.NewChild x k ((t.create k).2.attach x t.size) := by
  obtain ⟨hwl, hparent, hchildren⟩ := h.create k
  have hsame := sameNodes_attach (t.create k).2 x t.size
  have hlt : t.size < (t.create k).2.size := by
    rw [size_create]
    exact Nat.lt_succ_self _
  have hroot : t.size ≠ (t.create k).2.root := by
    rw [root_create]
    exact (Nat.ne_of_lt h.root_lt).symm
  have hnot : ¬ (t.create k).2.AtOrBelow t.size x := by
    rw [h.atOrBelow_congr fun a _ => hparent a]
    intro hle
    exact absurd (h.atOrBelow_lt hle hx) (lt_irrefl _)
  have hold : ∀ y < t.size, (t.create k).2.node y = t.node y := by
    intro y hy
    rw [node_create, if_neg (Nat.ne_of_lt hy)]
  refine ⟨hwl.attach (hx.trans hlt) hlt hroot hnot, hsame.size_eq.trans (size_create t k),
    hsame.root_eq, ?_, fun y hy => ?_, fun y hy => ?_, fun y => ?_, fun y => ?_⟩
  · rw [hsame.kind_eq, kind, node_create, if_pos rfl]
  · rw [hsame.kind_eq, kind, hold y hy, kind]
  · rw [hsame.attributes_eq, attributes, hold y hy, attributes]
  · rw [parent?_attach hlt, hparent]
  · rw [hwl.children_attach (hx.trans hlt), hchildren, List.filter_eq_self.2]
    exact fun c hc => decide_eq_true (Nat.ne_of_lt (h.child_lt hc))

/-- A change of attributes leaves all else as it is. -/
lemma node_setAttributes (t : Tree) (x : NodeId) (as : Attributes) (y : NodeId) :
    (t.modify x fun node => { node with attributes := as }).kind y = t.kind y ∧
      (t.modify x fun node => { node with attributes := as }).children y = t.children y ∧
      (t.modify x fun node => { node with attributes := as }).parent? y = t.parent? y := by
  rw [kind, children, parent?, node_modify]
  split <;> exact ⟨rfl, rfl, rfl⟩

/-! ### Names -/

/-- Nodes are named in the order in which they are needed: the root first, and the children of a node one
after the other, after the node. -/
structure Numbered (t : Tree) : Prop where
  wellLinked : t.WellLinked
  root_eq : t.root = 0
  parent?_ne : ∀ y < t.size, y ≠ 0 → t.parent? y ≠ none
  children_range : ∀ y, ∃ n, y < n ∧ t.children y = List.range' n (t.children y).length

/-- The children of a node are the last nodes of the store. -/
def ChildrenLast (t : Tree) (x : NodeId) : Prop :=
  ∃ n, x < n ∧ n + (t.children x).length = t.size ∧
    t.children x = List.range' n (t.children x).length

namespace NewChild

variable (g : t.NewChild x k t')

include g

lemma children_ne (hy : y ≠ x) : t'.children y = t.children y := by
  rw [g.children_eq, if_neg hy, List.append_nil]

lemma lt_of_ne (hy : y < t'.size) (hne : y ≠ t.size) : y < t.size := by
  rw [g.size_eq] at hy
  exact Nat.lt_of_le_of_ne (Nat.le_of_lt_succ hy) hne

lemma childrenLast (h : t.ChildrenLast x) : t'.ChildrenLast x := by
  obtain ⟨n, hn, hcount, hrange⟩ := h
  refine ⟨n, hn, ?_, ?_⟩
  · rw [g.children_eq, if_pos rfl, List.length_append, g.size_eq, ← hcount]
    rfl
  · rw [g.children_eq, if_pos rfl, List.length_append, List.length_singleton,
      List.range'_1_concat, ← hrange, hcount]

lemma numbered (h : t.Numbered) (hlast : t.ChildrenLast x) : t'.Numbered where
  wellLinked := g.wellLinked
  root_eq := g.root_eq.trans h.root_eq
  parent?_ne y hy hy0 := by
    rw [g.parent?_eq]
    split
    · exact Option.some_ne_none x
    · rename_i hys
      exact h.parent?_ne y (g.lt_of_ne hy hys) hy0
  children_range y := by
    by_cases hyx : y = x
    · obtain ⟨n, hn, -, hrange⟩ := g.childrenLast hlast
      exact hyx ▸ ⟨n, hn, hrange⟩
    · rw [g.children_ne hyx]
      exact h.children_range y

end NewChild

lemma Numbered.setAttributes (h : t.Numbered) (x : NodeId) (as : Attributes) :
    (t.modify x fun node => { node with attributes := as }).Numbered where
  wellLinked := h.wellLinked.of_links (size_modify ..) (root_modify ..)
    (fun y => (node_setAttributes t x as y).2.1) (fun y => (node_setAttributes t x as y).2.2)
  root_eq := h.root_eq
  parent?_ne y hy := by
    rw [(node_setAttributes t x as y).2.2]
    exact h.parent?_ne y (size_modify .. ▸ hy)
  children_range y := by
    rw [(node_setAttributes t x as y).2.1]
    exact h.children_range y

/-! ### What nodes stand for -/

/-- Every node stands for a snapshot, which `look` tells.  The nodes on the stack have to be filled, and
`x` has to get children for the snapshots `rest`; all else is done. -/
structure Stands (t : Tree) (stack : List (NodeId × Snapshot)) (look : NodeId → Snapshot)
    (x : NodeId) (rest : List Snapshot) : Prop where
  pending : ∀ p ∈ stack, p.1 < t.size ∧ look p.1 = p.2 ∧ t.children p.1 = []
  nodup_stack : (stack.map Prod.fst).Nodup
  kind_eq : ∀ y < t.size, t.kind y = (look y).kind
  attributes_eq : ∀ y < t.size, y ∉ stack.map Prod.fst → t.attributes y = (look y).attributes
  children_eq : ∀ y < t.size, y ∉ stack.map Prod.fst →
    (t.children y).map look ++ (if y = x then rest else []) = (look y).children

/-- A node is taken off the stack and gets its attributes. -/
lemma Stands.setAttributes (h : t.Stands ((x, s') :: stack) look y []) :
    (t.modify x fun node => { node with attributes := s'.attributes }).Stands stack look x
      s'.children := by
  obtain ⟨hx, hlook, hnil⟩ := h.pending _ List.mem_cons_self
  dsimp only at hx hlook hnil
  have hsame := node_setAttributes t x s'.attributes
  have hmem : ∀ z, z ≠ x → z ∉ stack.map Prod.fst → z ∉ ((x, s') :: stack).map Prod.fst :=
    fun z hz hz' => mt List.mem_cons.1 (not_or.2 ⟨hz, hz'⟩)
  refine ⟨fun p hp => ?_, (List.nodup_cons.1 h.nodup_stack).2, fun z hz => ?_, fun z hz hz' => ?_,
    fun z hz hz' => ?_⟩
  · rw [size_modify, (hsame p.1).2.1]
    exact h.pending p (List.mem_cons_of_mem _ hp)
  · rw [(hsame z).1]
    exact h.kind_eq z (size_modify .. ▸ hz)
  · rw [attributes, node_modify]
    by_cases hzx : z = x
    · rw [hzx, hlook, if_pos ⟨rfl, hx⟩]
    · rw [if_neg fun hxz => hzx hxz.1.symm]
      exact h.attributes_eq z (size_modify .. ▸ hz) (hmem z hzx hz')
  · rw [(hsame z).2.1]
    by_cases hzx : z = x
    · rw [if_pos hzx, hzx, hnil, hlook, List.map_nil, List.nil_append]
    · rw [if_neg hzx]
      have hfull := h.children_eq z (size_modify .. ▸ hz) (hmem z hzx hz')
      rwa [ite_self] at hfull

/-- A child is added and goes on the stack. -/
lemma Stands.addChild (h : t.Stands stack look x (s' :: rest)) (hwl : t.WellLinked) (hx : x < t.size)
    (hstack : x ∉ stack.map Prod.fst) (g : t.NewChild x s'.kind t') :
    t'.Stands ((t.size, s') :: stack) (Function.update look t.size s') x rest := by
  -- the new name was not in use, so the other nodes stand for what they stood for
  have hlook : ∀ y < t.size, Function.update look t.size s' y = look y := fun y hy =>
    Function.update_of_ne (Nat.ne_of_lt hy) ..
  have hmem : t.size ∉ stack.map Prod.fst := by
    intro hmem
    obtain ⟨p, hp, hpx⟩ := List.mem_map.1 hmem
    exact absurd (h.pending p hp).1 (hpx ▸ lt_irrefl _)
  refine ⟨fun p hp => ?_, List.nodup_cons.2 ⟨hmem, h.nodup_stack⟩, fun y hy => ?_,
    fun y hy hy' => ?_, fun y hy hy' => ?_⟩
  · rw [g.size_eq]
    rcases List.mem_cons.1 hp with rfl | hp
    · refine ⟨Nat.lt_succ_self _, Function.update_self .., ?_⟩
      rw [g.children_ne (Nat.ne_of_lt hx).symm, children, node_of_le le_rfl]
      rfl
    · obtain ⟨hlt, heq, hnil⟩ := h.pending p hp
      have hpx : p.1 ≠ x := fun heq => hstack (heq ▸ List.mem_map_of_mem hp)
      exact ⟨Nat.lt_succ_of_lt hlt, (hlook _ hlt).trans heq, (g.children_ne hpx).trans hnil⟩
  · by_cases hys : y = t.size
    · rw [hys, g.kind_new, Function.update_self]
    · have hlt := g.lt_of_ne hy hys
      rw [g.kind_eq y hlt, hlook y hlt, h.kind_eq y hlt]
  · obtain ⟨hys, hy'⟩ := not_or.1 (mt List.mem_cons.2 hy')
    have hlt := g.lt_of_ne hy hys
    rw [g.attributes_eq y hlt, hlook y hlt, h.attributes_eq y hlt hy']
  · obtain ⟨hys, hy'⟩ := not_or.1 (mt List.mem_cons.2 hy')
    have hlt := g.lt_of_ne hy hys
    have hmap : (t.children y).map (Function.update look t.size s') = (t.children y).map look :=
      List.map_congr_left fun c hc => hlook c (hwl.child_lt hc)
    rw [g.children_eq, List.map_append, hmap, hlook y hlt, ← h.children_eq y hlt hy']
    by_cases hyx : y = x
    · simp [hyx]
    · simp [hyx]

/-! ### The invariant -/

/-- The tree `t` is being laid out from `s`. -/
structure LaidOut (s : Snapshot) (t : Tree) (stack : List (NodeId × Snapshot))
    (look : NodeId → Snapshot) (x : NodeId) (rest : List Snapshot) : Prop where
  numbered : t.Numbered
  stands : t.Stands stack look x rest
  look_root : look 0 = s
  /-- The nodes that are still to be added: all below those on the stack, and `rest`. -/
  size_eq : t.size + Snapshot.sizes (stack.map Prod.snd) + Snapshot.sizes rest =
    s.size + stack.length

/-- The node `x` is being filled. -/
structure Filling (s : Snapshot) (t : Tree) (stack : List (NodeId × Snapshot))
    (look : NodeId → Snapshot) (x : NodeId) (rest : List Snapshot) : Prop
    extends LaidOut s t stack look x rest where
  lt : x < t.size
  not_mem : x ∉ stack.map Prod.fst
  last : t.ChildrenLast x

/-- The node on top of the stack is being filled next. -/
lemma LaidOut.filling (h : LaidOut s t ((x, s') :: stack) look y []) :
    Filling s (t.modify x fun node => { node with attributes := s'.attributes }) stack look x
      s'.children where
  numbered := h.numbered.setAttributes x s'.attributes
  stands := h.stands.setAttributes
  look_root := h.look_root
  size_eq := by
    have hcount := h.size_eq
    simp only [List.map_cons, Snapshot.sizes, s'.size_eq, List.length_cons] at hcount
    rw [size_modify]
    omega
  lt := by
    rw [size_modify]
    exact (h.stands.pending _ List.mem_cons_self).1
  not_mem := (List.nodup_cons.1 h.stands.nodup_stack).1
  last := by
    obtain ⟨hx, -, hnil⟩ := h.stands.pending _ List.mem_cons_self
    refine ⟨t.size, hx, ?_, ?_⟩ <;> rw [(node_setAttributes t x s'.attributes x).2.1, hnil]
    · exact (size_modify ..).symm
    · rfl

/-- The node that is being filled gets a child. -/
lemma Filling.addChild (h : Filling s t stack look x (s' :: rest)) :
    Filling s ((t.create s'.kind).2.attach x t.size) ((t.size, s') :: stack)
      (Function.update look t.size s') x rest := by
  have hwl := h.numbered.wellLinked
  have g := hwl.newChild h.lt s'.kind
  have hzero : 0 < t.size := h.numbered.root_eq ▸ hwl.root_lt
  have hcount := h.size_eq
  refine ⟨⟨g.numbered h.numbered h.last, h.stands.addChild hwl h.lt h.not_mem g, ?_, ?_⟩, ?_, ?_,
    g.childrenLast h.last⟩
  · rw [Function.update_of_ne (Nat.ne_of_lt hzero)]
    exact h.look_root
  · simp only [List.map_cons, Snapshot.sizes, List.length_cons, g.size_eq] at hcount ⊢
    omega
  · rw [g.size_eq]
    exact Nat.lt_succ_of_lt h.lt
  · exact mt List.mem_cons.1 (not_or.2 ⟨Nat.ne_of_lt h.lt, h.not_mem⟩)

/-! ### A whole run -/

/-- The node that is being filled gets all its children. -/
lemma Filling.addChildren (h : Filling s t stack look x rest) :
    ∃ look', Filling s (t.addChildren x stack rest).1 (t.addChildren x stack rest).2 look' x [] := by
  induction rest generalizing t stack look with
  | nil => exact ⟨look, h⟩
  | cons s' rest ih => exact ih h.addChild

/-- The children of a node all go on the stack. -/
lemma sizes_addChildren (x : NodeId) (t : Tree) (stack : List (NodeId × Snapshot))
    (rest : List Snapshot) :
    Snapshot.sizes ((t.addChildren x stack rest).2.map Prod.snd) =
      Snapshot.sizes (stack.map Prod.snd) + Snapshot.sizes rest := by
  induction rest generalizing t stack with
  | nil => rfl
  | cons s' rest ih =>
    rw [Tree.addChildren, ih, List.map_cons, Snapshot.sizes, Snapshot.sizes, ← Nat.add_assoc,
      Nat.add_comm s'.size]

/-- A run empties the stack: the limit allows for all nodes at or below those on it. -/
lemma LaidOut.fill {n : Nat} (h : LaidOut s t stack look x [])
    (hn : Snapshot.sizes (stack.map Prod.snd) ≤ n) :
    ∃ look' x', LaidOut s (t.fill n stack) [] look' x' [] := by
  induction n generalizing t stack look x with
  | zero =>
    cases stack with
    | nil => exact ⟨look, x, h⟩
    | cons p stack =>
      rw [List.map_cons, Snapshot.sizes, p.2.size_eq] at hn
      omega
  | succ n ih =>
    cases stack with
    | nil => exact ⟨look, x, h⟩
    | cons p stack =>
      obtain ⟨y, s'⟩ := p
      -- one step for the node itself; what is below it goes on the stack
      rw [List.map_cons, Snapshot.sizes, s'.size_eq] at hn
      obtain ⟨look', h'⟩ := h.filling.addChildren
      refine ih h'.toLaidOut ?_
      rw [sizes_addChildren]
      omega

/-- When nothing is left to be filled, every node looks like what it stands for. -/
lemma LaidOut.snapshot_eq (h : LaidOut s t [] look x []) :
    ∀ y < t.size, t.snapshot y = look y := by
  intro y
  have hwl := h.numbered.wellLinked
  induction y using hwl.induction_from_leaves with
  | step y ih =>
    intro hy
    have hchildren := h.stands.children_eq y hy List.not_mem_nil
    rw [ite_self, List.append_nil] at hchildren
    have hmap : (t.children y).map t.snapshot = (t.children y).map look :=
      List.map_congr_left fun c hc => ih c hc (hwl.child_lt hc)
    rw [hwl.snapshot_eq, hmap, hchildren, h.stands.kind_eq y hy,
      h.stands.attributes_eq y hy List.not_mem_nil]
    cases look y
    rfl

/-! ### The tree -/

lemma numbered_single (k : Kind) : (single k).Numbered where
  wellLinked := wellLinked_single k
  root_eq := rfl
  parent?_ne y hy hne := absurd (Nat.lt_one_iff.1 hy) hne
  children_range y := by
    have hnil : (single k).children y = [] := by
      by_cases hy : y < (single k).size
      · obtain rfl := Nat.lt_one_iff.1 hy
        rfl
      · rw [children, node_of_le (not_lt.1 hy)]
        rfl
    rw [hnil]
    exact ⟨y + 1, Nat.lt_succ_self y, rfl⟩

lemma exists_laidOut (s : Snapshot) : ∃ look x, LaidOut s (ofSnapshot s) [] look x [] := by
  have hzero : ∀ y < (single s.kind).size, y = 0 := fun y hy => Nat.lt_one_iff.1 hy
  have hstands : (single s.kind).Stands [(0, s)] (fun _ => s) 0 [] := by
    refine ⟨fun p hp => ?_, List.nodup_singleton 0, fun y hy => ?_, fun y hy hmem => ?_,
      fun y hy hmem => ?_⟩
    · obtain rfl := List.mem_singleton.1 hp
      exact ⟨Nat.one_pos, rfl, rfl⟩
    · obtain rfl := hzero y hy
      rfl
    · exact absurd (List.mem_singleton.2 (hzero y hy)) hmem
    · exact absurd (List.mem_singleton.2 (hzero y hy)) hmem
  have hcount : 1 + (s.size + 0) + 0 = s.size + 1 := by omega
  have hstart : LaidOut s (single s.kind) [(0, s)] (fun _ => s) 0 [] :=
    ⟨numbered_single s.kind, hstands, rfl, hcount⟩
  exact hstart.fill le_rfl

lemma numbered_ofSnapshot (s : Snapshot) : (ofSnapshot s).Numbered := by
  obtain ⟨_, _, h⟩ := exists_laidOut s
  exact h.numbered

lemma wellLinked_ofSnapshot (s : Snapshot) : (ofSnapshot s).WellLinked :=
  (numbered_ofSnapshot s).wellLinked

lemma size_ofSnapshot (s : Snapshot) : (ofSnapshot s).size = s.size := by
  obtain ⟨_, _, h⟩ := exists_laidOut s
  exact h.size_eq

lemma snapshot_ofSnapshot (s : Snapshot) : (ofSnapshot s).snapshot (ofSnapshot s).root = s := by
  obtain ⟨look, _, h⟩ := exists_laidOut s
  rw [h.snapshot_eq _ h.numbered.wellLinked.root_lt, h.numbered.root_eq, h.look_root]

lemma atOrBelow_ofSnapshot (hy : y < (ofSnapshot s).size) :
    (ofSnapshot s).AtOrBelow (ofSnapshot s).root y := by
  have h := numbered_ofSnapshot s
  induction y using h.wellLinked.induction_from_top with
  | top y hnone =>
    have hzero : y = 0 := by
      by_contra hne
      exact h.parent?_ne y hy hne hnone
    rw [h.root_eq, hzero]
    exact AtOrBelow.refl ..
  | step y p hp ih => exact (ih (h.wellLinked.parent_lt hp)).trans (below_of_parent hp).atOrBelow

/-- The walk from the root visits every node once. -/
lemma descendants_ofSnapshot (s : Snapshot) :
    ((ofSnapshot s).descendants (ofSnapshot s).root).Perm (List.range (ofSnapshot s).size) := by
  have h := wellLinked_ofSnapshot s
  refine (List.perm_ext_iff_of_nodup (h.nodup_descendants _) List.nodup_range).2 fun y => ?_
  rw [h.mem_descendants, List.mem_range]
  exact ⟨fun hy => hy.lt h.root_lt, atOrBelow_ofSnapshot⟩

/-- The tree that is laid out from a snapshot has a node for each of the snapshot and no other, all of them
part of the tree.  Its root is the first node, and the children of a node have consecutive names after
its own, in order.  It looks like the snapshot. -/
theorem ofSnapshot_layout (s : Snapshot) :
    (ofSnapshot s).WellLinked ∧ (ofSnapshot s).root = 0 ∧ (ofSnapshot s).size = s.size ∧
      ((ofSnapshot s).descendants (ofSnapshot s).root).Perm (List.range (ofSnapshot s).size) ∧
      (∀ y < (ofSnapshot s).size, (ofSnapshot s).isAttached y = true) ∧
      (∀ y, ∃ n, y < n ∧
        (ofSnapshot s).children y = List.range' n ((ofSnapshot s).children y).length) ∧
      (ofSnapshot s).snapshot (ofSnapshot s).root = s := by
  have h := numbered_ofSnapshot s
  refine ⟨h.wellLinked, h.root_eq, size_ofSnapshot s, descendants_ofSnapshot s, ?_, h.children_range,
    snapshot_ofSnapshot s⟩
  intro y hy
  exact h.wellLinked.isAttached_iff.2 (atOrBelow_ofSnapshot hy)

end Tree

end VariantFold
