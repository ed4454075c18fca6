/-
What builders build.

A builder takes nodes without a parent, its parts, and gives one such node.  `Builds` says what that
node looks like, given what the parts look like.  The main result is `Program.tree_eq`: the tree of a
program is well-linked and looks like the program.
-/
import VariantFold.Proofs.Program

namespace VariantFold

/-! ### Shapes -/

namespace Shape

/-- What an identifier looks like. -/
def identifier (name : String) : Snapshot :=
  .node .identifier (KeyMap.empty.insert Attr.name (.string name)) []

/-- What a dotted name looks like. -/
def dottedName (name : String) : Snapshot :=
  .node .dottedName KeyMap.empty ((Text.fields '.' name).map identifier)

/-- What a call looks like. -/
def call (callee : String) (args : List Snapshot) : Snapshot :=
  .node .call KeyMap.empty [.node .operand KeyMap.empty [dottedName callee],
    .node .params KeyMap.empty args]

/-- What a literal looks like. -/
def literal (value : Scalar) : Snapshot := .node .constant value.literalAttributes []

/-- What an entry of an object literal looks like. -/
def entry (e : String × Snapshot) : Snapshot :=
  .node .keyValue (KeyMap.empty.insert Attr.key (.string e.1)) [.node .value KeyMap.empty [e.2]]

/-- What an object literal looks like. -/
def map (entries : List (String × Snapshot)) : Snapshot :=
  .node .map KeyMap.empty (entries.map entry)

/-- What an operation with two operands looks like. -/
def operation (operator : String) (first second : Snapshot) : Snapshot :=
  .node .operation (KeyMap.empty.insert Attr.operator (.string operator))
    [.node .first KeyMap.empty [first], .node .second KeyMap.empty [second]]

/-- What a block looks like. -/
def block (statements : List Snapshot) : Snapshot := .node .block KeyMap.empty statements

/-- What the branches of an `if` statement look like. -/
def branches (whenTrue : List Snapshot) (whenFalse : Option (List Snapshot)) : List Snapshot :=
  .node .statement KeyMap.empty [block whenTrue] ::
    (whenFalse.map fun ss => .node .elseStatement KeyMap.empty [block ss]).toList

/-- What an `if` statement looks like. -/
def ifStatement (condition : Snapshot) (whenTrue : List Snapshot)
    (whenFalse : Option (List Snapshot)) : Snapshot :=
  .node .loop (KeyMap.empty.insert Attr.loopType (.string Build.ifType))
    (.node .expression KeyMap.empty [condition] :: branches whenTrue whenFalse)

end Shape

variable {namespaces : List String}

/-- What an expression looks like. -/
def Expr.shape : Expr namespaces → Snapshot :=
  fold Shape.call fun space key entries =>
    Shape.call (space.callee .select) [Shape.literal (.string key), Shape.map entries]

/-- What a condition looks like. -/
def Condition.shape : Condition namespaces → Snapshot
  | value space key => Shape.call (space.callee .get) [Shape.literal (.string key)]
  | comparison space key operator literal => Shape.operation operator.name
    (Shape.call (space.callee .get) [Shape.literal (.string key)]) (Shape.literal literal)
  | oneOf space key candidates => Shape.call (space.callee .isSet)
    [Shape.literal (.string key), Shape.literal (.string candidates)]

/-- What a statement looks like. -/
def Statement.shape : Statement namespaces → Snapshot :=
  fold Expr.shape (fun c => Shape.ifStatement c.shape) Shape.block

lemma Expr.shape_call (callee : String) (args : List (Expr namespaces)) :
    (call callee args).shape = Shape.call callee (args.map shape) := by
  rw [shape, fold]

lemma Expr.shape_select (space : Space namespaces) (key : String)
    (entries : List (String × Expr namespaces)) :
    (select space key entries).shape = Shape.call (space.callee .select)
      [Shape.literal (.string key), Shape.map (entries.map fun e => (e.1, e.2.shape))] := by
  rw [shape, fold]

lemma Statement.shape_expression (e : Expr namespaces) : (expression e).shape = e.shape := by
  rw [shape, fold]

lemma Statement.shape_ifThen (c : Condition namespaces) (whenTrue : List (Statement namespaces))
    (whenFalse : Option (List (Statement namespaces))) :
    (ifThen c whenTrue whenFalse).shape =
      Shape.ifStatement c.shape (whenTrue.map shape) (whenFalse.map (List.map shape)) := by
  rw [shape, fold_ifThen]

lemma Statement.shape_block (statements : List (Statement namespaces)) :
    (block statements).shape = Shape.block (statements.map shape) := by
  rw [shape, fold]

/-- What the tree of a program looks like. -/
def Program.shape (program : Program namespaces) : Snapshot :=
  .node .file KeyMap.empty (program.map Statement.shape)

/-! ### Parts -/

namespace Tree

variable {t u : Tree} {l l' rest : List (NodeId × Snapshot)} {n : NodeId} {k : Kind}
  {as : Attributes} {ss : List Snapshot}

/-- The tree `u` has grown from `t` and has the parts `l`: new nodes without a parent, given with what
they look like. -/
structure Parts (t u : Tree) (l : List (NodeId × Snapshot)) : Prop where
  wellLinked_before : t.WellLinked
  grown : t.Grown u
  nodup : (l.map Prod.fst).Nodup
  added : ∀ e ∈ l, t.size ≤ e.1 ∧ e.1 < u.size ∧ u.parent? e.1 = none
  snapshot_eq : ∀ e ∈ l, u.snapshot e.1 = e.2

namespace Parts

lemma perm (h : t.Parts u l) (hperm : l.Perm l') : t.Parts u l' where
  wellLinked_before := h.wellLinked_before
  grown := h.grown
  nodup := (hperm.map Prod.fst).nodup_iff.1 h.nodup
  added e he := h.added e (hperm.mem_iff.2 he)
  snapshot_eq e he := h.snapshot_eq e (hperm.mem_iff.2 he)

/-- Parts are nobody's children. -/
lemma filter_children (h : t.Parts u l) (y : NodeId) :
    (u.children y).filter (· ∉ l.map Prod.fst) = u.children y := by
  refine List.filter_eq_self.2 fun c hc => decide_eq_true fun hmem => ?_
  obtain ⟨e, he, rfl⟩ := List.mem_map.1 hmem
  have hparent := h.grown.wellLinked.parent_of_mem hc
  rw [(h.added e he).2.2] at hparent
  exact absurd hparent (by simp)

lemma ne_root {e : NodeId × Snapshot} (h : t.Parts u l) (he : e ∈ l) : e.1 ≠ u.root := fun heq =>
  absurd h.wellLinked_before.root_lt (not_lt.2 (h.grown.root_eq ▸ heq ▸ (h.added e he).1))

lemma left (h : t.Parts u (l ++ rest)) : t.Parts u l where
  wellLinked_before := h.wellLinked_before
  grown := h.grown
  nodup := by
    have hnd := h.nodup
    rw [List.map_append] at hnd
    exact hnd.of_append_left
  added e he := h.added e (List.mem_append_left rest he)
  snapshot_eq e he := h.snapshot_eq e (List.mem_append_left rest he)

/-- Parts can be put below a new node, which is then a part. -/
lemma node (h : t.Parts u (l ++ rest)) (k : Kind) :
    t.Parts (u.createWith k (l.map Prod.fst)).2
      (((u.createWith k (l.map Prod.fst)).1, .node k KeyMap.empty (l.map Prod.snd)) :: rest) := by
  have hu := h.grown.wellLinked
  have hnd := h.nodup
  rw [List.map_append, List.nodup_append] at hnd
  have hcs : ∀ c ∈ l.map Prod.fst, t.size ≤ c ∧ c < u.size ∧ u.parent? c = none := by
    intro c hc
    obtain ⟨e, he, rfl⟩ := List.mem_map.1 hc
    exact h.added e (List.mem_append_left rest he)
  have hgrown := h.grown.createWith h.wellLinked_before k
    (fun c hc => ⟨(hcs c hc).1, (hcs c hc).2.1⟩) hnd.1
  have hroot : ∀ c ∈ l.map Prod.fst, c ≠ u.root := by
    intro c hc
    obtain ⟨e, he, rfl⟩ := List.mem_map.1 hc
    exact h.left.ne_root he
  obtain ⟨hnew, hc⟩ := hu.createWith k (fun c hc => ⟨(hcs c hc).2.1, hroot c hc⟩) hnd.1
  rw [hnew]
  generalize (u.createWith k (l.map Prod.fst)).2 = u' at hc hgrown ⊢
  have htop : ∀ e ∈ l ++ rest, ∀ y, ¬ u.Below y e.1 := fun e he y =>
    not_below_of_parent_none (h.added e he).2.2
  -- nothing changes below a part
  have hsame : ∀ e ∈ rest, u.SameBelow u' e.1 := by
    intro e he
    refine hc.sameBelow hu (h.added e (List.mem_append_right l he)).2.1 fun c hc => ?_
    obtain ⟨e', he', rfl⟩ := List.mem_map.1 hc
    exact htop e' (List.mem_append_left rest he') e.1
  refine ⟨h.wellLinked_before, hgrown, ?_, ?_, ?_⟩
  · rw [List.map_cons, List.nodup_cons]
    refine ⟨fun hmem => ?_, hnd.2.1⟩
    obtain ⟨e, he, heq⟩ := List.mem_map.1 hmem
    exact absurd (h.added e (List.mem_append_right l he)).2.1 (heq ▸ lt_irrefl _)
  · intro e he
    rcases List.mem_cons.1 he with rfl | he
    · exact ⟨h.grown.size_le, hc.size_eq ▸ Nat.lt_succ_self _, hc.parent_new fun c hc => (hcs c hc).2.1⟩
    · obtain ⟨hle, hlt, hnone⟩ := h.added e (List.mem_append_right l he)
      refine ⟨hle, hlt.trans (hc.size_eq ▸ Nat.lt_succ_self _), ?_⟩
      rw [hc.parent_eq, if_neg fun hmem => ?_, hnone]
      exact hnd.2.2 e.1 hmem e.1 (List.mem_map_of_mem he) rfl
  · intro e he
    rcases List.mem_cons.1 he with rfl | he
    · rw [hc.snapshot_new hu fun c hc => (hcs c hc).2, List.map_map]
      congr 1
      exact List.map_congr_left fun e he => h.snapshot_eq e (List.mem_append_left rest he)
    · exact ((hsame e he).snapshot_eq hu hc.wellLinked).trans
        (h.snapshot_eq e (List.mem_append_right l he))

/-- An attribute of a part can be set. -/
lemma set (h : t.Parts u ((n, .node k as ss) :: rest)) (name : String) (value : Scalar) :
    t.Parts (u.set n name value) ((n, .node k (as.insert name value) ss) :: rest) := by
  have hu := h.grown.wellLinked
  have hu' := hu.set n name value
  obtain ⟨hle, hlt, hnone⟩ := h.added _ List.mem_cons_self
  have hkeep : ∀ {z}, ¬ u.AtOrBelow z n → u.SameBelow (u.set n name value) z := by
    intro z hz y hy
    have hne : y ≠ n := fun heq => hz (heq ▸ hy)
    refine ⟨⟨kind_set .., ?_⟩, children_set ..⟩
    rw [attributes_set hlt, if_neg hne]
  refine ⟨h.wellLinked_before, h.grown.set hle name value, h.nodup, fun e he => ?_, fun e he => ?_⟩
  · rw [size_set, parent?_set]
    rcases List.mem_cons.1 he with rfl | he
    · exact ⟨hle, hlt, hnone⟩
    · exact h.added e (List.mem_cons_of_mem _ he)
  · rcases List.mem_cons.1 he with rfl | he
    · have hbefore := h.snapshot_eq _ List.mem_cons_self
      rw [hu.snapshot_eq] at hbefore
      obtain ⟨hk, has, hss⟩ := Snapshot.node.inj hbefore
      rw [hu'.snapshot_eq, kind_set, attributes_set hlt, if_pos rfl, children_set, hk, has, ← hss]
      congr 1
      refine List.map_congr_left fun c hc => ?_
      refine (hkeep fun hcn => ?_).snapshot_eq hu hu'
      exact hu.not_atOrBelow_of_below (hu.below_child hc) hcn
    · rw [← h.snapshot_eq e (List.mem_cons_of_mem _ he)]
      refine (hkeep fun hen => ?_).snapshot_eq hu hu'
      rw [atOrBelow_of_parent_none hnone] at hen
      refine (List.nodup_cons.1 h.nodup).1 ?_
      rw [show (n, Snapshot.node k as ss).1 = e.1 from hen]
      exact List.mem_map_of_mem he

end Parts

end Tree

/-! ### Builders -/

namespace Build

variable {α β : Type} {b : Build α} {f : α → Build β} {l o l' : List (NodeId × Snapshot)}
  {Q : α → List (NodeId × Snapshot) → Prop} {R : β → List (NodeId × Snapshot) → Prop}
  {as : Attributes} {ss : List Snapshot}

/-- From the parts `l` a builder makes parts that fit its result.  Other parts stay. -/
def Makes (b : Build α) (l : List (NodeId × Snapshot))
    (Q : α → List (NodeId × Snapshot) → Prop) : Prop :=
  ∀ (t u : Tree) (rest : List (NodeId × Snapshot)), t.Parts u (l ++ rest) →
    ∃ l', Q (b.run u).1 l' ∧ t.Parts (b.run u).2 (l' ++ rest)

/-- From the parts `l` a builder makes one part, which looks like `s`. -/
def Builds (b : Build NodeId) (l : List (NodeId × Snapshot)) (s : Snapshot) : Prop :=
  b.Makes l fun n l' => l' = [(n, s)]

namespace Makes

lemma pure {a : α} (h : Q a l) : (Pure.pure a : Build α).Makes l Q :=
  fun _ _ _ hparts => ⟨l, h, hparts⟩

/-- One builder after another, which may take older parts `o` too. -/
lemma bind (h : b.Makes l Q) (hf : ∀ a l', Q a l' → (f a).Makes (l' ++ o) R) :
    (b >>= f).Makes (l ++ o) R := by
  intro t u rest hparts
  rw [List.append_assoc] at hparts
  obtain ⟨l', hQ, hparts'⟩ := h t u (o ++ rest) hparts
  rw [← List.append_assoc] at hparts'
  exact hf _ l' hQ t (b.run u).2 rest hparts'

lemma perm (h : b.Makes l Q) (hperm : l'.Perm l) : b.Makes l' Q :=
  fun t u rest hparts => h t u rest (hparts.perm (hperm.append_right rest))

variable {g : α → Snapshot} {xs : List α}

/-- Builders for the elements of a list, each from its own parts. -/
lemma mapM {f : α → Build NodeId} {parts : α → List (NodeId × Snapshot)}
    (hf : ∀ a ∈ xs, (f a).Builds (parts a) (g a)) :
    (xs.mapM f).Makes (xs.flatMap parts)
      fun ns l => ns = l.map Prod.fst ∧ l.map Prod.snd = xs.map g := by
  induction xs with
  | nil => exact pure ⟨rfl, rfl⟩
  | cons a xs ih =>
    rw [List.mapM_cons, List.flatMap_cons]
    refine (hf a List.mem_cons_self).bind ?_
    rintro n _ rfl
    refine ((ih fun a ha => hf a (List.mem_cons_of_mem _ ha)).bind
      (o := [(n, g a)]) ?_).perm List.perm_append_comm
    rintro _ l ⟨rfl, hl⟩
    refine (pure (l := (n, g a) :: l) ⟨rfl, ?_⟩).perm List.perm_append_comm
    rw [List.map_cons, hl, List.map_cons]

/-- Builders for the elements of a list, all from nothing. -/
lemma all {f : α → Build NodeId} (hf : ∀ a ∈ xs, (f a).Builds [] (g a)) :
    (xs.mapM f).Makes [] fun ns l => ns = l.map Prod.fst ∧ l.map Prod.snd = xs.map g := by
  have h := mapM hf
  rwa [List.flatMap_eq_nil_iff.2 fun _ _ => rfl] at h

end Makes

lemma builds_node (k : Kind) (l : List (NodeId × Snapshot)) :
    (node k (l.map Prod.fst)).Builds l (.node k KeyMap.empty (l.map Prod.snd)) :=
  fun _ _ _ hparts => ⟨_, rfl, hparts.node k⟩

lemma makes_set {n : NodeId} {k : Kind} (name : String) (value : Scalar) :
    (set n name value).Makes [(n, .node k as ss)]
      fun _ l' => l' = [(n, .node k (as.insert name value) ss)] :=
  fun _ _ _ hparts => ⟨_, rfl, hparts.set name value⟩

/-- Giving an attribute to what has been built. -/
lemma Builds.set {b : Build NodeId} {k : Kind} (h : b.Builds l (.node k as ss)) (name : String)
    (value : Scalar) : Builds (do
      let n ← b
      Build.set n name value
      return n) l (.node k (as.insert name value) ss) := by
  rw [← List.append_nil l]
  refine Makes.bind h ?_
  rintro n _ rfl
  refine (makes_set name value).bind ?_
  rintro - _ rfl
  exact Makes.pure rfl

/-! ### The shapes -/

lemma builds_identifier (name : String) : (identifier name).Builds [] (Shape.identifier name) :=
  (builds_node .identifier []).set Attr.name (.string name)

lemma builds_dottedName (name : String) : (dottedName name).Builds [] (Shape.dottedName name) := by
  have hparts := Makes.all fun part (_ : part ∈ Text.fields '.' name) => builds_identifier part
  refine hparts.bind (o := []) ?_
  rintro _ l ⟨rfl, hl⟩
  rw [List.append_nil, Shape.dottedName, ← hl]
  exact builds_node .dottedName l

lemma builds_call (callee : String) (l : List (NodeId × Snapshot)) :
    (call callee (l.map Prod.fst)).Builds l (Shape.call callee (l.map Prod.snd)) := by
  refine (builds_dottedName callee).bind (o := l) ?_
  rintro name _ rfl
  refine (builds_node .operand [(name, _)]).bind ?_
  rintro operand _ rfl
  refine ((builds_node .params l).bind (o := [(operand, _)]) ?_).perm List.perm_append_comm
  rintro params _ rfl
  exact (builds_node .call [(operand, _), (params, _)]).perm (List.Perm.swap ..)

lemma builds_literal (value : Scalar) : (literal value).Builds [] (Shape.literal value) := by
  have hconstant : ∀ (type : ConstantType) (text : String),
      (constant type text).Builds [] (.node .constant (type.attributes text) []) := fun type text =>
    ((builds_node .constant []).set Attr.constantType (.string type.name)).set Attr.value
      (.string text)
  cases value with
  | null => exact hconstant .null "null"
  | bool b => exact hconstant .boolean _
  | int n => exact (hconstant .number _).set Attr.detail (.string intDetail)
  | float x => exact (hconstant .number _).set Attr.detail (.string floatDetail)
  | string s => exact (hconstant .string s).set Attr.detail (.string stringDetail)

lemma builds_map (entries : List (String × NodeId × Snapshot)) :
    (map (entries.map fun e => (e.1, e.2.1))).Builds (entries.map Prod.snd)
      (Shape.map (entries.map fun e => (e.1, e.2.2))) := by
  have hentry : ∀ e ∈ entries, Builds (do
      let value ← node .value [e.2.1]
      let pair ← node .keyValue [value]
      set pair Attr.key (.string e.1)
      return pair) [e.2] (Shape.entry (e.1, e.2.2)) := by
    intro e _
    refine (builds_node .value [e.2]).bind (o := []) ?_
    rintro value _ rfl
    exact (builds_node .keyValue [(value, _)]).set Attr.key (.string e.1)
  have hpairs := Makes.mapM hentry
  rw [← List.map_eq_flatMap] at hpairs
  rw [← List.append_nil (entries.map Prod.snd), Build.map, List.mapM_map]
  refine hpairs.bind ?_
  rintro _ l ⟨rfl, hl⟩
  rw [List.append_nil, Shape.map, List.map_map]
  have hnode := builds_node .map l
  rwa [hl] at hnode

lemma builds_operation (operator : String) (first second : NodeId × Snapshot) :
    (operation operator first.1 second.1).Builds [second, first]
      (Shape.operation operator first.2 second.2) := by
  refine ((builds_node .first [first]).bind (o := [second]) ?_).perm (List.Perm.swap ..)
  rintro one _ rfl
  refine ((builds_node .second [second]).bind (o := [(one, _)]) ?_).perm (List.Perm.swap ..)
  rintro two _ rfl
  exact ((builds_node .operation [(one, _), (two, _)]).set Attr.operator
    (.string operator)).perm (List.Perm.swap ..)

lemma builds_block (l : List (NodeId × Snapshot)) :
    (block (l.map Prod.fst)).Builds l (Shape.block (l.map Prod.snd)) := builds_node .block l

/-- The parts of the other branch come first, then those of the branch, then the condition: they are
built in the opposite order. -/
lemma builds_ifStatement (condition : NodeId × Snapshot) (l : List (NodeId × Snapshot))
    (l' : Option (List (NodeId × Snapshot))) :
    (ifStatement condition.1 (l.map Prod.fst) (l'.map (List.map Prod.fst))).Builds
      (l'.getD [] ++ (l ++ [condition]))
      (Shape.ifStatement condition.2 (l.map Prod.snd) (l'.map (List.map Prod.snd))) := by
  have hperm : (l'.getD [] ++ (l ++ [condition])).Perm ([condition] ++ (l ++ l'.getD [])) := by
    rw [← List.append_assoc]
    exact List.perm_append_comm.trans (List.perm_append_comm.append_left _)
  refine Makes.perm (Makes.bind (builds_node .expression [condition]) ?_) hperm
  rintro expression _ rfl
  have hrest (e : NodeId × Snapshot) :
      ([e] ++ (l ++ l'.getD [])).Perm (l ++ (l'.getD [] ++ [e])) := by
    rw [← List.append_assoc l]
    exact List.perm_append_comm
  refine Makes.perm (Makes.bind (builds_block l) ?_) (hrest _)
  rintro block _ rfl
  refine Makes.bind (builds_node .statement [(block, _)]) ?_
  rintro branch _ rfl
  rcases l' with _ | l'
  · exact ((builds_node .loop [(expression, _), (branch, _)]).set Attr.loopType
      (.string ifType)).perm (List.Perm.swap ..)
  · have hlast (e e' : NodeId × Snapshot) : ([e] ++ (l' ++ [e'])).Perm (l' ++ [e', e]) := by
      exact List.perm_append_comm.trans (by rw [List.append_assoc]; rfl)
    refine Makes.perm (Makes.bind (builds_block l') ?_) (hlast _ _)
    rintro otherBlock _ rfl
    refine Makes.bind (builds_node .elseStatement [(otherBlock, _)]) ?_
    rintro other _ rfl
    exact ((builds_node .loop [(expression, _), (branch, _), (other, _)]).set Attr.loopType
      (.string ifType)).perm List.perm_append_comm

end Build

/-! ### Programs -/

lemma Expr.builds (e : Expr namespaces) : e.build.Builds [] e.shape := by
  induction e using Expr.induction with
  | call callee args ih =>
    rw [build_call, shape_call]
    refine (Build.Makes.all ih).bind (o := []) ?_
    rintro _ l ⟨rfl, hl⟩
    rw [List.append_nil, ← hl]
    exact Build.builds_call callee l
  | select space key entries ih =>
    rw [build_select, shape_select]
    refine (Build.builds_literal (.string key)).bind (o := []) ?_
    rintro keyArg _ rfl
    refine (Build.Makes.all ih).bind ?_
    rintro _ l ⟨rfl, hl⟩
    have hlength : l.length = entries.length := by simpa using congrArg List.length hl
    have hmap := Build.builds_map ((entries.map Prod.fst).zip l)
    -- the entries with what has become of their values
    have hshape : ((entries.map Prod.fst).zip l).map (fun e => (e.1, e.2.2)) =
        entries.map fun e => (e.1, e.2.shape) := by
      have hzip : (entries.map Prod.fst).zip (l.map Prod.snd) =
          ((entries.map Prod.fst).zip l).map (Prod.map id Prod.snd) := List.zip_map_right
      rw [hl, List.zip_map'] at hzip
      exact hzip.symm
    rw [List.map_snd_zip (by simp [hlength]), hshape] at hmap
    rw [List.zip_map_right]
    refine hmap.bind ?_
    rintro map _ rfl
    exact (Build.builds_call (space.callee .select) [(keyArg, _), (map, _)]).perm
      (List.Perm.swap ..)

lemma Condition.builds (c : Condition namespaces) : c.build.Builds [] c.shape := by
  cases c with
  | value space key =>
    refine (Build.builds_literal (.string key)).bind (o := []) ?_
    rintro keyArg _ rfl
    exact Build.builds_call (space.callee .get) [(keyArg, _)]
  | comparison space key operator literal =>
    refine (Build.builds_literal (.string key)).bind (o := []) ?_
    rintro keyArg _ rfl
    refine (Build.builds_call (space.callee .get) [(keyArg, _)]).bind ?_
    rintro value _ rfl
    refine (Build.builds_literal literal).bind ?_
    rintro constant _ rfl
    exact Build.builds_operation operator.name (value, _) (constant, _)
  | oneOf space key candidates =>
    refine (Build.builds_literal (.string key)).bind (o := []) ?_
    rintro keyArg _ rfl
    refine (Build.builds_literal (.string candidates)).bind ?_
    rintro candidatesArg _ rfl
    exact (Build.builds_call (space.callee .isSet) [(keyArg, _), (candidatesArg, _)]).perm
      (List.Perm.swap ..)

lemma Statement.builds (s : Statement namespaces) : s.build.Builds [] s.shape := by
  induction s using Statement.induction with
  | expression e =>
    rw [build_expression, shape_expression]
    exact e.builds
  | block statements ih =>
    rw [build_block, shape_block]
    refine (Build.Makes.all ih).bind (o := []) ?_
    rintro _ l ⟨rfl, hl⟩
    rw [List.append_nil, ← hl]
    exact Build.builds_block l
  | ifThen c whenTrue whenFalse ih ih' =>
    rw [build_ifThen, shape_ifThen]
    refine c.builds.bind (o := []) ?_
    rintro condition _ rfl
    refine (Build.Makes.all ih).bind ?_
    rintro _ l ⟨rfl, hl⟩
    rw [← hl]
    cases whenFalse with
    | none =>
      rw [Option.mapM_none, pure_bind]
      exact Build.builds_ifStatement (condition, _) l none
    | some statements =>
      rw [Option.mapM_some, bind_map_left]
      refine (Build.Makes.all (ih' statements rfl)).bind ?_
      rintro _ l' ⟨rfl, hl'⟩
      rw [Option.map_some, ← hl']
      exact Build.builds_ifStatement (condition, _) l (some l')

namespace Tree

variable {t u : Tree} {l : List (NodeId × Snapshot)} {cs : List NodeId}

/-- Nothing but the root is above the root, so any other nodes can go below it. -/
lemma WellLinked.pushStatements_eq (h : t.WellLinked) (hcs : ∀ c ∈ cs, c < t.size ∧ c ≠ t.root) :
    t.pushStatements cs = (none, cs.foldl (fun u c => u.attach t.root c) t) := by
  rw [pushStatements]
  induction cs generalizing t with
  | nil => rfl
  | cons c cs ih =>
    obtain ⟨hc, hroot⟩ := hcs c List.mem_cons_self
    have hnot : ¬ t.AtOrBelow c t.root := by rwa [h.atOrBelow_root]
    have hsame := sameNodes_attach t t.root c
    have hrest := ih (h.attach h.root_lt hc hroot hnot) fun c' hc' => by
      rw [hsame.size_eq, hsame.root_eq]
      exact hcs c' (List.mem_cons_of_mem c hc')
    rw [hsame.root_eq] at hrest
    rw [appendAll, append, if_neg fun htrue => hnot (h.isAncestorOrSelf_iff.1 htrue),
      List.foldl_cons, ← hrest]

/-- Parts can be put below the root, after its children. -/
lemma Parts.pushStatements (h : t.Parts u l) :
    ∃ u', u.pushStatements (l.map Prod.fst) = (none, u') ∧ u'.WellLinked ∧
      u'.snapshot u'.root = .node (u.kind u.root) (u.attributes u.root)
        ((u.children u.root).map u'.snapshot ++ l.map Prod.snd) := by
  have hu := h.grown.wellLinked
  have hcs : ∀ c ∈ l.map Prod.fst, c < u.size ∧ c ≠ u.root := by
    intro c hc
    obtain ⟨e, he, rfl⟩ := List.mem_map.1 hc
    exact ⟨(h.added e he).2.1, h.ne_root he⟩
  obtain ⟨hwl, hsame, -, hchildren⟩ := hu.attachAll hu.root_lt
    (fun c hc => ⟨(hcs c hc).1, (hcs c hc).2, by rw [hu.atOrBelow_root]; exact (hcs c hc).2⟩) h.nodup
  refine ⟨_, hu.pushStatements_eq hcs, hwl, ?_⟩
  generalize (l.map Prod.fst).foldl (fun t c => t.attach u.root c) u = u' at hwl hsame hchildren ⊢
  have hsnap : ∀ e ∈ l, u'.snapshot e.1 = e.2 := by
    intro e he
    rw [← h.snapshot_eq e he]
    refine SameBelow.snapshot_eq (fun y hy => ⟨⟨hsame.kind_eq y, hsame.attributes_eq y⟩, ?_⟩) hu hwl
    have hne : y ≠ u.root := by
      rintro rfl
      exact h.ne_root he (hu.atOrBelow_root.1 hy)
    rw [hchildren, if_neg hne, List.append_nil, h.filter_children]
  rw [hwl.snapshot_eq, hsame.root_eq, hsame.kind_eq, hsame.attributes_eq, hchildren, if_pos rfl,
    h.filter_children, List.map_append, List.map_map]
  congr 2
  exact List.map_congr_left hsnap

end Tree

/-- The tree of a program is well-linked and looks like the program. -/
theorem Program.tree_eq (program : Program namespaces) :
    program.tree.WellLinked ∧ program.tree.snapshot program.tree.root = program.shape := by
  have hsingle : (Tree.single .file).WellLinked := by decide
  have hparts : (Tree.single .file).Parts (Tree.single .file) [] :=
    ⟨hsingle, Tree.Grown.refl hsingle, List.nodup_nil, by simp, by simp⟩
  obtain ⟨l, ⟨hids, hl⟩, hparts⟩ :=
    Build.Makes.all (fun s (_ : s ∈ program) => s.builds) _ _ [] hparts
  rw [List.append_nil] at hparts
  obtain ⟨u', hpush, hwl, hsnap⟩ := hparts.pushStatements
  have htree : program.tree = u' := by
    rw [← hids] at hpush
    exact congrArg Prod.snd hpush
  have hroot := hparts.grown.root_eq
  have hlt := hsingle.root_lt
  rw [htree, shape, ← hl, hsnap, hroot, hparts.grown.kind_eq hlt, hparts.grown.attributes_eq hlt,
    hparts.grown.children_eq hlt]
  exact ⟨hwl, rfl⟩

end VariantFold
