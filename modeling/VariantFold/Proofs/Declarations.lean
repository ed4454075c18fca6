/-
Declared names survive.

A declaration reaches the whole function it stands in, so the names declared at a node are those of the
definitions at or below it that are reached without entering a function.  When a branch of an `if` statement
is dropped, the names that only it declares are declared anew.  Nothing else declares: a definition below
an expression is inside a function (`Scoped`), and an `if` statement consists of its condition and its
branches (`PlainIfs`).  A run keeps both conditions, the names declared at the root and, for every
function that is left, the names declared in it (`optimize_declares`).
-/
import VariantFold.Proofs.Outcome
import VariantFold.Proofs.Preorder

namespace VariantFold

/-- The name that a node declares. -/
def Node.declaredName? (n : Node) : Option String := n.declaration?.map Prod.fst

/-- Whether what is below a node belongs to an expression. -/
def Kind.holdsExpression : Kind → Bool
  | .expression | .call | .operation => true
  | _ => false

namespace Tree

variable {t u t' : Tree} {a c d f loop n old p x y : NodeId} {new : List NodeId} {name : String}

/-- The name is declared at or below the node, functions left out. -/
def Declares (t : Tree) (x : NodeId) (name : String) : Prop :=
  name ∈ (t.declarations x).map Prod.fst

/-- Every definition below an expression that belongs to the tree is in a function below it. -/
def Scoped (t : Tree) : Prop :=
  ∀ a d, t.AtOrBelow t.root a → (t.kind a).holdsExpression = true → t.Below a d →
    t.kind d = .definition → ∃ f, t.kind f = .function ∧ t.Below a f ∧ t.Below f d

/-- The node is an `if` statement. -/
def IsIf (t : Tree) (x : NodeId) : Prop :=
  t.kind x = .loop ∧ (t.node x).str? Attr.loopType = some Build.ifType

/-- An `if` statement has one condition, at most one branch of each sort, and otherwise only comments,
which declare nothing. -/
structure IsPlainIf (t : Tree) (loop : NodeId) : Prop where
  condition : (t.children loop).countP (fun c => t.kind c = .expression) = 1
  whenTrue : (t.children loop).countP (fun c => t.kind c = .statement) ≤ 1
  whenFalse : (t.children loop).countP (fun c => t.kind c = .elseStatement) ≤ 1
  others : ∀ c ∈ t.children loop, t.kind c = .expression ∨ t.kind c = .statement ∨
    t.kind c = .elseStatement ∨ ((t.kind c).isComment = true ∧ t.declarations c = [])

/-- All `if` statements that belong to the tree are plain. -/
def PlainIfs (t : Tree) : Prop := ∀ loop, t.AtOrBelow t.root loop → t.IsIf loop → t.IsPlainIf loop

/-! ### Deciding the conditions -/

instance (t : Tree) (x : NodeId) : Decidable (t.IsIf x) := inferInstanceAs (Decidable (_ ∧ _))

lemma isPlainIf_iff : t.IsPlainIf loop ↔
    (t.children loop).countP (fun c => t.kind c = .expression) = 1 ∧
    (t.children loop).countP (fun c => t.kind c = .statement) ≤ 1 ∧
    (t.children loop).countP (fun c => t.kind c = .elseStatement) ≤ 1 ∧
    ∀ c ∈ t.children loop, t.kind c = .expression ∨ t.kind c = .statement ∨
      t.kind c = .elseStatement ∨ ((t.kind c).isComment = true ∧ t.declarations c = []) :=
  ⟨fun h => ⟨h.condition, h.whenTrue, h.whenFalse, h.others⟩, fun ⟨h₁, h₂, h₃, h₄⟩ => ⟨h₁, h₂, h₃, h₄⟩⟩

instance (t : Tree) (loop : NodeId) : Decidable (t.IsPlainIf loop) :=
  decidable_of_iff _ isPlainIf_iff.symm

lemma WellLinked.plainIfs_iff (h : t.WellLinked) :
    t.PlainIfs ↔ ∀ loop < t.size, t.isAttached loop = true → t.IsIf loop → t.IsPlainIf loop := by
  constructor
  · intro hp loop _ hatt
    exact hp loop (h.isAttached_iff.1 hatt)
  · intro hp loop hatt
    exact hp loop (hatt.lt h.root_lt) (h.isAttached_iff.2 hatt)

lemma WellLinked.scoped_iff (h : t.WellLinked) :
    t.Scoped ↔ ∀ d < t.size, ∀ a ∈ t.ancestors d,
      t.kind d = .definition ∧ t.isAttached a = true ∧ (t.kind a).holdsExpression = true →
        ∃ f ∈ t.ancestors d, t.kind f = .function ∧ a ∈ t.ancestors f := by
  simp only [h.mem_ancestors_iff, h.isAttached_iff]
  constructor
  · rintro hs d - a had ⟨hd, hatt, hkind⟩
    obtain ⟨f, hf, haf, hfd⟩ := hs a d hatt hkind had hd
    exact ⟨f, hfd, hf, haf⟩
  · intro hs a d hatt hkind had hd
    obtain ⟨f, hfd, hf, haf⟩ := hs d ((hatt.trans had.atOrBelow).lt h.root_lt) a had ⟨hd, hatt, hkind⟩
    exact ⟨f, hf, haf, hfd⟩

/-! ### Names and paths -/

/-- A name is declared at a node if the node is no function and declares it or one of the children
does. -/
lemma WellLinked.declares_iff (h : t.WellLinked) :
    t.Declares x name ↔ t.kind x ≠ .function ∧
      ((t.node x).declaredName? = some name ∨ ∃ c ∈ t.children x, t.Declares c name) := by
  have hmem : ∀ y, t.Declares y name ↔ ∃ i ∈ t.scope y, (t.node i).declaredName? = some name := by
    intro y
    rw [Declares, declarations, List.map_filterMap, List.mem_filterMap]
    rfl
  rw [hmem, h.scope_eq]
  by_cases hx : t.kind x = .function
  · simp [hx]
  · simp only [hx, if_false, List.mem_cons, List.mem_flatMap, not_false_eq_true, true_and, ne_eq, hmem]
    constructor
    · rintro ⟨i, rfl | ⟨c, hc, hi⟩, hname⟩
      · exact Or.inl hname
      · exact Or.inr ⟨c, hc, i, hi, hname⟩
    · rintro (hname | ⟨c, hc, i, hi, hname⟩)
      · exact ⟨x, Or.inl rfl, hname⟩
      · exact ⟨i, Or.inr ⟨c, hc, hi⟩, hname⟩

lemma kind_of_declaredName (h : (t.node x).declaredName? = some name) : t.kind x = .definition := by
  rw [Node.declaredName?, Node.declaration?] at h
  split at h
  · assumption
  · exact absurd h (by simp)

/-- A declared name is that of a definition to which no function leads. -/
lemma WellLinked.declares_iff_inScope (h : t.WellLinked) :
    t.Declares x name ↔ ∃ d, t.InScope x d ∧ (t.node d).declaredName? = some name := by
  rw [Declares, declarations, List.map_filterMap, List.mem_filterMap]
  exact exists_congr fun d => and_congr_left fun _ => h.mem_scope

/-- In an expression nothing is declared. -/
lemma Scoped.not_declares (hs : t.Scoped) (h : t.WellLinked) (ha : t.AtOrBelow t.root a)
    (hkind : (t.kind a).holdsExpression = true) : ¬ t.Declares a name := by
  intro hname
  obtain ⟨d, ⟨had, hpath⟩, hdecl⟩ := h.declares_iff_inScope.1 hname
  have hd := kind_of_declaredName hdecl
  have hne : d ≠ a := by
    rintro rfl
    rw [hd] at hkind
    exact absurd hkind (by simp [Kind.holdsExpression])
  obtain ⟨f, hf, haf, hfd⟩ := hs a d ha hkind (h.below_iff_ne.2 ⟨had, hne⟩) hd
  exact hpath f haf.atOrBelow hfd.atOrBelow hf

/-- What a child declares, its parent declares, unless it is a function. -/
lemma WellLinked.declares_of_child (h : t.WellLinked) (hp : t.parent? c = some p)
    (hkind : t.kind p ≠ .function) (hc : t.Declares c name) : t.Declares p name :=
  h.declares_iff.2 ⟨hkind, Or.inr ⟨c, h.mem_of_parent hp, hc⟩⟩

/-- What a node declares, the nodes above it declare up to a function. -/
lemma WellLinked.declares_of_atOrBelow (h : t.WellLinked) {a : NodeId} (hle : t.AtOrBelow a x)
    (hpath : ∀ y, t.AtOrBelow a y → t.Below y x → t.kind y ≠ .function)
    (hx : t.Declares x name) : t.Declares a name := by
  induction hle with
  | refl => exact hx
  | @tail p x hap hpx ih =>
    have hstep : t.Below p x := below_of_parent hpx
    refine ih (fun y hay hyp => hpath y hay (hyp.trans_left hstep.atOrBelow)) ?_
    exact h.declares_of_child hpx (hpath p hap hstep) hx

/-- A node that is neither a function nor a definition declares what its children declare. -/
lemma WellLinked.declares_children (h : t.WellLinked) (hf : t.kind x ≠ .function)
    (hd : t.kind x ≠ .definition) : t.Declares x name ↔ ∃ c ∈ t.children x, t.Declares c name := by
  rw [h.declares_iff]
  constructor
  · rintro ⟨-, hname | hc⟩
    · exact absurd (kind_of_declaredName hname) hd
    · exact hc
  · exact fun hc => ⟨hf, Or.inr hc⟩

/-! ### The names of a dropped branch -/

lemma mem_firstDeclarations {seen : List String} {ds : List Declaration} :
    name ∈ (firstDeclarations seen ds).map Prod.fst ↔ name ∈ ds.map Prod.fst ∧ name ∉ seen := by
  induction ds generalizing seen with
  | nil => simp [firstDeclarations]
  | cons d ds ih =>
    rw [firstDeclarations]
    by_cases hd : d.1 ∈ seen
    · rw [if_pos hd, ih, List.map_cons, List.mem_cons]
      grind
    · rw [if_neg hd, List.map_cons, List.mem_cons, ih, List.map_cons, List.mem_cons]
      grind

/-- The name is declared in a branch, if there is such a branch. -/
def BranchDeclares (t : Tree) (loop : NodeId) (condition : Bool) (name : String) : Prop :=
  ∃ slot, t.branchSlot loop condition = some slot ∧ t.Declares slot name

/-- The declarations that would be lost are those of the names that only the other branch declares. -/
lemma mem_lostBranch {condition : Bool} :
    name ∈ (t.lostBranch loop condition).map Prod.fst ↔
      t.BranchDeclares loop (!condition) name ∧ ¬ t.BranchDeclares loop condition name := by
  rw [lostBranch, BranchDeclares, BranchDeclares]
  rcases t.branchSlot loop !condition with _ | dropped
  · simp [lostDeclarations]
  · rcases t.branchSlot loop condition with _ | kept
    · simp [lostDeclarations, mem_firstDeclarations, Declares]
    · simp [lostDeclarations, mem_firstDeclarations, Declares]

lemma kind_branchSlot {condition : Bool} {slot : NodeId}
    (h : t.branchSlot loop condition = some slot) :
    slot ∈ t.children loop ∧ t.kind slot ≠ .function ∧ t.kind slot ≠ .definition := by
  obtain ⟨hmem, hkind⟩ := childOfKind?_some h
  refine ⟨hmem, ?_, ?_⟩ <;> rw [hkind] <;> cases condition <;> simp

/-- The children of a branch declare what the branch declares. -/
lemma WellLinked.branchDeclares_iff (h : t.WellLinked) {condition : Bool} :
    t.BranchDeclares loop condition name ↔
      ∃ c ∈ t.childrenOf? (t.branchSlot loop condition), t.Declares c name := by
  rw [BranchDeclares]
  rcases hslot : t.branchSlot loop condition with _ | slot
  · simp [childrenOf?]
  · obtain ⟨-, hf, hd⟩ := kind_branchSlot hslot
    simp only [Option.some.injEq, exists_eq_left', childrenOf?]
    exact h.declares_children hf hd

/-- If there is at most one element with a property, every such element is the first one found. -/
lemma find?_eq_of_countP_le {l : List NodeId} {q : NodeId → Bool} (h : l.countP q ≤ 1) (hc : c ∈ l)
    (hq : q c = true) : l.find? q = some c := by
  induction l with
  | nil => exact absurd hc List.not_mem_nil
  | cons b l ih =>
    rw [List.countP_cons] at h
    by_cases hb : q b = true
    · rw [if_pos hb] at h
      have hzero := Nat.le_zero.1 (Nat.le_of_succ_le_succ h)
      rcases List.mem_cons.1 hc with rfl | hc
      · rw [List.find?_cons_of_pos hb]
      · exact absurd hq (List.countP_eq_zero.1 hzero c hc)
    · rw [if_neg hb] at h
      rcases List.mem_cons.1 hc with rfl | hc
      · exact absurd hq hb
      · rw [List.find?_cons_of_neg hb]
        exact ih (by simpa using h) hc

/-- A plain `if` statement declares what its branches declare. -/
lemma IsPlainIf.declares_iff (hp : t.IsPlainIf loop) (h : t.WellLinked) (hs : t.Scoped)
    (hatt : t.AtOrBelow t.root loop) (hkind : t.kind loop = .loop) (condition : Bool) :
    t.Declares loop name ↔
      t.BranchDeclares loop condition name ∨ t.BranchDeclares loop (!condition) name := by
  have hbranches : t.Declares loop name ↔
      t.BranchDeclares loop true name ∨ t.BranchDeclares loop false name := by
    rw [h.declares_children (by simp [hkind]) (by simp [hkind])]
    constructor
    · rintro ⟨c, hc, hname⟩
      have hattc : t.AtOrBelow t.root c :=
        hatt.trans (h.below_child hc).atOrBelow
      rcases hp.others c hc with hk | hk | hk | ⟨-, hnone⟩
      · exact absurd hname (hs.not_declares h hattc (by simp [hk, Kind.holdsExpression]))
      · exact Or.inl ⟨c, find?_eq_of_countP_le hp.whenTrue hc (by simpa using hk), hname⟩
      · exact Or.inr ⟨c, find?_eq_of_countP_le hp.whenFalse hc (by simpa using hk), hname⟩
      · rw [Declares, hnone] at hname
        exact absurd hname (by simp)
    · rintro (⟨slot, hslot, hname⟩ | ⟨slot, hslot, hname⟩)
      · exact ⟨slot, (kind_branchSlot hslot).1, hname⟩
      · exact ⟨slot, (kind_branchSlot hslot).1, hname⟩
  rw [hbranches]
  cases condition
  · exact or_comm
  · exact Iff.rfl

/-! ### One rewrite -/

lemma declaredName_attributes (d : Declaration) :
    ({ kind := .definition, attributes := d.attributes } : Node).declaredName? = some d.1 := by
  have hget : d.attributes.get? Attr.identifier = some (.string d.1) := by
    rcases d with ⟨name, _ | line⟩
    · exact KeyMap.get?_insert_self ..
    · rw [Declaration.attributes, Attributes.withLine, KeyMap.get?_insert, if_neg (by decide)]
      exact KeyMap.get?_insert_self ..
  simp [Node.declaredName?, Node.declaration?, Node.str?, Node.get?, hget, Scalar.str?]

lemma declaredName_congr (hkind : t'.kind y = t.kind x)
    (hattributes : t'.attributes y = t.attributes x) :
    (t'.node y).declaredName? = (t.node x).declaredName? := by
  rw [kind, kind] at hkind
  rw [attributes, attributes] at hattributes
  simp only [Node.declaredName?, Node.declaration?, Node.str?, Node.line?, Node.get?, hkind,
    hattributes]

section Rewrite

variable (g : t.Graft u old new t') (r : t.Reason u x old new) (hs : t.Scoped) (hp : t.PlainIfs)
include g r hs hp

omit hs hp r in
/-- A literal or an empty block declares nothing. -/
lemma not_declares_leaf {k : Kind} {as : Attributes} (leaf : t.NewLeaf k as n u)
    (hk : k ≠ .definition) : ¬ t'.Declares n name := by
  have hkind : t'.kind n = k := (g.replaced.kind_eq n leaf.lt).trans leaf.kind_new
  rw [g.wellLinked.declares_iff, g.children_added leaf.le leaf.lt, leaf.children_new]
  rintro ⟨-, hname | ⟨c, hc, -⟩⟩
  · exact hk (hkind.symm.trans (kind_of_declaredName hname))
  · exact absurd hc List.not_mem_nil

omit hs hp r in
/-- A list of declarations declares the names in it. -/
lemma declares_definitions {ds : List Declaration} {line : Option Int64}
    (list : t.NewDefinitions ds line n u) : t'.Declares n name ↔ name ∈ ds.map Prod.fst := by
  have hkind : t'.kind n = .definitionList := (g.replaced.kind_eq n list.lt).trans list.kind_list
  have hchild : ∀ c ∈ u.children n, ∀ d : Declaration, u.kind c = .definition →
      u.attributes c = d.attributes → u.children c = [] → (t'.Declares c name ↔ d.1 = name) := by
    intro c hc d hk has hcs
    have hlt := g.grown.wellLinked.child_lt hc
    have hle := g.grown.le_child g.wellLinked_before list.le hc
    have hk' : t'.kind c = .definition := (g.replaced.kind_eq c hlt).trans hk
    have has' : t'.attributes c = d.attributes := (g.replaced.attributes_eq c hlt).trans has
    have hname : (t'.node c).declaredName? = some d.1 := by
      rw [kind] at hk'
      rw [attributes] at has'
      rw [← declaredName_attributes d]
      simp only [Node.declaredName?, Node.declaration?, Node.str?, Node.line?, Node.get?, hk', has']
    rw [g.wellLinked.declares_iff, g.children_added hle hlt, hcs, hk', hname]
    simp
  rw [g.wellLinked.declares_children (by simp [hkind]) (by simp [hkind]),
    g.children_added list.le list.lt, List.mem_map]
  constructor
  · rintro ⟨c, hc, hname⟩
    obtain ⟨d, hd, hk, has, hcs⟩ := list.of_child hc
    exact ⟨d, hd, (hchild c hc d hk has hcs).1 hname⟩
  · rintro ⟨d, hd, hname⟩
    obtain ⟨c, hc, hk, has, hcs⟩ := list.of_declaration hd
    exact ⟨c, hc, (hchild c hc d hk has hcs).2 hname⟩

omit hs hp r in
/-- What follows the statements of a branch declares what would be lost. -/
lemma declares_branchEnd {kept extra : List NodeId} {lost : List Declaration} {line : Option Int64}
    (ending : t.BranchEnd kept lost line extra u) :
    (∃ n ∈ extra, t'.Declares n name) ↔ name ∈ lost.map Prod.fst := by
  cases ending with
  | nothing hlost => simp [hlost]
  | block hlost _ leaf => simp [hlost, not_declares_leaf g leaf (by simp)]
  | definitions _ list => simp only [List.mem_singleton, exists_eq_left, declares_definitions g list]

/-- What comes in declares what went, if the nodes among it that there were declare what they
declared. -/
lemma declares_new
    (hold : ∀ n ∈ new, n < t.size → (t'.Declares n name ↔ t.Declares n name)) :
    (∃ n ∈ new, t'.Declares n name) ↔ t.Declares old name := by
  have h := g.wellLinked_before
  have hnone : (t.kind old).holdsExpression = true → ¬ t.Declares old name := fun hkind =>
    hs.not_declares h g.attached_old hkind
  -- what stood in an expression declared nothing there
  have hinside : (t.kind old).holdsExpression = true → (∀ n ∈ new, n < t.size) →
      ((∃ n ∈ new, t'.Declares n name) ↔ t.Declares old name) := by
    intro hkind hlt
    refine iff_of_false ?_ (hnone hkind)
    rintro ⟨n, hn, hname⟩
    refine hnone hkind (h.declares_of_atOrBelow (g.below_old hn (hlt n hn)).atOrBelow ?_
      ((hold n hn (hlt n hn)).1 hname))
    exact fun y habove hbelow => r.kind_between h hn (hlt n hn) habove hbelow
  cases r with
  | literal _ hkind leaf =>
    have hexpr : (t.kind old).holdsExpression = true := by
      rcases hkind with hk | hk <;> simp [hk, Kind.holdsExpression]
    refine iff_of_false ?_ (hnone hexpr)
    rintro ⟨m, hm, hname⟩
    rw [List.mem_singleton.1 hm] at hname
    exact not_declares_leaf g leaf (by simp) hname
  | entry hkind _ value =>
    refine hinside (by simp [hkind, Kind.holdsExpression]) fun m hm => ?_
    rw [List.mem_singleton.1 hm]
    exact value.below.lt
  | operand _ _ hop =>
    exact hinside (by simp [hop.kind_owner, Kind.holdsExpression]) fun m hm => h.childrenOf?_lt hm
  | @branch _ _ extra condition hloop _ ending =>
    have hplain := hp old g.attached_old ⟨hloop.kind_owner, hloop.mark⟩
    rw [hplain.declares_iff h hs g.attached_old hloop.kind_owner condition]
    have hkept : (∃ n ∈ t.childrenOf? (t.branchSlot old condition), t'.Declares n name) ↔
        t.BranchDeclares old condition name := by
      rw [h.branchDeclares_iff]
      exact exists_congr fun m => and_congr_right fun hm =>
        hold m (List.mem_append_left extra hm) (h.childrenOf?_lt hm)
    have hextra : (∃ n ∈ extra, t'.Declares n name) ↔
        t.BranchDeclares old (!condition) name ∧ ¬ t.BranchDeclares old condition name := by
      rw [← mem_lostBranch, declares_branchEnd g ending]
    simp only [List.mem_append, or_and_right, exists_or, hkept, hextra]
    by_cases hname : t.BranchDeclares old condition name <;> simp [hname]

/-- The children of a node that is left declare what they declared, if the nodes among them that there
were do. -/
lemma declares_children_after (hy : y < t.size) (hatt : t'.AtOrBelow t'.root y)
    (ih : ∀ c ∈ t'.children y, c < t.size → (t'.Declares c name ↔ t.Declares c name)) :
    (∃ c ∈ t'.children y, t'.Declares c name) ↔ ∃ c ∈ t.children y, t.Declares c name := by
  have h := g.wellLinked_before
  rw [g.children_eq hy hatt] at ih ⊢
  have hnew : old ∈ t.children y →
      ((∃ n ∈ new, t'.Declares n name) ↔ t.Declares old name) := fun hmem =>
    declares_new g r hs hp fun n hn hlt => ih n (mem_substitute.2 (Or.inr ⟨hmem, hn⟩)) hlt
  constructor
  · rintro ⟨c, hc, hname⟩
    rcases mem_substitute.1 hc with ⟨hmem, -⟩ | ⟨hmem, hn⟩
    · exact ⟨c, hmem, (ih c hc (h.child_lt hmem)).1 hname⟩
    · exact ⟨old, hmem, (hnew hmem).1 ⟨c, hn, hname⟩⟩
  · rintro ⟨c, hc, hname⟩
    by_cases heq : c = old
    · subst heq
      obtain ⟨n, hn, hname⟩ := (hnew hc).2 hname
      exact ⟨n, mem_substitute.2 (Or.inr ⟨hc, hn⟩), hname⟩
    · have hmem := mem_substitute.2 (Or.inl (b := old ∈ t.children y ∧ c ∈ new) ⟨hc, heq⟩)
      exact ⟨c, hmem, (ih c hmem (h.child_lt hc)).2 hname⟩

/-- A node that is left declares what it declared. -/
lemma declares_after (hy : y < t.size) (hatt : t'.AtOrBelow t'.root y) :
    t'.Declares y name ↔ t.Declares y name := by
  induction y using g.wellLinked.induction_from_leaves with
  | step y ih =>
    have hchildren := declares_children_after g r hs hp hy hatt fun c hc hlt =>
      ih c hc hlt (hatt.trans (g.wellLinked.below_child hc).atOrBelow)
    rw [g.wellLinked.declares_iff, g.wellLinked_before.declares_iff, g.kind_eq hy, hchildren,
      declaredName_congr (g.kind_eq hy) (g.attributes_eq hy)]

/-- The children of a node that is left declare what they declared. -/
lemma declares_children_kept (hy : y < t.size) (hatt : t'.AtOrBelow t'.root y) :
    (∃ c ∈ t'.children y, t'.Declares c name) ↔ ∃ c ∈ t.children y, t.Declares c name :=
  declares_children_after g r hs hp hy hatt fun _ hc hlt => declares_after g r hs hp hlt
    (hatt.trans (g.wellLinked.below_child hc).atOrBelow)

/-- The root declares what the root declared. -/
lemma declares_root : t'.Declares t'.root name ↔ t.Declares t.root name := by
  have hnew : (∃ n ∈ new, t'.Declares n name) ↔ t.Declares old name :=
    declares_new g r hs hp fun n hn hlt => declares_after g r hs hp hlt (g.attached_new hn)
  rcases g.place_cases with ⟨-, hroot, -⟩ | ⟨hold, n, rfl, hroot, -⟩ |
    ⟨hold, hroot, -, hchildren, hblock⟩
  · rw [hroot]
    exact declares_after g r hs hp g.wellLinked_before.root_lt (hroot ▸ AtOrBelow.refl t' _)
  · rw [hroot, ← hold, ← hnew]
    simp
  · rw [hroot, ← hold, ← hnew,
      g.wellLinked.declares_children (by simp [hblock]) (by simp [hblock]), hchildren]

omit hs hp in
/-- In the place of a dropped branch definitions come in only where the `if` statement declares. -/
lemma exists_of_added_definition (hatt : t'.AtOrBelow t'.root d) (hd : t.size ≤ d)
    (hkind : t'.kind d = .definition) :
    ∃ list ∈ new, t.size ≤ list ∧ t'.parent? d = some list ∧ t.kind old = .loop ∧
      ∃ name, t.Declares old name := by
  rcases r.added g hatt hd with (hk | hk | hk) | ⟨-, hloop, ⟨condition, hlost⟩, list, hlist, hle, hp⟩
  · simp [hk] at hkind
  · simp [hk] at hkind
  · simp [hk] at hkind
  refine ⟨list, hlist, hle, hp, hloop, ?_⟩
  obtain ⟨e, he⟩ := List.exists_mem_of_ne_nil _ hlost
  obtain ⟨⟨slot, hslot, hname⟩, -⟩ := mem_lostBranch.1 (List.mem_map_of_mem (f := Prod.fst) he)
  have hmem := (kind_branchSlot hslot).1
  exact ⟨e.1, g.wellLinked_before.declares_of_child (g.wellLinked_before.parent_of_mem hmem)
    (by simp [hloop]) hname⟩

omit hp in
/-- A rewrite keeps definitions out of expressions. -/
lemma scoped_after : t'.Scoped := by
  intro a d hatta hkind hbelow hd
  have h := g.wellLinked_before
  have hattd := hatta.trans hbelow.atOrBelow
  have halt : a < t.size := by
    by_contra hle
    rcases r.added g hatta (not_lt.1 hle) with (hk | hk | hk) | ⟨hk, -⟩ <;>
      simp [hk, Kind.holdsExpression] at hkind
  have hatta₀ := (g.attached_before halt hatta).1
  rw [g.kind_eq halt] at hkind
  by_cases hdlt : d < t.size
  · rw [g.kind_eq hdlt] at hd
    obtain ⟨f, hf, haf, hfd⟩ :=
      hs a d hatta₀ hkind ((g.below_iff hdlt halt hattd hatta).1 hbelow) hd
    have hflt : f < t.size := h.atOrBelow_lt hfd.atOrBelow hdlt
    -- the function is not among the nodes that are dropped between what goes and what comes in
    have hattf : t'.AtOrBelow t'.root f := by
      refine (g.attached_iff hflt).2 ⟨hatta₀.trans haf.atOrBelow, ?_⟩
      rcases (g.attached_before hdlt hattd).2 with hnot | ⟨n, hn, hnd⟩
      · exact Or.inl fun hof => hnot (hof.trans hfd.atOrBelow)
      by_cases hof : t.AtOrBelow old f
      · rcases hnd.total hfd.atOrBelow with hnf | hfn
        · exact Or.inr ⟨n, hn, hnf⟩
        rcases atOrBelow_iff.1 hfn with rfl | hfn
        · exact Or.inr ⟨_, hn, AtOrBelow.refl t _⟩
        · exact absurd hf (r.kind_between h hn (h.atOrBelow_lt hnd hdlt) hof hfn)
      · exact Or.inl hof
    exact ⟨f, (g.kind_eq hflt).trans hf, (g.below_iff hflt halt hattf hatta).2 haf,
      (g.below_iff hdlt hflt hattd hattf).2 hfd⟩
  · obtain ⟨list, hlist, hle, hparent, hloop, name, hname⟩ :=
      exists_of_added_definition g r hattd (not_lt.1 hdlt) hd
    obtain ⟨d₀, ⟨hd₀, hpath⟩, hdecl⟩ := h.declares_iff_inScope.1 hname
    have hkd₀ := kind_of_declaredName hdecl
    have hne : list ≠ a := fun heq => absurd halt (not_lt.2 (heq ▸ hle))
    have hal : t'.Below a list :=
      g.wellLinked.below_iff_ne.2 ⟨(below_of_parent_iff hparent).1 hbelow, hne⟩
    have hao := (g.below_new hlist halt).1 hal
    obtain ⟨f, hf, haf, hfd⟩ := hs a d₀ hatta₀ hkind (hao.trans_left hd₀) hkd₀
    have hnot : ¬ t.AtOrBelow old f := fun hof => hpath f hof hfd.atOrBelow hf
    have hfo : t.Below f old := by
      refine h.below_iff_ne.2 ⟨(hfd.atOrBelow.total hd₀).resolve_right hnot, fun heq => ?_⟩
      rw [← heq, hloop] at hf
      exact absurd hf (by simp)
    have hattf := g.attached_outside (hatta₀.trans haf.atOrBelow) hnot
    have hflt : f < t.size := h.atOrBelow_lt hfo.atOrBelow g.old_lt
    exact ⟨f, (g.kind_eq hflt).trans hf, (g.below_iff hflt halt hattf hatta).2 haf,
      ((g.below_new hlist hflt).2 hfo).trans_left (below_of_parent hparent).atOrBelow⟩

/-- A rewrite keeps `if` statements plain. -/
lemma plainIfs_after : t'.PlainIfs := by
  rintro loop hatt ⟨hkind, hmark⟩
  have h := g.wellLinked_before
  have hlt : loop < t.size := by
    by_contra hle
    rcases r.added g hatt (not_lt.1 hle) with (hk | hk | hk) | ⟨hk, -⟩ <;> simp [hk] at hkind
  have hif : t.IsIf loop := by
    refine ⟨(g.kind_eq hlt).symm.trans hkind, ?_⟩
    have hsame := g.attributes_eq hlt
    rw [attributes, attributes] at hsame
    rwa [Node.str?, Node.get?, hsame] at hmark
  have hplain := hp loop (g.attached_before hlt hatt).1 hif
  -- what goes is neither a condition nor a branch nor a comment, so the children stay
  have hnot : old ∉ t.children loop := by
    intro hmem
    rcases r.kind_old with hk | hk | hk <;> rcases hplain.others old hmem with hk' | hk' | hk' | ⟨hk', -⟩ <;>
      simp [hk, Kind.isComment] at hk'
  have hchildren : t'.children loop = t.children loop := by
    rw [g.children_eq hlt hatt, substitute_of_not_mem hnot]
  have hkinds : ∀ c ∈ t.children loop, t'.kind c = t.kind c := fun c hc => g.kind_eq (h.child_lt hc)
  have hcount : ∀ k, (t'.children loop).countP (fun c => t'.kind c = k) =
      (t.children loop).countP (fun c => t.kind c = k) := by
    intro k
    rw [hchildren]
    exact List.countP_congr fun c hc => by rw [hkinds c hc]
  refine ⟨by rw [hcount, hplain.condition], (hcount _).trans_le hplain.whenTrue,
    (hcount _).trans_le hplain.whenFalse, fun c hc => ?_⟩
  have hattc := hatt.trans (g.wellLinked.below_child hc).atOrBelow
  rw [hchildren] at hc
  rw [hkinds c hc]
  refine (hplain.others c hc).imp_right (Or.imp_right (Or.imp_right fun hdefs => ⟨hdefs.1, ?_⟩))
  refine List.eq_nil_iff_forall_not_mem.2 fun e he => ?_
  have hname : t'.Declares c e.1 := List.mem_map_of_mem he
  rw [declares_after g r hs hp (h.child_lt hc) hattc, Declares, hdefs.2] at hname
  exact absurd hname (by simp)

end Rewrite

/-! ### Whole runs -/

/-- What a run keeps: `t` is what has become of `t₀`. -/
structure DeclaresAs (t₀ t : Tree) : Prop where
  size_le : t₀.size ≤ t.size
  isScoped : t.Scoped
  plainIfs : t.PlainIfs
  root : ∀ name, t.Declares t.root name ↔ t₀.Declares t₀.root name
  children : ∀ x < t₀.size, t.AtOrBelow t.root x → ∀ name,
    (∃ c ∈ t.children x, t.Declares c name) ↔ ∃ c ∈ t₀.children x, t₀.Declares c name

lemma DeclaresAs.graft {t₀ : Tree} (h : DeclaresAs t₀ t) (g : t.Graft u old new t')
    (r : t.Reason u x old new) : DeclaresAs t₀ t' where
  size_le := h.size_le.trans g.size_le
  isScoped := scoped_after g r h.isScoped
  plainIfs := plainIfs_after g r h.isScoped h.plainIfs
  root name := (declares_root g r h.isScoped h.plainIfs).trans (h.root name)
  children y hy hatt name := by
    have hlt := hy.trans_le h.size_le
    rw [declares_children_kept g r h.isScoped h.plainIfs hlt hatt]
    exact h.children y hy (g.attached_before hlt hatt).1 name

end Tree

/-- A run keeps the names that are declared: however it ends, the root declares what the root declared,
and the children of every function that is left declare what they declared. -/
theorem optimize_declares {w : Workspace} (h : w.tree.WellLinked) (hscoped : w.tree.Scoped)
    (hplain : w.tree.PlainIfs) (namespaces : List String) (variants : Variants) :
    ∃ w', ((∃ changed, Step.optimize namespaces variants w = .ok changed w') ∨
        ∃ e, Step.optimize namespaces variants w = .error (.variant e) w') ∧
      (∀ name, w'.tree.Declares w'.tree.root name ↔ w.tree.Declares w.tree.root name) ∧
      ∀ f, w.tree.kind f = .function → w'.tree.AtOrBelow w'.tree.root f → ∀ name,
        (∃ c ∈ w'.tree.children f, w'.tree.Declares c name) ↔
          ∃ c ∈ w.tree.children f, w.tree.Declares c name := by
  have hstart : Tree.DeclaresAs w.tree w.tree :=
    ⟨le_rfl, hscoped, hplain, fun _ => Iff.rfl, fun _ _ _ _ => Iff.rfl⟩
  obtain ⟨w', -, hkept, hend⟩ := Step.optimize_keeps
    (P := Tree.DeclaresAs w.tree) (fun _ g r hP => hP.graft g r) variants h hstart namespaces
  refine ⟨w', hend, hkept.root, fun f hf hatt name => hkept.children f ?_ hatt name⟩
  by_contra hle
  rw [Tree.kind, Tree.node_of_le (not_lt.1 hle)] at hf
  exact absurd hf (by simp [default])

theorem optimize_declares_ifOnVariant :
    ifOnVariant.WellLinked ∧ ifOnVariant.Scoped ∧ ifOnVariant.PlainIfs ∧
    ∃ w', ((∃ changed, Step.optimize ["env"] debugOn ⟨ifOnVariant, {}⟩ = .ok changed w') ∨
        ∃ e, Step.optimize ["env"] debugOn ⟨ifOnVariant, {}⟩ = .error (.variant e) w') ∧
      (∀ name, w'.tree.Declares w'.tree.root name ↔ ifOnVariant.Declares ifOnVariant.root name) ∧
      ∀ f, ifOnVariant.kind f = .function → w'.tree.AtOrBelow w'.tree.root f → ∀ name,
        (∃ c ∈ w'.tree.children f, w'.tree.Declares c name) ↔
          ∃ c ∈ ifOnVariant.children f, ifOnVariant.Declares c name := by
  have h : ifOnVariant.WellLinked := by decide
  have hscoped : ifOnVariant.Scoped := h.scoped_iff.2 (by decide)
  have hplain : ifOnVariant.PlainIfs := h.plainIfs_iff.2 (by decide)
  exact ⟨h, hscoped, hplain,
    optimize_declares (w := ⟨ifOnVariant, {}⟩) h hscoped hplain ["env"] debugOn⟩

end VariantFold
