/-
Trees and their histories.

Every tree comes from a single node by changes, one after the other: nodes are made, moved, taken away
and put in the place of others.  A change is carried out in two ways here.  `Change.run` is the operation
of this library, which checks first and then changes everything at once.  `Change.steps` makes the checks
and the changes of links one by one, and what was done before a check that fails stays.  The two are the
same as long as the nodes that are named exist, so a change that is refused leaves nothing behind.

A history keeps a tree well-linked if the root gets no parent and no node is put twice into one place
(`Change.IsSound`).
-/
import VariantFold.Proofs.Preorder
import VariantFold.Proofs.Resolve

namespace VariantFold

variable {t t' : Tree} {p c old : NodeId} {cs new : List NodeId}

lemma Edit.get_ok (t : Tree) : (get : Edit Tree) t = .ok t t := rfl

lemma Edit.modify_ok (f : Tree → Tree) (t : Tree) : (modify f : Edit Unit) t = .ok () (f t) := rfl

lemma Edit.modifyGet_ok {α : Type} (f : Tree → α × Tree) (t : Tree) :
    (modifyGet f : Edit α) t = .ok (f t).1 (f t).2 := rfl

/-! ### Check by check -/

namespace Stepwise

/-- Moves a node to the end of the children of `parent`, link by link. -/
def append (parent child : NodeId) : Edit Unit := do
  if (← get).isAncestorOrSelf child parent then
    throw .belowItself
  else
    modify fun t => t.detached child
    modify fun t => t.modifyChildren parent fun cs => cs ++ [child]
    modify fun t => t.setParent child (some parent)

/-- Adds a node and moves `children` below it, one after the other. -/
def createWith (kind : Kind) (children : List NodeId) : Edit NodeId := do
  let id ← modifyGet fun t => t.create kind
  children.forM (append id)
  return id

/-- Puts the nodes `new` in the place of `old`, after they were taken away one by one. -/
def replaceWith (old : NodeId) (new : List NodeId) : Edit Unit := do
  let t ← get
  if new = [old] then
    pure ()
  else if new.any fun n => t.isAncestorOrSelf n old then
    throw .aboveReplaced
  else if old = t.root ∧ new.length ≠ 1 then
    let block ← createWith .block new
    modify fun t => { t with root := block }
  else
    new.forM fun n => modify fun t => t.detached n
    modify fun t =>
      match t.parent? old, new with
      | some p, _ => t.splice p old new
      | none, [n] => if old = t.root then { t with root := n } else t
      | none, _ => t

lemma append_ok (h : t.isAncestorOrSelf c p = false) : append p c t = .ok () (t.attach p c) := by
  rw [append, bind_ok (Edit.get_ok t), if_neg (by simp [h])]
  rfl

lemma append_error (h : t.isAncestorOrSelf c p = true) :
    append p c t = .error .belowItself t := by
  rw [append, bind_ok (Edit.get_ok t), if_pos h]
  rfl

/-- Nothing but a node itself is at or above a node without a parent. -/
lemma isAncestorOrSelf_top (hp : t.parent? p = none) (hc : c ≠ p) :
    t.isAncestorOrSelf c p = false := by
  rw [Tree.isAncestorOrSelf, Tree.ancestorsOrSelf, Tree.ancestors_of_parent_none hp]
  simpa using hc

/-- No check fails while nodes move below a node without a parent. -/
lemma forM_append (cs : List NodeId) (hp : t.parent? p = none)
    (hcs : ∀ c ∈ cs, c < t.size ∧ c ≠ p) :
    cs.forM (append p) t = .ok () (cs.foldl (fun t c => t.attach p c) t) := by
  induction cs generalizing t with
  | nil => rfl
  | cons c rest ih =>
    obtain ⟨hc, hne⟩ := hcs c List.mem_cons_self
    rw [List.forM, List.foldl_cons, bind_ok (append_ok (isAncestorOrSelf_top hp hne))]
    refine ih ?_ fun d hd => ?_
    · rw [Tree.parent?_attach hc, if_neg (Ne.symm hne), hp]
    · rw [(Tree.sameNodes_attach t p c).size_eq]
      exact hcs d (List.mem_cons_of_mem c hd)

lemma createWith_ok (kind : Kind) (cs : List NodeId) (hcs : ∀ c ∈ cs, c < t.size) :
    createWith kind cs t = .ok (t.createWith kind cs).1 (t.createWith kind cs).2 := by
  have htop : (t.create kind).2.parent? t.size = none := by
    rw [Tree.parent?, Tree.node_create, if_pos rfl]
  have hmoves := forM_append cs htop fun c hc => by
    rw [Tree.size_create]
    exact ⟨Nat.lt_succ_of_lt (hcs c hc), Nat.ne_of_lt (hcs c hc)⟩
  rw [createWith, bind_ok (Edit.modifyGet_ok (fun t => t.create kind) t), Tree.create_fst,
    bind_ok hmoves]
  rfl

lemma forM_detached (new : List NodeId) (t : Tree) :
    (new.forM fun n => (modify fun t => t.detached n : Edit Unit)) t =
      .ok () (new.foldl Tree.detached t) := by
  induction new generalizing t with
  | nil => rfl
  | cons n rest ih =>
    rw [List.forM, List.foldl_cons, bind_ok (Edit.modify_ok (fun t => t.detached n) t), ih]

/-- Replacing node by node comes to the same as replacing at once. -/
lemma replaceWith_eq (old : NodeId) (hnew : ∀ n ∈ new, n < t.size) :
    replaceWith old new t = Edit.replaceWith old new t := by
  rw [replaceWith, bind_ok (Edit.get_ok t), Edit.replaceWith, Tree.replaceWith]
  split
  · rfl
  · split
    · rfl
    · split
      · rw [bind_ok (createWith_ok .block new hnew)]
        rfl
      · rw [bind_ok (forM_detached new t)]
        generalize new.foldl Tree.detached t = u
        rw [Edit.modify_ok]
        rcases hq : u.parent? old with _ | q
        · rcases new with _ | ⟨n, _ | ⟨m, rest⟩⟩ <;> simp only [hq]
        · simp only [hq]

end Stepwise

/-! ### Changes -/

/-- A change of a tree. -/
inductive Change where
  /-- A node is made. -/
  | create (kind : Kind)
  /-- A node is made, and nodes move below it. -/
  | createWith (kind : Kind) (children : List NodeId)
  /-- A node moves to the end of the children of another. -/
  | append (parent child : NodeId)
  /-- A node is taken away from its parent. -/
  | detach (id : NodeId)
  /-- A node takes the place of another. -/
  | replace (old new : NodeId)
  /-- Nodes take the place of a node. -/
  | replaceWith (old : NodeId) (new : List NodeId)

namespace Change

/-- The nodes that a change names. -/
def names : Change → List NodeId
  | create _ => []
  | createWith _ children => children
  | append parent child => [parent, child]
  | detach id => [id]
  | replace old new => [old, new]
  | replaceWith old new => old :: new

/-- The nodes that a change puts into a place. -/
def placed : Change → List NodeId
  | create _ => []
  | createWith _ children => children
  | append _ child => [child]
  | detach _ => []
  | replace _ new => [new]
  | replaceWith _ new => new

/-- All nodes that a change names exist. -/
def InRange (t : Tree) (c : Change) : Prop := ∀ id ∈ c.names, id < t.size

instance (t : Tree) (c : Change) : Decidable (c.InRange t) :=
  inferInstanceAs (Decidable (∀ id ∈ c.names, id < t.size))

/-- Carries a change out. -/
def run : Change → Edit Unit
  | create kind => modify fun t => (t.create kind).2
  | createWith kind children => modify fun t => (t.createWith kind children).2
  | append parent child => fun t =>
    match t.append parent child with
    | .ok t => .ok () t
    | .error e => .error e t
  | detach id => modify fun t => t.detached id
  | replace old new => Edit.replace old new
  | replaceWith old new => Edit.replaceWith old new

/-- Carries a change out check by check and link by link. -/
def steps : Change → Edit Unit
  | create kind => modify fun t => (t.create kind).2
  | createWith kind children => do let _ ← Stepwise.createWith kind children
  | append parent child => Stepwise.append parent child
  | detach id => modify fun t => t.detached id
  | replace old new => Stepwise.replaceWith old [new]
  | replaceWith old new => Stepwise.replaceWith old new

/-- The tree after a change, whether it was carried out or refused. -/
def next (c : Change) (t : Tree) : Tree :=
  match c.run t with
  | .ok _ t => t
  | .error _ t => t

lemma steps_eq {c : Change} (hc : c.InRange t) : c.steps t = c.run t := by
  cases c with
  | create kind => rfl
  | createWith kind children =>
    rw [steps, bind_ok (Stepwise.createWith_ok kind children hc)]
    rfl
  | append parent child =>
    simp only [steps, run, Tree.append]
    cases h : t.isAncestorOrSelf child parent with
    | true => exact Stepwise.append_error h
    | false => exact Stepwise.append_ok h
  | detach id => rfl
  | replace old new => exact Stepwise.replaceWith_eq old fun n hn => hc n (List.mem_cons_of_mem old hn)
  | replaceWith old new =>
    exact Stepwise.replaceWith_eq old fun n hn => hc n (List.mem_cons_of_mem old hn)

/-- A change that would put a node below itself, or in the place of itself or of a node below it. -/
def IsCyclic (t : Tree) : Change → Prop
  | append parent child => t.AtOrBelow child parent
  | replace old new => new ≠ old ∧ t.AtOrBelow new old
  | replaceWith old new => new ≠ [old] ∧ ∃ n ∈ new, t.AtOrBelow n old
  | _ => False

/-- A change gives the root no parent and puts no node twice into one place.  Nodes that are put below a
new node may repeat, since each of them is moved; and where a node without a parent is replaced there is
no place. -/
def IsSound (t : Tree) : Change → Prop
  | createWith _ children => t.root ∉ children
  | append _ child => child ≠ t.root
  | replace old new => new = old ∨ t.parent? old = none ∨ new ≠ t.root
  | replaceWith old new => new = [old] ∨ t.parent? old = none ∨ t.root ∉ new ∧ new.Nodup
  | _ => True

instance (t : Tree) (c : Change) : Decidable (c.IsSound t) :=
  match c with
  | create _ => inferInstanceAs (Decidable True)
  | createWith _ children => inferInstanceAs (Decidable (t.root ∉ children))
  | append _ child => inferInstanceAs (Decidable (child ≠ t.root))
  | detach _ => inferInstanceAs (Decidable True)
  | replace old new =>
    inferInstanceAs (Decidable (new = old ∨ t.parent? old = none ∨ new ≠ t.root))
  | replaceWith old new =>
    inferInstanceAs (Decidable (new = [old] ∨ t.parent? old = none ∨ t.root ∉ new ∧ new.Nodup))

end Change

/-! ### What a change keeps -/

namespace Tree

/-- Any node without a parent can become the root. -/
lemma WellLinked.withRoot (h : t.WellLinked) (hp : p < t.size) (htop : t.parent? p = none) :
    { t with root := p }.WellLinked :=
  ⟨h.mem_children_iff, h.nodup_children, h.chains_end, hp, htop⟩

lemma WellLinked.createEach (h : t.WellLinked) (k : Kind) (cs : List NodeId)
    (hcs : ∀ c ∈ cs, c < t.size ∧ c ≠ t.root) :
    (t.createWith k cs).2.WellLinked ∧ t.size < (t.createWith k cs).2.size ∧
      (t.createWith k cs).2.parent? t.size = none := by
  have hnew := h.createWith_dedup k hcs
  refine ⟨hnew.wellLinked, hnew.size_eq ▸ Nat.lt_succ_self _, hnew.parent_new fun c hc => ?_⟩
  exact (hcs c (List.mem_dedup.1 hc)).1

/-- Nodes take the place of a node unless one of them is that node or above it. -/
lemma WellLinked.replaceWith_cases (h : t.WellLinked) (old : NodeId) (new : List NodeId) :
    ((new ≠ [old] ∧ ∃ n ∈ new, t.AtOrBelow n old) ∧ ∃ e, t.replaceWith old new = .error e) ∨
      (¬ (new ≠ [old] ∧ ∃ n ∈ new, t.AtOrBelow n old) ∧ ∃ t', t.replaceWith old new = .ok t') := by
  rw [replaceWith]
  by_cases hself : new = [old]
  · rw [if_pos hself]
    exact Or.inr ⟨fun hcyc => hcyc.1 hself, t, rfl⟩
  rw [if_neg hself]
  have hany : (new.any fun n => t.isAncestorOrSelf n old) = true ↔ ∃ n ∈ new, t.AtOrBelow n old := by
    simp only [List.any_eq_true, h.isAncestorOrSelf_iff]
  by_cases hcyc : ∃ n ∈ new, t.AtOrBelow n old
  · rw [if_pos (hany.2 hcyc)]
    exact Or.inl ⟨⟨hself, hcyc⟩, _, rfl⟩
  · rw [if_neg (mt hany.1 hcyc)]
    refine Or.inr ⟨fun hboth => hcyc hboth.2, ?_⟩
    split
    · exact ⟨_, rfl⟩
    · dsimp only
      split <;> exact ⟨_, rfl⟩

/-- A node without a parent gives way; the nodes in its place may repeat. -/
lemma WellLinked.replaceWith_top (h : t.WellLinked) (hnew : ∀ n ∈ new, n < t.size)
    (hold : t.parent? old = none) (hok : t.replaceWith old new = .ok t') : t'.WellLinked := by
  rw [replaceWith] at hok
  split at hok
  · exact Except.ok.inj hok ▸ h
  split at hok
  · exact absurd hok (by simp)
  rename_i hany
  have habove : ∀ n ∈ new, n ≠ old := by
    rintro n hn rfl
    exact hany (List.any_eq_true.2 ⟨n, hn, h.isAncestorOrSelf_iff.2 (AtOrBelow.refl t n)⟩)
  split at hok
  · rename_i hblock
    obtain ⟨hwl, hlt, htop⟩ := h.createEach .block new fun n hn =>
      ⟨hnew n hn, hblock.1 ▸ habove n hn⟩
    exact Except.ok.inj hok ▸ hwl.withRoot hlt htop
  · obtain ⟨hwl, hsame, hparent, -⟩ := h.detachedAll new
    have hold' : (new.foldl Tree.detached t).parent? old = none := by
      rw [hparent, hold, ite_self]
    simp only [hold'] at hok
    rcases new with _ | ⟨n, _ | ⟨m, rest⟩⟩
    · exact Except.ok.inj hok ▸ hwl
    · rw [← Except.ok.inj hok]
      split
      · refine hwl.withRoot ?_ ?_
        · rw [hsame.size_eq]
          exact hnew n List.mem_cons_self
        · rw [hparent, if_pos List.mem_cons_self]
      · exact hwl
    · exact Except.ok.inj hok ▸ hwl

lemma WellLinked.replaceWith_sound (h : t.WellLinked) (hnew : ∀ n ∈ new, n < t.size)
    (hs : new = [old] ∨ t.parent? old = none ∨ t.root ∉ new ∧ new.Nodup)
    (hok : t.replaceWith old new = .ok t') : t'.WellLinked := by
  rcases hs with rfl | hold | ⟨hroot, hnd⟩
  · rw [replaceWith, if_pos rfl] at hok
    exact Except.ok.inj hok ▸ h
  · exact h.replaceWith_top hnew hold hok
  · rcases h.replaceWith_cases old new with ⟨-, e, herror⟩ | ⟨hnot, -⟩
    · exact absurd (herror.symm.trans hok) (by simp)
    · by_cases hself : new = [old]
      · rw [replaceWith, if_pos hself] at hok
        exact Except.ok.inj hok ▸ h
      · have hr : t.Replaceable old new := ⟨hnd, hnew, fun n hn heq => hroot (heq ▸ hn),
          fun n hn hle => hnot ⟨hself, n, hn, hle⟩⟩
        obtain ⟨t'', hok', hrep⟩ := h.replaceWith_ok hr
        exact Except.ok.inj (hok'.symm.trans hok) ▸ hrep.wellLinked

/-! ### What a change has to keep -/

lemma parent?_attachEach (cs : List NodeId) (hcs : ∀ c ∈ cs, c < t.size) (p x : NodeId) :
    (cs.foldl (fun t c => t.attach p c) t).parent? x = if x ∈ cs then some p else t.parent? x := by
  induction cs generalizing t with
  | nil => simp
  | cons c rest ih =>
    have hrest : ∀ d ∈ rest, d < (t.attach p c).size := by
      intro d hd
      rw [(sameNodes_attach t p c).size_eq]
      exact hcs d (List.mem_cons_of_mem c hd)
    rw [List.foldl_cons, ih hrest, parent?_attach (hcs c List.mem_cons_self)]
    by_cases hx : x = c <;> simp [hx]

lemma root_attachEach (cs : List NodeId) (t : Tree) (p : NodeId) :
    (cs.foldl (fun t c => t.attach p c) t).root = t.root := by
  induction cs generalizing t with
  | nil => rfl
  | cons c rest ih => rw [List.foldl_cons, ih, (sameNodes_attach t p c).root_eq]

/-- Nodes that take the place of a child have to be different from each other and from the root. -/
lemma WellLinked.sound_of_replaceWith (h : t.WellLinked) (hnew : ∀ n ∈ new, n < t.size)
    (hok : t.replaceWith old new = .ok t') (h' : t'.WellLinked) :
    new = [old] ∨ t.parent? old = none ∨ t.root ∉ new ∧ new.Nodup := by
  rcases h.replaceWith_cases old new with ⟨-, e, herror⟩ | ⟨hnot, -⟩
  · exact absurd (herror.symm.trans hok) (by simp)
  by_cases hself : new = [old]
  · exact Or.inl hself
  rcases hold : t.parent? old with _ | q
  · exact Or.inr (Or.inl rfl)
  obtain ⟨hwl, hsame, hparent, -⟩ := h.detachedAll new
  have hmem : old ∉ new := fun hmem => hnot ⟨hself, old, hmem, AtOrBelow.refl t old⟩
  have hold' : (new.foldl Tree.detached t).parent? old = some q := by
    rw [hparent, if_neg hmem, hold]
  have heq : t' = (new.foldl Tree.detached t).splice q old new := by
    have hroot : ¬ (old = t.root ∧ new.length ≠ 1) := by
      rintro ⟨rfl, -⟩
      exact absurd (h.root_parent.symm.trans hold) (by simp)
    have hany : ¬ (new.any fun n => t.isAncestorOrSelf n old) = true := by
      simp only [List.any_eq_true, h.isAncestorOrSelf_iff]
      exact fun hcyc => hnot ⟨hself, hcyc⟩
    rw [replaceWith, if_neg hself, if_neg hany, if_neg hroot] at hok
    simp only [hold'] at hok
    exact (Except.ok.inj hok).symm
  have hlt : ∀ n ∈ new, n < (new.foldl Tree.detached t).size := by
    rwa [hsame.size_eq]
  obtain ⟨hsame', hplaced, hlisted⟩ := hwl.splice_links hold' hlt
  rw [← heq] at hsame' hplaced hlisted
  -- they all get the parent of the old node, and all are listed there
  obtain ⟨l₁, l₂, hl⟩ := List.append_of_mem (hwl.mem_of_parent hold')
  have hnd := h'.nodup_children q
  rw [hlisted, hl, substitute_append_cons (hl ▸ hwl.nodup_children q)] at hnd
  refine Or.inr (Or.inr ⟨fun hmem => ?_, hnd.of_append_left.of_append_right⟩)
  have hparent' := hplaced t.root
  rw [if_pos hmem, ← hsame.root_eq, ← hsame'.root_eq, h'.root_parent] at hparent'
  exact absurd hparent' (by simp)

end Tree

namespace Change

lemma run_replaceWith_cases (h : t.WellLinked) (old : NodeId) (hnew : ∀ n ∈ new, n < t.size) :
    ((new ≠ [old] ∧ ∃ n ∈ new, t.AtOrBelow n old) ∧
        ∃ e, Edit.replaceWith old new t = .error e t) ∨
      (¬ (new ≠ [old] ∧ ∃ n ∈ new, t.AtOrBelow n old) ∧
        ∃ t', Edit.replaceWith old new t = .ok () t' ∧ (t'.WellLinked ↔
          new = [old] ∨ t.parent? old = none ∨ t.root ∉ new ∧ new.Nodup)) := by
  rcases h.replaceWith_cases old new with ⟨hcyc, e, he⟩ | ⟨hnot, t', hok⟩
  · exact Or.inl ⟨hcyc, e, by simp only [Edit.replaceWith, he]⟩
  · exact Or.inr ⟨hnot, t', Edit.replaceWith_ok hok, h.sound_of_replaceWith hnew hok,
      fun hs => h.replaceWith_sound hnew hs hok⟩

/-- A change is refused if it is cyclic, and then nothing changes; otherwise it is carried out, and it
leaves a well-linked tree if it is sound, and only then. -/
lemma run_cases (h : t.WellLinked) {c : Change} (hc : c.InRange t) :
    (c.IsCyclic t ∧ ∃ e, c.run t = .error e t) ∨
      (¬ c.IsCyclic t ∧ ∃ t', c.run t = .ok () t' ∧ (t'.WellLinked ↔ c.IsSound t)) := by
  cases c with
  | create kind => exact Or.inr ⟨id, _, rfl, iff_of_true (h.create kind).1 trivial⟩
  | createWith kind children =>
    refine Or.inr ⟨id, _, rfl, fun h' hmem => ?_, fun hs => ?_⟩
    · have hroot : (t.createWith kind children).2.root = t.root :=
        Tree.root_attachEach children (t.create kind).2 t.size
      have hlt : ∀ c ∈ children, c < (t.create kind).2.size := fun c hc' => by
        simpa using Nat.lt_succ_of_lt (hc c hc')
      have hparent : (t.createWith kind children).2.parent? t.root = some t.size :=
        (Tree.parent?_attachEach children hlt t.size t.root).trans (if_pos hmem)
      rw [← hroot, h'.root_parent] at hparent
      exact absurd hparent (by simp)
    · exact (h.createEach kind children fun c hc' => ⟨hc c hc', fun heq => hs (heq ▸ hc')⟩).1
  | append parent child =>
    have hp : parent < t.size := hc parent List.mem_cons_self
    have hch : child < t.size := hc child (List.mem_cons_of_mem _ List.mem_cons_self)
    by_cases hcyc : t.AtOrBelow child parent
    · refine Or.inl ⟨hcyc, .belowItself, ?_⟩
      simp only [run, Tree.append, if_pos (h.isAncestorOrSelf_iff.2 hcyc)]
    · refine Or.inr ⟨hcyc, t.attach parent child, ?_, fun h' => ?_, fun hs => h.attach hp hch hs hcyc⟩
      · simp only [run, Tree.append, if_neg (mt h.isAncestorOrSelf_iff.1 hcyc)]
      · rintro rfl
        have hparent := h'.root_parent
        rw [(Tree.sameNodes_attach t parent t.root).root_eq, Tree.parent?_attach hch, if_pos rfl]
          at hparent
        exact absurd hparent (by simp)
  | detach id => exact Or.inr ⟨fun hf => hf, _, rfl, iff_of_true (h.detached id) trivial⟩
  | replace old new =>
    have hcyclic : (replace old new).IsCyclic t ↔ [new] ≠ [old] ∧ ∃ n ∈ [new], t.AtOrBelow n old := by
      simp [IsCyclic]
    have hsound : (replace old new).IsSound t ↔
        [new] = [old] ∨ t.parent? old = none ∨ t.root ∉ [new] ∧ [new].Nodup := by
      simp [IsSound, eq_comm]
    rw [hcyclic, hsound]
    exact run_replaceWith_cases h old fun n hn => hc n (List.mem_cons_of_mem old hn)
  | replaceWith old new =>
    exact run_replaceWith_cases h old fun n hn => hc n (List.mem_cons_of_mem old hn)

lemma next_eq_of_ok {c : Change} (h : c.run t = .ok () t') : c.next t = t' := by
  rw [next, h]

lemma next_eq_of_error {c : Change} {e : Misplacement} (h : c.run t = .error e t') :
    c.next t = t' := by
  rw [next, h]

lemma wellLinked_next (h : t.WellLinked) {c : Change} (hc : c.InRange t) (hs : c.IsSound t) :
    (c.next t).WellLinked := by
  rcases run_cases h hc with ⟨-, e, he⟩ | ⟨-, t', hok, hwl⟩
  · rwa [next_eq_of_error he]
  · rw [next_eq_of_ok hok]
    exact hwl.2 hs

/-- A change that does not place the root and places no node twice is sound. -/
lemma isSound_of_placed {c : Change} (hroot : t.root ∉ c.placed) (hnd : c.placed.Nodup) :
    c.IsSound t := by
  cases c with
  | create kind => trivial
  | createWith kind children => exact hroot
  | append parent child => exact fun heq => hroot (heq ▸ List.mem_cons_self)
  | detach id => trivial
  | replace old new => exact Or.inr (Or.inr fun heq => hroot (heq ▸ List.mem_cons_self))
  | replaceWith old new => exact Or.inr (Or.inr ⟨hroot, hnd⟩)

end Change

/-! ### Histories -/

/-- The tree after changes, one after the other. -/
def Tree.after (t : Tree) (changes : List Change) : Tree := changes.foldl (fun t c => c.next t) t

/-- Every change of a history fits the tree that it meets. -/
def Along (P : Tree → Change → Prop) : Tree → List Change → Prop
  | _, [] => True
  | t, c :: rest => P t c ∧ Along P (c.next t) rest

namespace Along

variable {P : Tree → Change → Prop} {changes before rest : List Change} {c : Change}

instance decidable [∀ t c, Decidable (P t c)] : ∀ t changes, Decidable (Along P t changes)
  | _, [] => inferInstanceAs (Decidable True)
  | t, c :: rest =>
    haveI := decidable (c.next t) rest
    inferInstanceAs (Decidable (P t c ∧ Along P (c.next t) rest))

lemma keeps {I : Tree → Prop} (hstep : ∀ t c, I t → P t c → I (c.next t)) (h : Along P t changes)
    (ht : I t) : I (t.after changes) := by
  induction changes generalizing t with
  | nil => exact ht
  | cons c rest ih => exact ih h.2 (hstep t c ht h.1)

/-- The changes up to one of a history, and that one. -/
lemma split (h : Along P t (before ++ c :: rest)) : Along P t before ∧ P (t.after before) c := by
  induction before generalizing t with
  | nil => exact ⟨trivial, h.1⟩
  | cons b before ih =>
    obtain ⟨hbefore, hc⟩ := ih h.2
    exact ⟨⟨h.1, hbefore⟩, hc⟩

end Along

/-- A history of changes that name existing nodes, do not place the root and place no node twice: every
change leaves a well-linked tree.  Checking and changing link by link comes to the same.  The changes that
are refused are those that would make a cycle, and a change that is refused leaves the tree as it was. -/
theorem history_wellLinked (kind : Kind) {before rest : List Change} {c : Change}
    (h : Along (fun t c => c.InRange t ∧ t.root ∉ c.placed ∧ c.placed.Nodup) (.single kind)
      (before ++ c :: rest)) :
    let t := (Tree.single kind).after before
    (c.next t).WellLinked ∧ c.steps t = c.run t ∧
      ((c.IsCyclic t ∧ ∃ e, c.steps t = .error e t) ∨
        (¬ c.IsCyclic t ∧ ∃ t', c.steps t = .ok () t')) := by
  intro t
  obtain ⟨hbefore, hin, hroot, hnd⟩ := h.split
  have hwl : t.WellLinked := hbefore.keeps (fun t c ht hP =>
    Change.wellLinked_next ht hP.1 (Change.isSound_of_placed hP.2.1 hP.2.2))
    (Tree.wellLinked_single kind)
  have hsteps : c.steps t = c.run t := Change.steps_eq hin
  refine ⟨Change.wellLinked_next hwl hin (Change.isSound_of_placed hroot hnd), hsteps, ?_⟩
  rw [hsteps]
  rcases Change.run_cases hwl hin with hno | ⟨hnot, t', hok, -⟩
  · exact Or.inl hno
  · exact Or.inr ⟨hnot, t', hok⟩

/-- A block in a block, and an attempt to turn them around. -/
def blockInBlock : List Change :=
  [.create .block, .append 0 1, .create .block, .append 1 2, .append 2 1]

/-- Both blocks take the place of the root, the inner one first. -/
theorem history_wellLinked_blockInBlock :
    Along (fun t c => c.InRange t ∧ t.root ∉ c.placed ∧ c.placed.Nodup) (.single .file)
      (blockInBlock ++ .replaceWith 0 [2, 1] :: [.detach 2]) ∧
    let t := (Tree.single .file).after blockInBlock
    ((Change.replaceWith 0 [2, 1]).next t).WellLinked ∧
      (Change.replaceWith 0 [2, 1]).steps t = (Change.replaceWith 0 [2, 1]).run t ∧
      (((Change.replaceWith 0 [2, 1]).IsCyclic t ∧
          ∃ e, (Change.replaceWith 0 [2, 1]).steps t = .error e t) ∨
        (¬ (Change.replaceWith 0 [2, 1]).IsCyclic t ∧
          ∃ t', (Change.replaceWith 0 [2, 1]).steps t = .ok () t')) := by
  have h : Along (fun t c => c.InRange t ∧ t.root ∉ c.placed ∧ c.placed.Nodup) (.single .file)
      (blockInBlock ++ .replaceWith 0 [2, 1] :: [.detach 2]) := by decide +kernel
  exact ⟨h, history_wellLinked .file h⟩

/-- Along a history of sound changes that are carried out, the walk from the root meets no node twice, the
root has no parent, and the attached nodes are those that the walk meets.  No change but a sound one keeps
the links of the tree in order. -/
theorem history_walk (kind : Kind) {changes : List Change}
    (h : Along (fun t c => c.InRange t ∧ (∃ t', c.steps t = .ok () t') ∧ c.IsSound t)
      (.single kind) changes) :
    let t := (Tree.single kind).after changes
    (t.descendants t.root).Nodup ∧ t.parent? t.root = none ∧
      (∀ id, t.isAttached id = true ↔ id ∈ t.descendants t.root) ∧
      ∀ (c : Change) (t' : Tree), c.InRange t → c.steps t = .ok () t' →
        (t'.WellLinked ↔ c.IsSound t) := by
  intro t
  have hwl : t.WellLinked := h.keeps (fun t c ht hP => Change.wellLinked_next ht hP.1 hP.2.2)
    (Tree.wellLinked_single kind)
  refine ⟨hwl.nodup_descendants _, hwl.root_parent, fun id => ?_, fun c t' hin hok => ?_⟩
  · rw [hwl.isAttached_iff, hwl.mem_descendants]
  · rw [Change.steps_eq hin] at hok
    rcases Change.run_cases hwl hin with ⟨-, e, he⟩ | ⟨-, u, hu, hiff⟩
    · exact absurd (he.symm.trans hok) (by simp)
    · rwa [← (EStateM.Result.ok.inj (hu.symm.trans hok)).2]

/-- A node moves below a new one, is named twice in that, and takes the place of the root, named twice
again. -/
def blockTwice : List Change :=
  [.create .block, .createWith .block [1, 1], .append 0 2, .replaceWith 0 [1, 1]]

theorem history_walk_blockTwice :
    Along (fun t c => c.InRange t ∧ (∃ t', c.steps t = .ok () t') ∧ c.IsSound t)
      (.single .file) blockTwice ∧
    let t := (Tree.single .file).after blockTwice
    (t.descendants t.root).Nodup ∧ t.parent? t.root = none ∧
      (∀ id, t.isAttached id = true ↔ id ∈ t.descendants t.root) ∧
      ∀ (c : Change) (t' : Tree), c.InRange t → c.steps t = .ok () t' →
        (t'.WellLinked ↔ c.IsSound t) := by
  have h : Along (fun t c => c.InRange t ∧ (∃ t', c.steps t = .ok () t') ∧ c.IsSound t)
      (.single .file) blockTwice :=
    ⟨⟨by decide, ⟨_, rfl⟩, by decide⟩, ⟨by decide, ⟨_, rfl⟩, by decide⟩,
      ⟨by decide, ⟨_, rfl⟩, by decide⟩, ⟨by decide, ⟨_, rfl⟩, by decide⟩, trivial⟩
  exact ⟨h, history_walk .file h⟩

/-- Two histories of changes that are carried out.  In the first the root moves below a new node: it has a
parent then and is not attached, though the walk from the root meets it.  In the second a node is named
twice in the place of a child, and the walk from the root meets it twice. -/
theorem unsound_histories :
    (Along (fun t c => c.InRange t ∧ ∃ t', c.steps t = .ok () t') (.single .file)
        [.create .block, .append 1 0] ∧
      let t := (Tree.single .file).after [.create .block, .append 1 0]
      t.root = 0 ∧ t.parent? 0 = some 1 ∧ t.isAttached 0 = false ∧ t.descendants 0 = [0]) ∧
    (Along (fun t c => c.InRange t ∧ ∃ t', c.steps t = .ok () t') (.single .file)
        [.create .block, .create .block, .append 0 1, .replaceWith 1 [2, 2]] ∧
      let t := (Tree.single .file).after
        [.create .block, .create .block, .append 0 1, .replaceWith 1 [2, 2]]
      t.root = 0 ∧ t.descendants 0 = [0, 2, 2]) :=
  ⟨⟨⟨⟨by decide, ⟨_, rfl⟩⟩, ⟨by decide, ⟨_, rfl⟩⟩, trivial⟩, by decide⟩,
    ⟨⟨⟨by decide, ⟨_, rfl⟩⟩, ⟨by decide, ⟨_, rfl⟩⟩, ⟨by decide, ⟨_, rfl⟩⟩, ⟨by decide, ⟨_, rfl⟩⟩,
      trivial⟩, by decide⟩⟩

end VariantFold
