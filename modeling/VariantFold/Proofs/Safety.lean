/-
Runs never look up what is not there.

On a well-linked tree a run that checks every look-up, every position and every move does the same as the
run that checks nothing: it comes to the same end, with the same tree and the same reports, and it never
stops with a fault.  The tree that either leaves is well-linked, whether the run ends well or with a
complaint about the configuration.
-/
import VariantFold.Proofs.Lookups
import VariantFold.Proofs.Outcome

namespace VariantFold

namespace Checked

variable {t t' u : Tree} {a c d id loop n old operation p x : NodeId} {ids new : List NodeId}

/-! ### Moves -/

lemma modifyNode_eq (hx : x < t.size) (f : Node → Node) :
    modifyNode t x f = .ok (t.modify x f) := by
  rw [modifyNode, node_eq hx]
  rfl

lemma setParent_eq (hx : x < t.size) (o : Option NodeId) :
    setParent t x o = .ok (t.setParent x o) := modifyNode_eq hx _

lemma modifyChildren_eq (hx : x < t.size) (f : List NodeId → List NodeId) :
    modifyChildren t x f = .ok (t.modifyChildren x f) := modifyNode_eq hx _

lemma detach_eq (h : t.Closed) (hx : x < t.size) :
    detach t x = .ok (t.detach x) ∧ (t.detach x).2.Closed := by
  rw [detach, Tree.detach, parent?_eq hx, except_bind]
  rcases hp : t.parent? x with _ | p
  · exact ⟨rfl, h⟩
  dsimp only
  have hplt : p < (t.setParent x none).size := by simpa using h.parent_lt hp
  have hclosed : (t.setParent x none).Closed := h.setParent hx (by simp)
  refine ⟨?_, hclosed.modifyChildren hplt fun c hc => hclosed.child_lt (List.mem_of_mem_erase hc)⟩
  rw [setParent_eq hx, except_bind, children_eq hplt, except_bind, modifyChildren_eq hplt]
  rfl

lemma closed_detached (h : t.Closed) (hx : x < t.size) : (t.detached x).Closed :=
  (detach_eq h hx).2

lemma append_eq (h : t.Closed) (hp : p < t.size) (hc : c < t.size)
    (hnot : t.isAncestorOrSelf c p = false) :
    append t p c = .ok (t.attach p c) ∧ (t.attach p c).Closed := by
  have hclosed := closed_detached h hc
  have hp' : p < (t.detached c).size := by rwa [(Tree.sameNodes_detached t c).size_eq]
  have hc' : c < (t.detached c).size := by rwa [(Tree.sameNodes_detached t c).size_eq]
  have hmore : ((t.detached c).modifyChildren p fun cs => cs ++ [c]).Closed := by
    refine hclosed.modifyChildren hp' fun d hd => ?_
    rcases List.mem_append.1 hd with hd | hd
    · exact hclosed.child_lt hd
    · exact List.mem_singleton.1 hd ▸ hc'
  refine ⟨?_, hmore.setParent (by simpa using hc') fun q hq => ?_⟩
  · rw [append, isAncestorOrSelf_eq h hp, except_bind, hnot, if_neg (by simp)]
    dsimp only
    rw [(detach_eq h hc).1, except_bind]
    exact congrArg (· >>= _) (modifyChildren_eq hp' _) |>.trans
      (setParent_eq (by simpa using hc') _)
  · obtain rfl := Option.some_injective _ hq
    simpa using hp'

/-- Below a node that is new, nodes can always go. -/
lemma createWith_eq {cs : List NodeId} (h : t.Closed) (k : Kind) (hcs : ∀ c ∈ cs, c < t.size) :
    createWith t k cs = .ok (t.createWith k cs) ∧ (t.createWith k cs).2.Closed ∧
      (t.createWith k cs).2.size = t.size + 1 := by
  have htop : (t.create k).2.parent? t.size = none := by
    rw [Tree.parent?, Tree.node_create, if_pos rfl]
  obtain ⟨hok, hclosed, hsize, -⟩ := foldlM_ok (l := cs)
    (f := fun s c => append s t.size c) (g := fun s c => s.attach t.size c)
    (fun s => s.Closed ∧ s.size = t.size + 1 ∧ s.parent? t.size = none)
    (fun s hinv c hc => by
      obtain ⟨hs, hsize, hnone⟩ := hinv
      have hne : t.size ≠ c := (hcs c hc).ne'
      have hlt : c < s.size := hsize ▸ Nat.lt_succ_of_lt (hcs c hc)
      have hnot : s.isAncestorOrSelf c t.size = false := by
        rw [Tree.isAncestorOrSelf, Tree.ancestorsOrSelf, Tree.ancestors_of_parent_none hnone]
        simpa using hne.symm
      obtain ⟨hok, hclosed⟩ := append_eq hs (hsize ▸ Nat.lt_succ_self t.size) hlt hnot
      refine ⟨hok, hclosed, ?_, ?_⟩
      · rw [(Tree.sameNodes_attach s t.size c).size_eq, hsize]
      · rw [Tree.parent?_attach hlt, if_neg hne, hnone])
    (s := (t.create k).2) ⟨h.create k, Tree.size_create t k, htop⟩
  refine ⟨?_, hclosed, hsize⟩
  rw [createWith]
  exact congrArg (· >>= _) hok

lemma idxOf?_le_length_erase {l : List NodeId} {i : Nat} (hi : l.idxOf? x = some i) :
    i ≤ (l.erase x).length := by
  have hmem : x ∈ l := by
    by_contra hx
    rw [List.idxOf?_eq_none_iff.2 hx] at hi
    exact absurd hi (by simp)
  have hlt : i < l.length := by
    rw [List.idxOf?_eq_some_iff] at hi
    exact hi.1
  rw [List.length_erase_of_mem hmem]
  exact Nat.le_pred_of_lt hlt

lemma splice_eq (h : t.Closed) (hold : old < t.size) (hp : t.parent? old = some p)
    (hnew : ∀ n ∈ new, n < t.size) :
    splice t p old new = .ok (t.splice p old new) ∧ (t.splice p old new).Closed ∧
      (t.splice p old new).size = t.size := by
  obtain ⟨hok, hclosed⟩ := detach_eq h hold
  have hsize : (t.detach old).2.size = t.size := (Tree.sameNodes_detached t old).size_eq
  have hplt : p < (t.detach old).2.size := hsize ▸ h.parent_lt hp
  set position := (t.detach old).1.getD ((t.detach old).2.children p).length with hposition
  set s := (t.detach old).2.modifyChildren p fun cs =>
    cs.take position ++ new ++ cs.drop position with hs
  have hs_size : s.size = t.size := by rw [hs, Tree.size_modifyChildren, hsize]
  have hs_closed : s.Closed := by
    refine hclosed.modifyChildren hplt fun c hc => ?_
    rw [List.mem_append, List.mem_append] at hc
    rcases hc with (hc | hc) | hc
    · exact hclosed.child_lt (List.mem_of_mem_take hc)
    · exact hsize ▸ hnew c hc
    · exact hclosed.child_lt (List.mem_of_mem_drop hc)
  have hle : ¬ ((t.detach old).2.children p).length < position := by
    rw [hposition, not_lt, Tree.detach, hp]
    dsimp only
    have hplt' : p < (t.setParent old none).size := by simpa using h.parent_lt hp
    rw [Tree.children_modifyChildren hplt', if_pos rfl]
    rcases hi : ((t.setParent old none).children p).idxOf? old with _ | i
    · exact le_rfl
    · exact idxOf?_le_length_erase hi
  obtain ⟨hfold, hfold_closed, hfold_size⟩ := foldlM_ok (l := new)
    (f := fun s n => setParent s n (some p)) (g := fun s n => s.setParent n (some p))
    (fun s => s.Closed ∧ s.size = t.size)
    (fun s hinv n hn => by
      obtain ⟨hs, hsize⟩ := hinv
      have hlt : n < s.size := hsize ▸ hnew n hn
      refine ⟨setParent_eq hlt _, hs.setParent hlt fun q hq => ?_, by simpa using hsize⟩
      obtain rfl := Option.some_injective _ hq
      exact hsize ▸ h.parent_lt hp)
    (s := s) ⟨hs_closed, hs_size⟩
  refine ⟨?_, hfold_closed, hfold_size⟩
  rw [splice, hok, except_bind]
  dsimp only
  rw [children_eq hplt, except_bind, if_neg hle]
  rw [modifyChildren_eq hplt, except_bind]
  exact hfold

lemma detachAll_eq (h : t.Closed) (hnew : ∀ n ∈ new, n < t.size) :
    new.foldlM (fun t n => return (← detach t n).2) t = .ok (new.foldl Tree.detached t) ∧
      (new.foldl Tree.detached t).Closed ∧ (new.foldl Tree.detached t).size = t.size :=
  foldlM_ok (fun s : Tree => s.Closed ∧ s.size = t.size)
    (fun s hinv n hn => by
      obtain ⟨hs, hsize⟩ := hinv
      obtain ⟨hok, hclosed⟩ := detach_eq hs (hsize ▸ hnew n hn)
      refine ⟨?_, hclosed, (Tree.sameNodes_detached s n).size_eq.trans hsize⟩
      rw [hok]
      rfl)
    ⟨h, rfl⟩

lemma replaceWith_eq (h : t.Closed) (hold : old < t.size) (hnew : ∀ n ∈ new, n < t.size)
    (hok : t.replaceWith old new = .ok t') :
    replaceWith t old new = .ok t' ∧ t'.Closed ∧ t.size ≤ t'.size := by
  rw [Tree.replaceWith] at hok
  rw [replaceWith]
  by_cases hself : new = [old]
  · rw [if_pos hself] at hok ⊢
    obtain rfl := Except.ok.inj hok
    exact ⟨rfl, h, le_rfl⟩
  rw [if_neg hself] at hok ⊢
  dsimp only
  rw [mapM_ok fun n _ => isAncestorOrSelf_eq h hold, except_bind, List.any_map]
  split at hok
  · exact absurd hok (by simp)
  rename_i hnone
  rw [if_neg (by simpa using hnone)]
  split at hok
  · rename_i hroot
    obtain rfl := Except.ok.inj hok
    obtain ⟨hcreate, hclosed, hsize⟩ := createWith_eq h .block hnew
    rw [if_pos hroot, hcreate]
    refine ⟨rfl, hclosed.withRoot (hsize ▸ Nat.lt_succ_self t.size), ?_⟩
    exact (Nat.le_succ _).trans hsize.ge
  rename_i hroot
  rw [if_neg hroot]
  obtain ⟨hdetach, hclosed, hsize⟩ := detachAll_eq h hnew
  rw [hdetach, except_bind, parent?_eq (hsize ▸ hold), except_bind]
  dsimp only at hok
  rcases hp : (new.foldl Tree.detached t).parent? old with _ | p
  · rw [hp] at hok
    rcases new with _ | ⟨n, _ | ⟨m, rest⟩⟩
    · obtain rfl := Except.ok.inj hok
      exact ⟨rfl, hclosed, hsize.ge⟩
    · obtain rfl := Except.ok.inj hok
      refine ⟨rfl, ?_, ?_⟩
      · split
        · exact hclosed.withRoot (hsize ▸ hnew n (List.mem_singleton_self n))
        · exact hclosed
      · split <;> exact hsize.ge
    · obtain rfl := Except.ok.inj hok
      exact ⟨rfl, hclosed, hsize.ge⟩
  · rw [hp] at hok
    obtain rfl := Except.ok.inj hok
    obtain ⟨hsplice, hclosed', hsize'⟩ := splice_eq hclosed (hsize ▸ hold) hp
      fun n hn => hsize ▸ hnew n hn
    exact ⟨hsplice, hclosed', (hsize'.trans hsize).ge⟩

/-! ### New nodes -/

lemma settings_eq (h : t.Closed) (hn : n < t.size) (settings : List (String × Scalar)) :
    settings.foldlM (fun t s => modifyNode t n fun m => m.set s.1 s.2) t =
        .ok (settings.foldl (fun t s => t.set n s.1 s.2) t) ∧
      (settings.foldl (fun t s => t.set n s.1 s.2) t).Closed ∧
      (settings.foldl (fun t s => t.set n s.1 s.2) t).size = t.size :=
  foldlM_ok (g := fun (t : Tree) (s : String × Scalar) => t.set n s.1 s.2)
    (fun s => s.Closed ∧ s.size = t.size)
    (fun _ hinv e _ => ⟨modifyNode_eq (hinv.2 ▸ hn) _, hinv.1.set n e.1 e.2,
      (Tree.size_set ..).trans hinv.2⟩)
    ⟨h, rfl⟩

lemma leaf_eq (h : t.Closed) (k : Kind) (settings : List (String × Scalar)) :
    leaf t k settings =
        .ok (t.size, settings.foldl (fun u s => u.set t.size s.1 s.2) (t.create k).2) ∧
      (settings.foldl (fun u s => u.set t.size s.1 s.2) (t.create k).2).Closed ∧
      (settings.foldl (fun u s => u.set t.size s.1 s.2) (t.create k).2).size = t.size + 1 := by
  have hn : t.size < (t.create k).2.size := by
    rw [Tree.size_create]
    exact Nat.lt_succ_self _
  obtain ⟨hok, hclosed, hsize⟩ := settings_eq (h.create k) hn settings
  refine ⟨?_, hclosed, hsize.trans (Tree.size_create t k)⟩
  rw [leaf]
  exact congrArg (· >>= _) hok

/-- A new node in a closed tree, which stays closed. -/
structure Adds (t : Tree) (n : NodeId) (u : Tree) : Prop where
  closed : u.Closed
  lt : n < u.size
  size_le : t.size ≤ u.size

lemma literal_eq (h : t.Closed) (value : Scalar) (line : Option Int64) {r : NodeId × Tree}
    (hr : (do
      let id ← Build.literal value
      Build.atLine? id line
      return id : Build NodeId).run t = r) :
    literal t value line = .ok r ∧ Adds t r.1 r.2 := by
  obtain ⟨hok, hclosed, hsize⟩ := leaf_eq h .constant (literalSettings value ++ lineSettings line)
  have hrun : (do
      let id ← Build.literal value
      Build.atLine? id line
      return id : Build NodeId).run t =
      (t.size, (literalSettings value ++ lineSettings line).foldl
        (fun u s => u.set t.size s.1 s.2) (t.create .constant).2) := by
    cases value <;> cases line <;> rfl
  rw [← hr, hrun]
  exact ⟨hok, hclosed, hsize ▸ Nat.lt_succ_self _, (Nat.le_succ _).trans hsize.ge⟩

/-- A literal in the place of a node. -/
lemma replaceWith_literal_eq (h : t.Closed) (hold : old < t.size) (value : Scalar)
    (line : Option Int64)
    (hrun : (do
      let id ← Build.literal value
      Build.atLine? id line
      return id : Build NodeId).run t = (n, u))
    (hok : u.replaceWith old [n] = .ok t') :
    literal t value line = .ok (n, u) ∧ replaceWith u old [n] = .ok t' ∧ t'.Closed ∧ n < t'.size := by
  obtain ⟨hliteral, hadds⟩ := literal_eq h value line hrun
  obtain ⟨hreplace, hclosed, hsize⟩ := replaceWith_eq hadds.closed (hold.trans_le hadds.size_le)
    (by simpa using hadds.lt) hok
  exact ⟨hliteral, hreplace, hclosed, hadds.lt.trans_le hsize⟩

lemma bareDefinitions_eq (h : t.Closed) (ds : List Declaration) {r : List NodeId × Tree}
    (hr : (ds.mapM Build.bareDefinition).run t = r) :
    bareDefinitions t ds = .ok r ∧ r.2.Closed ∧ t.size ≤ r.2.size ∧ ∀ n ∈ r.1, n < r.2.size := by
  induction ds generalizing t r with
  | nil =>
    subst hr
    exact ⟨rfl, h, le_rfl, List.forall_mem_nil _⟩
  | cons d ds ih =>
    obtain ⟨hok, hclosed, hsize⟩ :=
      leaf_eq h .definition ((Attr.identifier, .string d.1) :: lineSettings d.2)
    set u := ((Attr.identifier, Scalar.string d.1) :: lineSettings d.2).foldl
      (fun u s => u.set t.size s.1 s.2) (t.create .definition).2 with hu
    have hleaf : (Build.bareDefinition d).run t = (t.size, u) := by
      rcases d with ⟨name, _ | line⟩ <;> rfl
    obtain ⟨hrest, hclosed', hle, hlt⟩ := ih hclosed rfl
    have hrun : ((d :: ds).mapM Build.bareDefinition).run t =
        (t.size :: ((ds.mapM Build.bareDefinition).run u).1,
          ((ds.mapM Build.bareDefinition).run u).2) := by
      rw [List.mapM_cons]
      exact congrArg (fun r : NodeId × Tree => (r.1 :: ((ds.mapM Build.bareDefinition).run r.2).1,
        ((ds.mapM Build.bareDefinition).run r.2).2)) hleaf
    rw [← hr, hrun]
    refine ⟨?_, hclosed', ((Nat.le_succ _).trans hsize.ge).trans hle, fun n hn => ?_⟩
    · rw [bareDefinitions, hok, except_bind]
      dsimp only
      rw [hrest]
      rfl
    · rcases List.mem_cons.1 hn with rfl | hn
      · exact (hsize ▸ Nat.lt_succ_self _ : t.size < u.size).trans_le hle
      · exact hlt n hn

lemma definitionList_eq (h : t.Closed) (ds : List Declaration) (line : Option Int64)
    {r : List NodeId × Tree} (hr : (Build.bareDefinitions ds line).run t = r) :
    definitionList t ds line = .ok r ∧ r.2.Closed ∧ t.size ≤ r.2.size ∧ ∀ n ∈ r.1, n < r.2.size := by
  subst hr
  rw [definitionList, Build.bareDefinitions]
  by_cases hds : ds = []
  · rw [if_pos hds, if_pos hds]
    exact ⟨rfl, h, le_rfl, List.forall_mem_nil _⟩
  rw [if_neg hds, if_neg hds]
  rcases hdefs : (ds.mapM Build.bareDefinition).run t with ⟨l, s⟩
  obtain ⟨hok, hclosed, hle, hlt⟩ := bareDefinitions_eq h ds hdefs
  obtain ⟨hcreate, hclosed', hsize⟩ := createWith_eq hclosed .definitionList hlt
  have hn : s.size < (s.createWith .definitionList l).2.size := hsize ▸ Nat.lt_succ_self _
  obtain ⟨hset, hclosed'', hsize'⟩ := settings_eq hclosed' hn (lineSettings line)
  have hrun : (do
      let ids ← ds.mapM Build.bareDefinition
      let list ← Build.node .definitionList ids
      Build.atLine? list line
      return [list] : Build (List NodeId)).run t =
      (fun r : List NodeId × Tree => ([r.2.size],
        (lineSettings line).foldl (fun t e => t.set r.2.size e.1 e.2)
          (r.2.createWith .definitionList r.1).2)) ((ds.mapM Build.bareDefinition).run t) := by
    cases line <;> rfl
  rw [hrun, hdefs]
  refine ⟨?_, hclosed'', ?_, fun n hn' => ?_⟩
  · rw [hok, except_bind]
    dsimp only
    rw [hcreate, except_bind]
    exact congrArg (· >>= _) hset
  · exact hle.trans (hn.le.trans hsize'.ge)
  · rw [List.mem_singleton.1 hn']
    exact hn.trans_le hsize'.ge

lemma orEmptyBlock_eq (h : t.Closed) (hids : ∀ n ∈ ids, n < t.size) (line : Option Int64)
    {r : List NodeId × Tree} (hr : (Build.orEmptyBlock ids line).run t = r) :
    orEmptyBlock t ids line = .ok r ∧ r.2.Closed ∧ t.size ≤ r.2.size ∧ ∀ n ∈ r.1, n < r.2.size := by
  subst hr
  rw [orEmptyBlock, Build.orEmptyBlock]
  by_cases hnil : ids = []
  · rw [if_pos hnil, if_pos hnil]
    obtain ⟨hok, hclosed, hsize⟩ := leaf_eq h .block (lineSettings line)
    have hrun : (do
        let id ← Build.create .block
        Build.atLine? id line
        return [id] : Build (List NodeId)).run t =
        ([t.size], (lineSettings line).foldl (fun u e => u.set t.size e.1 e.2)
          (t.create .block).2) := by
      cases line <;> rfl
    rw [hrun]
    refine ⟨?_, hclosed, (Nat.le_succ _).trans hsize.ge, fun n hn => ?_⟩
    · rw [hok]
      rfl
    · rw [List.mem_singleton.1 hn]
      exact hsize ▸ Nat.lt_succ_self _
  · rw [if_neg hnil, if_neg hnil]
    exact ⟨rfl, h, le_rfl, hids⟩

/-! ### Rewrites -/

lemma ofNode?_eq {α : Type} {f : NodeId → Except Fault (List α)} {g : NodeId → List α}
    {o : Option NodeId} (h : ∀ x ∈ o, f x = .ok (g x)) :
    ofNode? f o = .ok (o.elim [] g) := by
  cases o with
  | none => rfl
  | some x => exact h x rfl

lemma childrenOf?_eq {o : Option NodeId} (ho : ∀ x ∈ o, x < t.size) :
    ofNode? (children t) o = .ok (t.childrenOf? o) := by
  rw [ofNode?_eq fun x hx => children_eq (ho x hx)]
  cases o <;> rfl

lemma lostDeclarations_eq (h : t.Closed) {kept dropped : Option NodeId}
    (hkept : ∀ x ∈ kept, x < t.size) (hdropped : ∀ x ∈ dropped, x < t.size) :
    lostDeclarations t kept dropped = .ok (t.lostDeclarations kept dropped) := by
  rw [lostDeclarations, ofNode?_eq fun x hx => declarations_eq h (hkept x hx), except_bind,
    ofNode?_eq fun x hx => declarations_eq h (hdropped x hx)]
  cases kept <;> cases dropped <;> rfl

lemma inlineIf_eq (h : t.Closed) (hloop : loop < t.size) (condition : Bool)
    (hok : Edit.inlineIf loop condition t = .ok () t') :
    inlineIf t loop condition = .ok t' := by
  have hslot : ∀ b, ∀ x ∈ t.branchSlot loop b, x < t.size := fun b x hx => childOfKind?_lt h hx
  rcases hlist : (Build.bareDefinitions (t.lostBranch loop condition)
    (t.node loop).line?).run t with ⟨list, s⟩
  obtain ⟨hdefs, hclosed, hle, hlt⟩ := definitionList_eq h _ _ hlist
  rcases htaken : (Build.orEmptyBlock (t.childrenOf? (t.branchSlot loop condition) ++ list)
    (t.node loop).line?).run s with ⟨replacement, u⟩
  obtain ⟨hblock, hclosed', hle', hlt'⟩ := orEmptyBlock_eq hclosed (fun x hx => by
    rcases List.mem_append.1 hx with hx | hx
    · obtain ⟨p, -, hx⟩ := Tree.mem_childrenOf?.1 hx
      exact (h.child_lt hx).trans_le hle
    · exact hlt x hx) _ htaken
  have hrun : t.takenBranch loop condition = (replacement, u) := by
    have hstep : t.takenBranch loop condition =
        (fun r : List NodeId × Tree =>
          (Build.orEmptyBlock (t.childrenOf? (t.branchSlot loop condition) ++ r.1)
            (t.node loop).line?).run r.2)
          ((Build.bareDefinitions (t.lostBranch loop condition) (t.node loop).line?).run t) := rfl
    rw [hstep, hlist]
    exact htaken
  rw [Tree.inlineIf_eq, hrun] at hok
  have hstatements := childrenOf?_eq (hslot condition)
  have hlost := lostDeclarations_eq h (hslot condition) (hslot !condition)
  have hother : childOfKind? t loop (if condition then .elseStatement else .statement) =
      .ok (t.branchSlot loop !condition) := by
    cases condition <;> exact childOfKind?_eq h hloop _
  rw [inlineIf, childOfKind?_eq h hloop, except_bind, hother, except_bind, node_eq hloop, except_bind]
  change (ofNode? (children t) (t.branchSlot loop condition) >>= _) = _
  rw [hstatements, except_bind]
  change (lostDeclarations t (t.branchSlot loop condition) (t.branchSlot loop !condition) >>= _) = _
  rw [hlost, except_bind]
  change (definitionList t (t.lostBranch loop condition) (t.node loop).line? >>= _) = _
  rw [hdefs, except_bind]
  dsimp only
  rw [hblock, except_bind]
  exact (replaceWith_eq hclosed' (hloop.trans_le (hle.trans hle')) hlt'
    (Edit.of_replaceWith_ok hok)).1

lemma inlineHook_eq (h : t.Closed) (hx : operation < t.size) (condition : Bool)
    (hok : Edit.inlineHook operation condition t = .ok () t') :
    inlineHook t operation condition = .ok t' := by
  have hslot : ∀ x ∈ t.childOfKind? operation (if condition then .second else .third),
      x < t.size := fun x hx => childOfKind?_lt h hx
  rw [inlineHook, childOfKind?_eq h hx, except_bind, childrenOf?_eq hslot, except_bind]
  refine (replaceWith_eq h hx (fun x hx => ?_) (Edit.of_replaceWith_ok hok)).1
  obtain ⟨p, -, hx⟩ := Tree.mem_childrenOf?.1 hx
  exact h.child_lt hx

lemma foldAll_eq {limit : Nat} {m : NodeId} (h : t.Closed) (hn : n < t.size)
    (hok : Edit.foldAll limit n t = .ok m t') :
    foldAll limit t n = .ok (m, t') ∧ t'.Closed ∧ m < t'.size := by
  induction limit generalizing t n with
  | zero =>
    obtain ⟨rfl, rfl⟩ := EStateM.Result.ok.inj hok
    exact ⟨rfl, h, hn⟩
  | succ limit ih =>
    rw [foldAll, comparison?_eq h hn, except_bind]
    rcases hfound : t.comparison? n with _ | found
    · rw [Tree.foldAll_none hfound] at hok
      obtain ⟨rfl, rfl⟩ := EStateM.Result.ok.inj hok
      exact ⟨rfl, h, hn⟩
    · rcases hrun : (Build.boolean found.outcome (t.node found.operation).line?).run t with ⟨k, u⟩
      rw [Tree.foldAll_some hfound hrun] at hok
      obtain ⟨_, t₁, hreplace, hrest⟩ := of_bind_ok hok
      have hlt := comparison?_lt h hfound
      obtain ⟨hliteral, hchecked, hclosed, hk⟩ := replaceWith_literal_eq h hlt (.bool found.outcome)
        (t.node found.operation).line? hrun (Edit.of_replaceWith_ok hreplace)
      dsimp only
      rw [node_eq hlt, except_bind, hliteral, except_bind]
      dsimp only
      rw [hchecked, except_bind]
      exact ih hclosed hk hrest

/-! ### Steps -/

section Steps

variable {α : Type} {variants : Variants} {site : CallSite} {w w' : Workspace}

/-- How a run ends, with a refused move as a fault. -/
def lift : EStateM.Result Failure Workspace α → EStateM.Result Stop Workspace α
  | .ok a w => .ok a w
  | .error (.misplaced e) w => .error (.fault (.misplaced e)) w
  | .error (.variant e) w => .error (.variant e) w

lemma ask_ok {q : Tree → Except Fault α} {a : α} (h : q w.tree = .ok a) : ask q w = .ok a w := by
  rw [ask, h]

lemma change_ok {e : Tree → Except Fault (α × Tree)} {a : α} (h : e w.tree = .ok (a, t)) :
    change e w = .ok a { w with tree := t } := by
  rw [change, h]

lemma update_ok {e : Tree → Except Fault Tree} (h : e w.tree = .ok t) :
    update e w = .ok () { w with tree := t } := by
  refine change_ok ?_
  rw [h]
  rfl

lemma report_ok (hx : x < w.tree.size) (add : Log → Tree → Log) :
    report x add w = .ok () { w with log := add w.log w.tree } := by
  rw [report, bind_ok (ask_ok (node_eq hx))]
  rfl

lemma info_ok (hx : x < w.tree.size) (message : String) :
    info x message w = .ok () { w with log := w.log.info w.tree x message } := report_ok hx _

lemma leave_ok {m : Malformed} (hm : m.node < w.tree.size) :
    leave site m w = .ok false { w with log := w.log.malformed w.tree site m } := by
  rw [leave, bind_ok (report_ok hm _)]
  rfl

lemma fail_ok (hx : x < w.tree.size) (complaint : Location → VariantError) :
    fail x complaint w = .error (.variant (complaint (w.log.location w.tree x))) w := by
  rw [fail, bind_ok (ask_ok (node_eq hx))]
  rfl

lemma keyArguments_error_lt {expected : Nat} {m : Malformed} (h : t.Closed) (hx : x < t.size)
    (hm : t.keyArguments x expected = .error m) : m.node < t.size := by
  have hparams : (t.childOfKind? x .params).getD x < t.size := by
    rcases hp : t.childOfKind? x .params with _ | p
    · exact hx
    · exact childOfKind?_lt h hp
  simp only [Tree.keyArguments] at hm
  split at hm
  · split at hm
    · rename_i key rest hargs
      split at hm
      · exact absurd hm (by simp)
      · obtain rfl := Except.error.inj hm
        exact callArgs_lt h (x := x) (hargs ▸ List.mem_cons_self)
    · obtain rfl := Except.error.inj hm
      exact hx
  · obtain rfl := Except.error.inj hm
    exact hparams

lemma secondArg_lt {key : String} {args : List NodeId} (h : t.Closed)
    (hargs : t.keyArguments x 2 = .ok (key, args)) : Tree.secondArg args < t.size := by
  obtain ⟨rfl, hlen, -⟩ := Tree.keyArguments_ok hargs
  exact callArgs_lt h (Tree.secondArg_mem hlen)

lemma select_eq (h : w.tree.WellLinked) (hatt : w.tree.AtOrBelow w.tree.root site.call)
    (hkind : w.tree.kind site.call = .call) :
    select variants site w = lift (Step.select variants site w) := by
  have hc := h.closed
  have hlt := hatt.lt h.root_lt
  rw [select, bind_ok (ask_ok (keyArguments_eq hc hlt Nat.two_pos))]
  rcases hargs : w.tree.keyArguments site.call 2 with m | ⟨key, args⟩
  · rw [Step.select_malformed hargs]
    exact leave_ok (keyArguments_error_lt hc hlt hargs)
  dsimp only
  rcases hv : variants.lookup key with _ | value
  · rw [Step.select_unset hargs hv]
    rfl
  dsimp only
  have hmap := secondArg_lt hc hargs
  rw [bind_ok (ask_ok (argument_eq (Tree.keyArguments_ok hargs).2.1)),
    bind_ok (ask_ok (branches_eq hc hmap))]
  rcases hbs : w.tree.branches (Tree.secondArg args) with m | bs
  · rw [Step.select_notMap hargs hv hbs]
    refine leave_ok ?_
    rw [Tree.branches] at hbs
    split at hbs
    · exact absurd hbs (by simp)
    · exact Except.error.inj hbs ▸ hmap
  dsimp only
  rcases hb : Branch.choose bs value with _ | b
  · rw [Step.select_noMatch hargs hv hbs hb]
    exact fail_ok hlt _
  · have hvalue := h.isEntryValue hargs hbs hb
    obtain ⟨t', hok, -⟩ := (Tree.Reason.entry hkind rfl hvalue).graft h hatt
    rw [Step.select_chosen hargs hv hbs hb hok]
    dsimp only
    rw [bind_ok (info_ok hlt _)]
    have hreplace := (replaceWith_eq hc hlt
      (by simpa using hvalue.below.atOrBelow.lt hlt) hok).1
    exact bind_ok (update_ok hreplace)

lemma isSet_eq (h : w.tree.WellLinked) (hatt : w.tree.AtOrBelow w.tree.root site.call)
    (hkind : w.tree.kind site.call = .call) :
    isSet variants site w = lift (Step.isSet variants site w) := by
  have hc := h.closed
  have hlt := hatt.lt h.root_lt
  rw [isSet, bind_ok (ask_ok (keyArguments_eq hc hlt Nat.two_pos))]
  rcases hargs : w.tree.keyArguments site.call 2 with m | ⟨key, args⟩
  · rw [Step.isSet_malformed hargs]
    exact leave_ok (keyArguments_error_lt hc hlt hargs)
  dsimp only
  rcases hv : variants.lookup key with _ | value
  · rw [Step.isSet_unset hargs hv]
    rfl
  dsimp only
  have hsecond := secondArg_lt hc hargs
  rw [bind_ok (ask_ok (argument_eq (Tree.keyArguments_ok hargs).2.1)),
    bind_ok (ask_ok (node_eq hsecond))]
  rcases hlit : (w.tree.node (Tree.secondArg args)).isStringLiteral with _ | _
  · rw [Step.isSet_notString hargs hv hlit]
    exact leave_ok hsecond
  rw [if_pos rfl, bind_ok (ask_ok (enclosingIf_eq hc hlt)),
    bind_ok (ask_ok (enclosingHook_eq hc hlt))]
  rcases hloop : w.tree.enclosingIf site.call with _ | loop
  · rcases hhook : w.tree.enclosingHook site.call with _ | operation
    · rcases hrun : (Build.boolean (Step.matchedIn w.tree args value)
        (w.tree.node site.call).line?).run w.tree with ⟨n, u⟩
      have hleaf := Tree.newLeaf_boolean h (Step.matchedIn w.tree args value)
        (w.tree.node site.call).line?
      rw [hrun] at hleaf
      obtain ⟨t', hok, -⟩ := (Tree.Reason.literal (Tree.AtOrBelow.refl w.tree site.call)
        (Or.inl hkind) hleaf).graft h hatt
      rw [Step.isSet_constant hargs hv hlit hloop hhook hrun hok]
      obtain ⟨hliteral, hreplace, -⟩ :=
        replaceWith_literal_eq hc hlt (.bool _) (w.tree.node site.call).line? hrun hok
      dsimp only
      rw [bind_ok (ask_ok (node_eq hlt))]
      refine (bind_ok (change_ok hliteral)).trans ?_
      exact bind_ok (update_ok (w := { w with tree := u }) hreplace)
    · obtain ⟨t', hok, -⟩ := h.inlineHook_ok hatt hhook (Step.matchedIn w.tree args value)
      rw [Step.isSet_hook hargs hv hlit hloop hhook hok]
      have hop := enclosingHook_lt hc hhook
      dsimp only
      rw [bind_ok (info_ok hop _)]
      exact bind_ok (update_ok (inlineHook_eq hc hop _ hok))
  · obtain ⟨t', hok, -⟩ := h.inlineIf_ok hatt hloop (Step.matchedIn w.tree args value)
    rw [Step.isSet_if hargs hv hlit hloop hok]
    have hlooplt := enclosingIf_lt hc hloop
    dsimp only
    rw [bind_ok (info_ok hlooplt _)]
    exact bind_ok (update_ok (inlineIf_eq hc hlooplt _ hok))

lemma settle_eq (h : w.tree.WellLinked) (hatt : w.tree.AtOrBelow w.tree.root n) :
    settle n w = lift (Step.settle n w) := by
  have hc := h.closed
  have hlt := hatt.lt h.root_lt
  obtain ⟨m, t₂, hrun, hfolds⟩ := Tree.foldAll_folds h hatt le_rfl
  obtain ⟨hwl, hattm⟩ := hfolds.attached h hatt
  obtain ⟨hfold, hc₂, hm⟩ := foldAll_eq hc hlt hrun
  rw [settle, bind_ok (ask_ok (ancestors_eq hc hlt))]
  refine (bind_ok (change_ok hfold)).trans ?_
  refine (bind_ok (ask_ok (enclosingIf_eq hc₂ hm))).trans ?_
  refine (bind_ok (ask_ok (node_eq hm))).trans ?_
  rcases hloop : t₂.enclosingIf m with _ | loop
  · rw [Step.settle_plain hrun (Or.inl hloop)]
    rfl
  rcases hd : (t₂.node m).decode? with _ | v
  · rw [Step.settle_plain hrun (Or.inr hd)]
    rfl
  · obtain ⟨t₃, hok, -⟩ := hwl.inlineIf_ok hattm hloop (conditionTruth v)
    rw [Step.settle_if hrun hloop hd hok]
    have hlooplt := enclosingIf_lt hc₂ hloop
    dsimp only
    refine (bind_ok (info_ok hlooplt _)).trans ?_
    exact bind_ok (update_ok (inlineIf_eq hc₂ hlooplt _ hok))

lemma getValue_eq (h : w.tree.WellLinked) (hatt : w.tree.AtOrBelow w.tree.root site.call)
    (hkind : w.tree.kind site.call = .call) :
    getValue variants site w = lift (Step.getValue variants site w) := by
  have hc := h.closed
  have hlt := hatt.lt h.root_lt
  rw [getValue, bind_ok (ask_ok (keyArguments_eq hc hlt Nat.one_pos))]
  rcases hargs : w.tree.keyArguments site.call 1 with m | ⟨key, args⟩
  · rw [Step.getValue_malformed hargs]
    exact leave_ok (keyArguments_error_lt hc hlt hargs)
  dsimp only
  rcases hv : variants.lookup key with _ | value
  · rw [Step.getValue_unset hargs hv]
    rfl
  dsimp only
  rcases Tree.materialize_cases h value (w.tree.node site.call).line?
    (w.log.location w.tree site.call) with ⟨hlit, n, u, hm, hleaf⟩ | ⟨hlit, e, hm⟩
  · obtain ⟨t₁, hok, hgraft⟩ := (Tree.Reason.literal (Tree.AtOrBelow.refl w.tree site.call)
      (Or.inl hkind) hleaf).graft h hatt
    rw [Step.getValue_set hargs hv hm hok, if_pos hlit, bind_ok (ask_ok (node_eq hlt))]
    have hrun := Except.ok.inj ((if_pos hlit).symm.trans hm)
    obtain ⟨hliteral, hreplace, -, hn⟩ :=
      replaceWith_literal_eq hc hlt value (w.tree.node site.call).line? hrun hok
    refine (bind_ok (change_ok hliteral)).trans ?_
    refine (bind_ok (update_ok (w := { w with tree := u }) hreplace)).trans ?_
    refine (bind_ok (info_ok (w := { w with tree := t₁ }) hn _)).trans ?_
    exact settle_eq (w := ⟨t₁, _⟩) hgraft.wellLinked
      (hgraft.attached_new (List.mem_singleton_self n))
  · rw [Step.getValue_unsupported hargs hv hm, if_neg (by simp [hlit])]
    have he := Except.error.inj ((if_neg (by simp [hlit])).symm.trans hm)
    rw [← he]
    exact fail_ok hlt _

lemma resolve_eq (h : w.tree.WellLinked) (hatt : w.tree.AtOrBelow w.tree.root site.call)
    (hkind : w.tree.kind site.call = .call) :
    resolve variants site w = lift (Step.resolve variants site w) := by
  rcases hm : site.method <;> simp only [resolve, Step.resolve, hm]
  · exact select_eq h hatt hkind
  · exact isSet_eq h hatt hkind
  · exact isSet_eq h hatt hkind
  · exact getValue_eq h hatt hkind

lemma visit_eq (variants : Variants) (h : w.tree.WellLinked) (hlt : site.call < w.tree.size)
    (hkind : w.tree.kind site.call = .call) :
    visit variants site w = lift (Step.visit variants site w) := by
  rw [visit, bind_ok (ask_ok (isAttached_eq h.closed hlt)), Step.visit, bind_ok (Step.tree_ok w)]
  split
  · rename_i hatt
    exact resolve_eq h (h.isAttached_iff.1 hatt) hkind
  · rfl

lemma visitAll_eq {sites : List CallSite} (h : w.tree.WellLinked)
    (hsites : Step.Calls w.tree sites) :
    visitAll variants sites w = lift (Step.visitAll variants sites w) := by
  induction sites generalizing w with
  | nil => rfl
  | cons site rest ih =>
    obtain ⟨hlt, hkind⟩ := hsites site List.mem_cons_self
    have hvisit := visit_eq variants h hlt hkind
    rw [visitAll, Step.visitAll]
    rcases Step.visit_keeps (P := fun _ => True)
      (fun _ _ _ _ => trivial) variants h hkind trivial with ⟨b, w₁, hplain, -⟩ | ⟨e, hplain⟩
    · rw [hplain] at hvisit
      obtain ⟨h₁, hkept⟩ := Step.visit_ok h hkind hplain
      have hrest := ih h₁ (hsites.rest.keeps hkept)
      rw [bind_ok hvisit, bind_ok hplain]
      rcases hend : Step.visitAll variants rest w₁ with ⟨b', w₂⟩ | ⟨e | e, w₂⟩
      · rw [hend] at hrest
        rw [bind_ok hend, bind_ok hrest]
        rfl
      · rw [hend] at hrest
        rw [bind_error hend, bind_error hrest]
        rfl
      · rw [hend] at hrest
        rw [bind_error hend, bind_error hrest]
        rfl
    · rw [hplain] at hvisit
      rw [bind_error hvisit, bind_error hplain]
      rfl

lemma optimize_eq (variants : Variants) (h : w.tree.WellLinked) (namespaces : List String) :
    optimize namespaces variants w = lift (Step.optimize namespaces variants w) := by
  rw [optimize, bind_ok (ask_ok (callSites_eq h.closed namespaces)), Step.optimize,
    bind_ok (Step.tree_ok w)]
  exact visitAll_eq h (Step.calls_callSites h namespaces)

end Steps

end Checked

/-- On a well-linked tree a run leaves a well-linked tree, whether it ends well or with a complaint about
the configuration.  The run that checks every look-up, every position and every move ends the same way: it
meets no fault. -/
theorem optimize_wellLinked {w : Workspace} (h : w.tree.WellLinked) (namespaces : List String)
    (variants : Variants) :
    ∃ w', w'.tree.WellLinked ∧
      ((∃ changed, Step.optimize namespaces variants w = .ok changed w' ∧
          Checked.optimize namespaces variants w = .ok changed w') ∨
        ∃ e, Step.optimize namespaces variants w = .error (.variant e) w' ∧
          Checked.optimize namespaces variants w = .error (.variant e) w') := by
  have hchecked := Checked.optimize_eq variants h namespaces
  obtain ⟨w', h', -, ⟨changed, hplain⟩ | ⟨e, hplain⟩⟩ := Step.optimize_keeps
    (P := fun _ => True) (fun _ _ _ _ => trivial) variants h trivial namespaces
  · rw [hplain] at hchecked
    exact ⟨w', h', Or.inl ⟨changed, hplain, hchecked⟩⟩
  · rw [hplain] at hchecked
    exact ⟨w', h', Or.inr ⟨e, hplain, hchecked⟩⟩

theorem optimize_wellLinked_ifOnVariant :
    ifOnVariant.WellLinked ∧ ∃ w', w'.tree.WellLinked ∧
      ((∃ changed, Step.optimize ["env"] debugOn ⟨ifOnVariant, {}⟩ = .ok changed w' ∧
          Checked.optimize ["env"] debugOn ⟨ifOnVariant, {}⟩ = .ok changed w') ∨
        ∃ e, Step.optimize ["env"] debugOn ⟨ifOnVariant, {}⟩ = .error (.variant e) w' ∧
          Checked.optimize ["env"] debugOn ⟨ifOnVariant, {}⟩ = .error (.variant e) w') :=
  ⟨by decide, optimize_wellLinked (by decide) ["env"] debugOn⟩

end VariantFold
