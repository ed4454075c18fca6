/-
Runs and what they make of subtrees.

A run goes through the calls that it found in pre-order, so it goes through subtrees in order.
`Simulates` says of a row of snapshots what a run through the calls below such a row comes to: it puts
another row in the place, which looks as described, or it ends with a complaint.  Rows are put together
from shorter ones, and nodes from the rows below them.
-/
import VariantFold.Proofs.Local
import VariantFold.Proofs.Sites

namespace VariantFold

/-- Whether the calls that are found below a node of a kind are below it too: a name belongs to a call
two levels up. -/
def Kind.isClosed (k : Kind) : Bool := k ≠ .dottedName && k ≠ .operand

namespace Tree

variable {t t' : Tree} {x y z : NodeId} {namespaces : List String} {site : CallSite}

/-! ### Calls below a node -/

/-- The calls that ask for variants and are found below a node. -/
def sitesBelow (t : Tree) (namespaces : List String) (x : NodeId) : List CallSite :=
  (t.descendants x).filterMap (t.callSite? namespaces)

lemma WellLinked.sitesBelow_eq (h : t.WellLinked) (x : NodeId) :
    t.sitesBelow namespaces x =
      (t.callSite? namespaces x).toList ++ (t.children x).flatMap (t.sitesBelow namespaces) := by
  have hrest : ((t.children x).flatMap t.descendants).filterMap (t.callSite? namespaces) =
      (t.children x).flatMap (t.sitesBelow namespaces) := List.filterMap_flatMap
  rw [sitesBelow, h.descendants_eq, List.filterMap_cons, hrest]
  rcases t.callSite? namespaces x with _ | site <;> rfl

lemma callSite?_eq_none (hx : t.kind x ≠ .dottedName) : t.callSite? namespaces x = none := by
  rw [callSite?, if_neg hx]

lemma WellLinked.mem_sitesBelow (h : t.WellLinked) : site ∈ t.sitesBelow namespaces x ↔
    ∃ y, t.AtOrBelow x y ∧ t.callSite? namespaces y = some site := by
  rw [sitesBelow, List.mem_filterMap]
  simp only [h.mem_descendants]

/-- A call that is found below a node of a closed kind is below it. -/
lemma WellLinked.call_atOrBelow (h : t.WellLinked) (hz : (t.kind z).isClosed = true)
    (hsite : site ∈ t.sitesBelow namespaces z) : t.AtOrBelow z site.call := by
  obtain ⟨y, hy, hsite⟩ := h.mem_sitesBelow.1 hsite
  obtain ⟨hkind, -, operand, hop, hkindop, hcall, -⟩ := callSite?_spells hsite
  have hup : ∀ {a b}, t.AtOrBelow z a → t.parent? a = some b → (t.kind a).isClosed = false →
      t.AtOrBelow z b := by
    intro a b hza hab hka
    rcases atOrBelow_iff.1 hza with rfl | hbelow
    · rw [hz] at hka
      exact absurd hka (by simp)
    · exact (below_of_parent_iff hab).1 hbelow
  exact hup (hup hy hop (by rw [hkind]; rfl)) hcall (by rw [hkindop]; rfl)

namespace SameBelow

variable (h : t.SameBelow t' z) (ht : t.WellLinked) (ht' : t'.WellLinked)
include h ht ht'

lemma parent_eq (hy : t.AtOrBelow z y) (hne : y ≠ z) :
    ∃ q, t.AtOrBelow z q ∧ t.parent? y = some q ∧ t'.parent? y = some q := by
  rcases Tree.atOrBelow_iff.1 hy with heq | hbelow
  · exact absurd heq hne
  · obtain ⟨q, hq, hle⟩ := below_iff.1 hbelow
    refine ⟨q, hle, hq, ht'.parent_of_mem ?_⟩
    rw [(h q hle).2]
    exact ht.mem_of_parent hq

lemma callSite?_eq (hz : (t.kind z).isClosed = true) (hy : t.AtOrBelow z y) :
    t'.callSite? namespaces y = t.callSite? namespaces y := by
  have hne : ∀ {a}, (t.kind a).isClosed = false → a ≠ z := by
    rintro a ha rfl
    rw [hz] at ha
    exact absurd ha (by simp)
  by_cases hkind : t.kind y = .dottedName
  · have hspell : t'.spelling? namespaces y = t.spelling? namespaces y := by
      refine spelling?_congr (h y hy).1 (h y hy).2 fun c hc => (h c ?_).1
      exact hy.trans (ht.below_child hc).atOrBelow
    obtain ⟨operand, hop, hy₁, hy₂⟩ := h.parent_eq ht ht' hy (hne (by rw [hkind]; rfl))
    have hcall : t'.callOf? y = t.callOf? y := by
      rw [callOf?, callOf?, hy₁, hy₂]
      dsimp only
      rw [(h operand hop).1.kind_eq]
      by_cases hkindop : t.kind operand = .operand
      · obtain ⟨call, hcall, ho₁, ho₂⟩ := h.parent_eq ht ht' hop (hne (by rw [hkindop]; rfl))
        rw [if_pos hkindop, if_pos hkindop, ho₁, ho₂]
        dsimp only
        rw [(h call hcall).1.kind_eq]
      · rw [if_neg hkindop, if_neg hkindop]
    rw [Tree.callSite?_eq, Tree.callSite?_eq, hspell, hcall]
  · rw [callSite?_eq_none hkind, callSite?_eq_none (by rwa [(h y hy).1.kind_eq])]

lemma sitesBelow_eq (hz : (t.kind z).isClosed = true) :
    t'.sitesBelow namespaces z = t.sitesBelow namespaces z := by
  rw [sitesBelow, sitesBelow, h.descendants_eq ht ht']
  exact List.filterMap_congr fun y hy => h.callSite?_eq ht ht' hz (ht.mem_descendants.1 hy)

end SameBelow

end Tree

/-- A selection for which no entry fits. -/
structure Unmatched where
  key : String
  value : String
  deriving DecidableEq, Repr

/-- The complaint about a selection for which no entry fits, in a file. -/
def Unmatched.complaint (e : Unmatched) (file : Option String) : Failure :=
  .variant (.noMatchingBranch e.key e.value ⟨file, none⟩)

namespace Step

variable {variants : Variants} {site : CallSite} {sites sites' : List CallSite}
  {w w₁ w₂ : Workspace} {α β : Type}

/-! ### Runs in a row -/

/-- Calls that were cut out are skipped. -/
lemma visitAll_detached (variants : Variants) (h : w.tree.WellLinked)
    (hsites : ∀ site ∈ sites, ¬ w.tree.AtOrBelow w.tree.root site.call) :
    ∃ w', visitAll variants sites w = .ok false w' ∧ w'.tree = w.tree ∧
      w'.log.file = w.log.file := by
  induction sites generalizing w with
  | nil => exact ⟨w, rfl, rfl, rfl⟩
  | cons site rest ih =>
    have hnot := hsites site List.mem_cons_self
    obtain ⟨w', hrest, htree, hfile⟩ := ih
      (w := { w with log := w.log.note .trace ("Skipping detached call site " ++ site.callee) }) h
      fun s hs => hsites s (List.mem_cons_of_mem site hs)
    exact ⟨w', visitAll_cons_ok.2 ⟨false, _, false, visit_detached h hnot, hrest, rfl⟩, htree, hfile⟩

/-- A run through calls comes to a result: either it ends well with a value that fits, or it ends with
a complaint. -/
def ComesTo (variants : Variants) (sites : List CallSite) (w : Workspace)
    (r : Except Unmatched α) (fits : Workspace → α → Prop) : Prop :=
  match r with
  | .ok a => ∃ b w', visitAll variants sites w = .ok b w' ∧ w'.log.file = w.log.file ∧ fits w' a
  | .error e => ∃ w', visitAll variants sites w = .error (e.complaint w.log.file) w'

namespace ComesTo

variable {r : Except Unmatched α} {fits : Workspace → α → Prop} {fits' : Workspace → β → Prop}

lemma map (h : ComesTo variants sites w r fits) (f : α → β)
    (hfits : ∀ w' a, fits w' a → fits' w' (f a)) :
    ComesTo variants sites w (r.map f) fits' := by
  rcases r with e | a
  · exact h
  · obtain ⟨b, w', hrun, hfile, ha⟩ := h
    exact ⟨b, w', hrun, hfile, hfits w' a ha⟩

lemma mono {fits' : Workspace → α → Prop} (h : ComesTo variants sites w r fits)
    (hfits : ∀ w' a, fits w' a → fits' w' a) : ComesTo variants sites w r fits' := by
  rcases r with e | a
  · exact h
  · obtain ⟨b, w', hrun, hfile, ha⟩ := h
    exact ⟨b, w', hrun, hfile, hfits w' a ha⟩

lemma bind (h : ComesTo variants sites w r fits) {f : α → Except Unmatched β}
    (hrest : ∀ w' a, fits w' a → ComesTo variants sites' w' (f a) fits') :
    ComesTo variants (sites ++ sites') w (r >>= f) fits' := by
  rcases r with e | a
  · obtain ⟨w', hrun⟩ := h
    exact ⟨w', by rw [visitAll_append, bind_error hrun]⟩
  · obtain ⟨b, w', hrun, hfile, ha⟩ := h
    have hnext := hrest w' a ha
    change ComesTo variants (sites ++ sites') w (f a) fits'
    generalize f a = r' at hnext ⊢
    rcases r' with e | a'
    · obtain ⟨w'', hrun'⟩ := hnext
      refine ⟨w'', ?_⟩
      rw [visitAll_append, bind_ok hrun, bind_error hrun', hfile]
    · obtain ⟨b', w'', hrun', hfile', ha'⟩ := hnext
      refine ⟨b || b', w'', ?_, hfile'.trans hfile, ha'⟩
      rw [visitAll_append, bind_ok hrun, bind_ok hrun']
      rfl

/-- One call that is resolved, and then the others. -/
lemma cons {b : Bool} (hvisit : visit variants site w = .ok b w₁)
    (hfile : w₁.log.file = w.log.file) (h : ComesTo variants sites w₁ r fits) :
    ComesTo variants (site :: sites) w r fits := by
  rcases r with e | a
  · obtain ⟨w', hrun⟩ := h
    exact ⟨w', visitAll_cons_error.2 (Or.inr ⟨b, w₁, hvisit, hfile ▸ hrun⟩)⟩
  · obtain ⟨b', w', hrun, hfile', ha⟩ := h
    exact ⟨b || b', w', visitAll_cons_ok.2 ⟨b, w₁, b', hvisit, hrun, rfl⟩, hfile'.trans hfile, ha⟩

lemma cons_error {e : Unmatched}
    (hvisit : visit variants site w = .error (e.complaint w.log.file) w) :
    ComesTo variants (site :: sites) w (.error e) fits :=
  ⟨w, visitAll_cons_error.2 (Or.inl hvisit)⟩

/-- Calls that were cut out, and then others. -/
lemma after_detached (h : w.tree.WellLinked)
    (hsites : ∀ site ∈ sites, ¬ w.tree.AtOrBelow w.tree.root site.call)
    (hrest : ∀ w', w'.tree = w.tree → ComesTo variants sites' w' r fits) :
    ComesTo variants (sites ++ sites') w r fits := by
  obtain ⟨w', hrun, htree, hfile⟩ := visitAll_detached variants h hsites
  have hskip : ComesTo variants sites w (.ok ()) fun w' _ => w'.tree = w.tree :=
    ⟨false, w', hrun, hfile, htree⟩
  exact hskip.bind (f := fun _ => r) fun w' _ => hrest w'

/-- Calls, and then others that were cut out. -/
lemma before_detached (h : ComesTo variants sites w r fits)
    (hsites : ∀ w' a, fits w' a → w'.tree.WellLinked ∧
      ∀ site ∈ sites', ¬ w'.tree.AtOrBelow w'.tree.root site.call)
    (hfits : ∀ w' w'' a, fits w' a → w''.tree = w'.tree → fits w'' a) :
    ComesTo variants (sites ++ sites') w r fits := by
  rw [← bind_pure r]
  refine h.bind fun w' a ha => ?_
  obtain ⟨hwl, hdet⟩ := hsites w' a ha
  obtain ⟨w'', hrun, htree, hfile⟩ := visitAll_detached variants hwl hdet
  exact ⟨false, w'', hrun, hfile, hfits w' w'' a ha htree⟩

end ComesTo

end Step

/-! ### Rows of subtrees -/

/-- A run through the calls below a row of subtrees that look like `before` comes to a row that looks
like `after` in the same place, or to a complaint. -/
def Simulates (namespaces : List String) (variants : Variants) (before : List Snapshot)
    (after : Except Unmatched (List Snapshot)) : Prop :=
  ∀ (w : Workspace) (p : NodeId) (pre xs post : List NodeId), w.tree.WellLinked →
    w.tree.AtOrBelow w.tree.root p → w.tree.children p = pre ++ xs ++ post →
    xs.map w.tree.snapshot = before →
    Step.ComesTo variants (xs.flatMap (w.tree.sitesBelow namespaces)) w after fun w' ss =>
      ∃ xs', w.tree.LocalChange p pre xs post w'.tree xs' ∧ xs'.map w'.tree.snapshot = ss

namespace Simulates

variable {namespaces : List String} {variants : Variants} {ss ss' : List Snapshot}
  {r r' : Except Unmatched (List Snapshot)}

lemma nil : Simulates namespaces variants [] (.ok []) := by
  intro w p pre xs post h hp hchildren hxs
  obtain rfl := List.map_eq_nil_iff.1 hxs
  exact ⟨false, w, rfl, rfl, [], Tree.LocalChange.refl h hp hchildren, rfl⟩

/-- One row after the other. -/
lemma append (h₁ : Simulates namespaces variants ss r) (h₂ : Simulates namespaces variants ss' r')
    (hclosed : ∀ s ∈ ss', s.kind.isClosed = true) :
    Simulates namespaces variants (ss ++ ss') (do return (← r) ++ (← r')) := by
  intro w p pre xs post h hp hchildren hxs
  obtain ⟨ys, zs, rfl, hys, hzs⟩ := List.map_eq_append_iff.1 hxs
  rw [List.flatMap_append]
  refine (h₁ w p pre ys (zs ++ post) h hp (by simp only [hchildren, List.append_assoc]) hys).bind ?_
  rintro w₁ ss₁ ⟨ys₁, l₁, hys₁⟩
  -- the second row is still as it was
  have hsame : ∀ z ∈ zs, w.tree.SameBelow w₁.tree z := fun z hz =>
    l₁.sameBelow_sibling (Or.inr (List.mem_append_left post hz))
  have hsites : zs.flatMap (w.tree.sitesBelow namespaces) =
      zs.flatMap (w₁.tree.sitesBelow namespaces) := by
    refine List.flatMap_congr fun z hz => ?_
    refine ((hsame z hz).sitesBelow_eq h l₁.wellLinked ?_).symm
    have hkind := hclosed _ (hzs ▸ List.mem_map_of_mem hz)
    rwa [h.snapshot_eq] at hkind
  have hzs₁ : zs.map w₁.tree.snapshot = ss' := by
    rw [← hzs]
    exact List.map_congr_left fun z hz => (hsame z hz).snapshot_eq h l₁.wellLinked
  rw [hsites]
  refine (h₂ w₁ p (pre ++ ys₁) zs post l₁.wellLinked l₁.attached_parent_after
    (by simp only [l₁.after, List.append_assoc]) hzs₁).map _ ?_
  rintro w₂ ss₂ ⟨zs₂, l₂, hzs₂⟩
  refine ⟨ys₁ ++ zs₂, l₁.append l₂, ?_⟩
  rw [List.map_append, hzs₂, ← hys₁]
  congr 1
  refine List.map_congr_left fun y hy => ?_
  exact (l₂.sameBelow_sibling (Or.inl (List.mem_append_right pre hy))).snapshot_eq l₁.wellLinked
    l₂.wellLinked

/-- A node and the row below it. -/
lemma node {k : Kind} {as : Attributes} (hrow : Simulates namespaces variants ss r)
    (hk : k ≠ .dottedName) :
    Simulates namespaces variants [.node k as ss] (r.map fun ss' => [.node k as ss']) := by
  intro w p pre xs post h hp hchildren hxs
  obtain ⟨x, rfl, hx⟩ := List.map_eq_singleton_iff.1 hxs
  rw [h.snapshot_eq] at hx
  obtain ⟨hkind, hattributes, hrow'⟩ := Snapshot.node.inj hx
  have hmem : x ∈ w.tree.children p := by
    rw [hchildren]
    simp
  have hatt := hp.trans (h.below_child hmem).atOrBelow
  rw [List.flatMap_singleton, h.sitesBelow_eq, Tree.callSite?_eq_none (hkind ▸ hk)]
  refine (hrow w x [] (w.tree.children x) [] h hatt (by simp) hrow').map _ ?_
  rintro w' ss' ⟨xs', l, hxs'⟩
  refine ⟨[x], l.up hchildren (Tree.AtOrBelow.refl w.tree x), ?_⟩
  rw [List.map_singleton, l.snapshot_eq, hkind, hattributes, hxs', List.map_nil, List.nil_append,
    List.append_nil]

/-- What follows a graft: the run goes on below the nodes that came in.  The other calls below the node
that went were cut out with it. -/
lemma after_graft {t u : Tree} {w : Workspace} {old p : NodeId} {new pre post : List NodeId}
    {before after : List CallSite} (hrow : Simulates namespaces variants ss r)
    (g : t.Graft u old new w.tree) (hp : t.children p = pre ++ [old] ++ post)
    (hnew : new.map w.tree.snapshot = ss)
    (hcut : ∀ site ∈ before ++ after, t.AtOrBelow old site.call ∧
      ∀ n ∈ new, ¬ t.AtOrBelow n site.call) :
    Step.ComesTo variants (before ++ (new.flatMap (w.tree.sitesBelow namespaces) ++ after)) w r
      fun w' ss' => ∃ xs, t.LocalChange p pre [old] post w'.tree xs ∧ xs.map w'.tree.snapshot = ss' := by
  have l := g.localChange hp
  have hdetached : ∀ site ∈ before ++ after, site.call < w.tree.size ∧
      ¬ w.tree.AtOrBelow w.tree.root site.call := by
    intro site hsite
    obtain ⟨hold, hnot⟩ := hcut site hsite
    have hlt := hold.lt g.old_lt
    refine ⟨hlt.trans_le g.size_le, fun hatt => ?_⟩
    rcases (g.attached_before hlt hatt).2 with hout | ⟨n, hn, hle⟩
    · exact hout hold
    · exact hnot n hn hle
  refine Step.ComesTo.after_detached g.wellLinked
    (fun site hsite => (hdetached site (List.mem_append_left after hsite)).2) fun w₁ htree => ?_
  rw [← htree] at l hnew hdetached ⊢
  refine ((hrow w₁ p pre new post l.wellLinked l.attached_parent_after l.after hnew).before_detached
    (fun w₂ ss₂ ⟨xs, l₂, _⟩ => ⟨l₂.wellLinked, fun site hsite hatt => ?_⟩) ?_).mono ?_
  · obtain ⟨hlt, hnot⟩ := hdetached site (List.mem_append_right before hsite)
    exact hnot (l₂.attached_before _ hlt hatt)
  · rintro w₂ w₃ ss₂ hfits htree'
    rwa [htree']
  · rintro w₂ ss₂ ⟨xs, l₂, hxs⟩
    exact ⟨xs, l.trans l₂, hxs⟩

/-- What is found at other members of a row. -/
lemma mem_flatMap_apart {α β : Type} {l₁ l₂ : List α} {x : α} {y : β} {f : α → List β}
    (hnd : (l₁ ++ x :: l₂).Nodup) (h : y ∈ l₁.flatMap f ++ l₂.flatMap f) :
    ∃ x' ∈ l₁ ++ x :: l₂, x' ≠ x ∧ y ∈ f x' := by
  rw [List.nodup_middle, List.nodup_cons] at hnd
  rw [← List.flatMap_append, List.mem_flatMap] at h
  obtain ⟨x', hx', hy⟩ := h
  refine ⟨x', ?_, fun heq => hnd.1 (heq ▸ hx'), hy⟩
  rw [List.mem_append] at hx'
  simp only [List.mem_append, List.mem_cons]
  tauto

/-- What follows the choice of one member of a row: something in it takes the place of a node above the
row, and the run goes on there. -/
lemma after_choice {t u : Tree} {w : Workspace} {b member p q x : NodeId}
    {front l₁ l₂ pre post : List NodeId}
    (hrow : Simulates namespaces variants [t.snapshot b] r) (g : t.Graft u x [b] w.tree)
    (hp : t.children p = pre ++ [x] ++ post) (hq : t.AtOrBelow x q)
    (hchildren : t.children q = front ++ (l₁ ++ member :: l₂)) (hbelow : t.Below member b)
    (hsites : t.sitesBelow namespaces member = t.sitesBelow namespaces b)
    (hb : (t.kind b).isClosed = true)
    (hclosed : ∀ z ∈ l₁ ++ member :: l₂, (t.kind z).isClosed = true) :
    Step.ComesTo variants ((l₁ ++ member :: l₂).flatMap (t.sitesBelow namespaces)) w r
      fun w' ss' => ∃ xs, t.LocalChange p pre [x] post w'.tree xs ∧ xs.map w'.tree.snapshot = ss' := by
  have h := g.wellLinked_before
  have hmem : ∀ z ∈ l₁ ++ member :: l₂, z ∈ t.children q := fun z hz => by
    rw [hchildren]
    exact List.mem_append_right front hz
  have hmember := hmem member (by simp)
  have hxb : t.Below x b := hq.trans_below
    ((h.below_child hmember).trans_left hbelow.atOrBelow)
  have hsame : t.SameBelow w.tree b := g.sameBelow (hxb.atOrBelow.lt g.old_lt)
    (fun hbx => h.not_atOrBelow_of_below hbx hxb.atOrBelow)
    (g.attached_new (List.mem_singleton_self b))
  rw [List.flatMap_append, List.flatMap_cons, hsites,
    ← hsame.sitesBelow_eq h g.wellLinked hb, ← List.flatMap_singleton (w.tree.sitesBelow _) b]
  refine hrow.after_graft g hp ?_ fun site hsite => ?_
  · rw [List.map_singleton, hsame.snapshot_eq h g.wellLinked]
  · have hnd := h.nodup_children q
    rw [hchildren, List.nodup_append] at hnd
    obtain ⟨other, hother, hne, hsite⟩ := mem_flatMap_apart hnd.2.1 hsite
    have hle : t.AtOrBelow other site.call := h.call_atOrBelow (hclosed other hother) hsite
    refine ⟨hq.trans
      ((h.below_child (hmem other hother)).atOrBelow.trans hle), ?_⟩
    intro n hn hn'
    rw [List.mem_singleton.1 hn] at hn'
    exact h.siblings_apart (hmem other hother) hmember hne hle (hbelow.atOrBelow.trans hn')

end Simulates

end VariantFold
