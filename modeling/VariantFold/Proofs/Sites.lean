/-
What becomes of the calls that ask for variants.

Rewrites cut calls out and move what is below them, but where dotted names consist of identifiers and
those that spell a way to ask for variants are called (`Orderly`), no call that asks for a variant comes
up that was not there, and one that is left still asks for the same: neither its name nor its arguments
change (`Progress`).
-/
import VariantFold.Proofs.Outcome

namespace VariantFold

/-- The kinds of nodes that rewrites take away. -/
def Kind.isRewritten : Kind → Bool
  | .call | .operation | .loop => true
  | _ => false

lemma Kind.isRewritten_of_isComment {k : Kind} (h : k.isComment = true) : k.isRewritten = false := by
  unfold Kind.isComment at h
  split at h
  · rfl
  · rfl
  · rfl
  · exact absurd h (by simp)

namespace Tree

variable {t t₀ u t' : Tree} {b c n o old p params x y : NodeId} {new : List NodeId}
  {namespaces : List String} {variants : Variants} {site : CallSite}

/-! ### Names -/

/-- What a dotted name spells if it is a way to ask for variants: the method and the name in full. -/
def spelling? (t : Tree) (namespaces : List String) (x : NodeId) : Option (Method × String) :=
  if t.kind x = .dottedName then do
    let parts ← t.nameParts? x
    let last ← parts.getLast?
    if ".".intercalate parts.dropLast ∈ namespaces then
      let method ← Method.ofName? last
      return (method, ".".intercalate parts)
    else none
  else none

/-- A call asks for a variant through a name that spells a way to do so. -/
lemma callSite?_eq : t.callSite? namespaces x =
    (t.spelling? namespaces x).bind fun s => (t.callOf? x).map fun call => ⟨call, s.1, s.2⟩ := by
  rw [callSite?, spelling?]
  split
  · rcases t.nameParts? x with _ | parts
    · rfl
    rcases hlast : parts.getLast? with _ | last
    · simp [hlast]
    simp only [Option.bind_eq_bind, Option.bind_some, hlast]
    split
    · rcases Method.ofName? last with _ | method
      · rfl
      · rcases t.callOf? x with _ | call <;> rfl
    · rfl
  · rfl

lemma mem_callSites (h : t.WellLinked) : site ∈ t.callSites namespaces ↔
    ∃ x, t.AtOrBelow t.root x ∧ t.callSite? namespaces x = some site := by
  rw [callSites, List.mem_filterMap]
  simp only [h.mem_descendants]

/-- The name through which a call asks, the operand it is in and the call. -/
lemma callSite?_spells (h : t.callSite? namespaces x = some site) :
    t.kind x = .dottedName ∧ (t.spelling? namespaces x).isSome = true ∧
      ∃ operand, t.parent? x = some operand ∧ t.kind operand = .operand ∧
        t.parent? operand = some site.call ∧ t.kind site.call = .call := by
  obtain ⟨hkind, hcall⟩ := callSite?_some h
  refine ⟨hkind, ?_, callOf?_some hcall⟩
  rw [callSite?_eq] at h
  rcases hs : t.spelling? namespaces x with _ | s
  · rw [hs] at h
    exact absurd h (by simp)
  · rfl

lemma callOf?_eq_some (hx : t.parent? x = some o) (ho : t.kind o = .operand)
    (hc : t.parent? o = some c) (hkind : t.kind c = .call) : t.callOf? x = some c := by
  rw [callOf?, hx]
  simp only [ho, if_true, hc, hkind]

lemma nameParts?_congr (hchildren : t'.children x = t.children x)
    (hsame : ∀ c ∈ t.children x, t.SameLabel t' c) : t'.nameParts? x = t.nameParts? x := by
  rw [nameParts?, nameParts?, hchildren]
  generalize t.children x = cs at hsame
  induction cs with
  | nil => rfl
  | cons c cs ih =>
    have hc := hsame c List.mem_cons_self
    rw [List.mapM_cons, List.mapM_cons, ih fun d hd => hsame d (List.mem_cons_of_mem c hd),
      hc.kind_eq, hc.str?_eq]

lemma spelling?_congr (hx : t.SameLabel t' x) (hchildren : t'.children x = t.children x)
    (hsame : ∀ c ∈ t.children x, t.SameLabel t' c) :
    t'.spelling? namespaces x = t.spelling? namespaces x := by
  rw [spelling?, spelling?, hx.kind_eq, nameParts?_congr hchildren hsame]

/-! ### Arguments -/

/-- The key that a call asks for. -/
def siteKey (t : Tree) (call : NodeId) : String :=
  ((t.callArgs call).head?.map fun key => (t.node key).literalText).getD ""

/-- Whether the arguments of a call are as they should be: a string literal for the key, and a string
literal or an object literal for what the method takes besides. -/
def isWellFormed (t : Tree) (site : CallSite) : Bool :=
  match site.method, t.callArgs site.call with
  | .get, [key] => (t.node key).isStringLiteral
  | .isSet, [key, candidates] | .compilerIsSet, [key, candidates] =>
    (t.node key).isStringLiteral && (t.node candidates).isStringLiteral
  | .select, [key, map] => (t.node key).isStringLiteral && t.kind map = .map
  | _, _ => false

/-- Whether the configuration has an answer for a call whose key is configured: an entry for a
selection, a value that has a literal where the value is taken. -/
def isAnswered (t : Tree) (variants : Variants) (site : CallSite) : Bool :=
  match variants.lookup (t.siteKey site.call) with
  | none => true
  | some value =>
    match site.method with
    | .select =>
      match t.branches (secondArg (t.callArgs site.call)) with
      | .ok branches => (Branch.choose branches value).isSome
      | .error _ => false
    | .get => value.isLiteral
    | .isSet | .compilerIsSet => true

/-- The conditions under which every call with a configured key can be answered and no other call comes
to ask for a variant. -/
structure Orderly (t : Tree) (namespaces : List String) (variants : Variants) : Prop where
  /-- What is called comes first. -/
  calleeFirst : ∀ x ∈ t.descendants t.root, ∀ site ∈ t.callSite? namespaces x,
    ∀ operand ∈ t.parent? x,
      (t.children site.call).head? = some operand ∧ (t.children operand).head? = some x
  wellFormed : ∀ site ∈ t.callSites namespaces, t.isWellFormed site = true
  answered : ∀ site ∈ t.callSites namespaces, t.isAnswered variants site = true
  /-- Dotted names consist of identifiers. -/
  identifiers : ∀ x ∈ t.descendants t.root, t.kind x = .dottedName →
    ∀ c ∈ t.children x, t.kind c = .identifier
  /-- A name that spells a way to ask for variants is called. -/
  called : ∀ x ∈ t.descendants t.root, (t.spelling? namespaces x).isSome = true →
    (t.callOf? x).isSome = true

/-- Before the arguments of a call that asks for a variant there is nothing that rewrites take away. -/
def ArgumentsStay (t : Tree) (namespaces : List String) : Prop :=
  ∀ site ∈ t.callSites namespaces,
    ∀ c ∈ (t.children site.call).takeWhile fun c => t.kind c ≠ .params, (t.kind c).isRewritten = false

/-- The arguments of a call are those of `params`, and rewrites do not reach them. -/
structure HasParams (t : Tree) (call params : NodeId) : Prop where
  kind_eq : t.kind params = .params
  front : ∃ front rest, t.children call = front ++ params :: rest ∧
    ∀ c ∈ front, t.kind c ≠ .params ∧ (t.kind c).isRewritten = false
  plain : ∀ c ∈ t.children params, (t.kind c).isRewritten = false

lemma HasParams.callArgs_eq (h : t.HasParams c params) : t.callArgs c = t.contents params := by
  obtain ⟨front, rest, hchildren, hfront⟩ := h.front
  have hfind : t.childOfKind? c .params = some params := by
    rw [childOfKind?, hchildren, List.find?_append, List.find?_eq_none.2 fun d hd => by
      simpa using (hfront d hd).1, List.find?_cons_of_pos (by simpa using h.kind_eq)]
    rfl
  rw [callArgs, hfind]

lemma HasParams.mem_children (h : t.HasParams c params) : params ∈ t.children c := by
  obtain ⟨front, rest, hchildren, -⟩ := h.front
  rw [hchildren]
  exact List.mem_append_right front List.mem_cons_self

lemma kind_of_isStringLiteral (h : (t.node x).isStringLiteral = true) : t.kind x = .constant := by
  rw [Node.isStringLiteral, Node.constantType?] at h
  split at h
  · rename_i hconstant
    exact of_decide_eq_true hconstant
  · exact absurd h (by simp)

/-- What well-formed arguments are, by the method. -/
lemma isWellFormed_iff : t.isWellFormed site = true ↔
    ∃ key rest, t.callArgs site.call = key :: rest ∧ (t.node key).isStringLiteral = true ∧
      ((site.method = .get ∧ rest = []) ∨
        (∃ second, rest = [second] ∧ ((site.method = .isSet ∨ site.method = .compilerIsSet) ∧
          (t.node second).isStringLiteral = true ∨ site.method = .select ∧ t.kind second = .map))) := by
  rw [isWellFormed]
  rcases t.callArgs site.call with _ | ⟨key, _ | ⟨second, _ | ⟨third, rest⟩⟩⟩ <;>
    cases site.method <;> simp

/-- Well-formed arguments have a key, and there are as many as the method takes. -/
lemma keyArguments_of_isWellFormed (hform : t.isWellFormed site = true) :
    t.keyArguments site.call site.method.arity = .ok (t.siteKey site.call, t.callArgs site.call) := by
  obtain ⟨key, rest, hargs, hkey, hrest⟩ := isWellFormed_iff.1 hform
  have harity : site.method.arity = rest.length + 1 := by
    rcases hrest with ⟨hm, rfl⟩ | ⟨second, rfl, ⟨hm | hm, -⟩ | ⟨hm, -⟩⟩ <;> rw [hm] <;> rfl
  simp only [harity, keyArguments, hargs, List.length_cons, if_true, hkey, siteKey, List.head?_cons,
    Option.map_some, Option.getD_some]

lemma plain_of_isWellFormed (hform : t.isWellFormed site = true) (hc : c ∈ t.callArgs site.call) :
    (t.kind c).isRewritten = false := by
  obtain ⟨key, rest, hargs, hkey, hrest⟩ := isWellFormed_iff.1 hform
  have hplain : ∀ {c}, (t.node c).isStringLiteral = true → (t.kind c).isRewritten = false := by
    intro c hlit
    rw [kind_of_isStringLiteral hlit]
    rfl
  rw [hargs, List.mem_cons] at hc
  rcases hc with rfl | hc
  · exact hplain hkey
  rcases hrest with ⟨-, rfl⟩ | ⟨second, rfl, hsecond⟩
  · exact absurd hc List.not_mem_nil
  rw [List.mem_singleton.1 hc]
  rcases hsecond with ⟨-, hlit⟩ | ⟨-, hmap⟩
  · exact hplain hlit
  · rw [hmap]
    rfl

/-- The call of a site whose arguments are well-formed has arguments. -/
lemma exists_hasParams (hform : t.isWellFormed site = true)
    (hstay : ∀ c ∈ (t.children site.call).takeWhile fun c => t.kind c ≠ .params,
      (t.kind c).isRewritten = false) : ∃ params, t.HasParams site.call params := by
  rcases hfind : t.childOfKind? site.call .params with _ | params
  · obtain ⟨key, rest, hargs, -⟩ := isWellFormed_iff.1 hform
    rw [callArgs, hfind] at hargs
    exact absurd hargs (by simp)
  · have hargs : t.callArgs site.call = t.contents params := by rw [callArgs, hfind]
    obtain ⟨hkind, front, rest, hchildren, hfront⟩ := List.find?_eq_some_iff_append.1 hfind
    have hnot : ∀ c ∈ front, t.kind c ≠ .params := fun c hc => by simpa using hfront c hc
    refine ⟨params, by simpa using hkind, ⟨front, rest, hchildren, fun c hc => ?_⟩, fun c hc => ?_⟩
    · refine ⟨hnot c hc, hstay c ?_⟩
      rw [hchildren, List.takeWhile_append_of_pos (by simpa using hnot)]
      exact List.mem_append_left _ hc
    · -- what is no comment is one of the arguments, literals or an object literal
      rcases hcomment : (t.kind c).isComment with _ | _
      · exact plain_of_isWellFormed hform (hargs ▸ mem_contents.2 ⟨hc, hcomment⟩)
      · exact Kind.isRewritten_of_isComment hcomment

/-! ### What is left of a tree -/

lemma Reason.isRewritten_old {x : NodeId} (r : t.Reason u x old new) :
    (t.kind old).isRewritten = true := by
  rcases r.kind_old with hkind | hkind | hkind <;> rw [hkind] <;> rfl

lemma Reason.ne_old (r : t.Reason u x old new) (h : (t.kind y).isRewritten = false) : y ≠ old := by
  rintro rfl
  rw [r.isRewritten_old] at h
  exact absurd h (by simp)

/-- Names keep their place: neither a name that is called nor its operand comes in from a slot. -/
lemma Graft.callOf?_eq (g : t.Graft u old new t') (r : t.Reason u x old new)
    (hkind : t.kind y = .dottedName) (h : t.callOf? y = some c) : t'.callOf? y = some c := by
  have ht := g.wellLinked_before
  obtain ⟨operand, hy, hkindo, ho, hkindc⟩ := callOf?_some h
  have hkeep : ∀ {a b}, t.parent? a = some b → (t.kind a).isRewritten = false →
      (t.kind b = .operand ∨ t.kind b = .call) → t'.parent? a = some b := by
    intro a b hab hplain hkindb
    refine (g.parent_eq (lt_of_parent hab) (fun hmem => ?_) (r.ne_old hplain)).trans hab
    obtain ⟨slot, hslot, hkinds⟩ := r.slot_of_new ht hmem (lt_of_parent hab)
    obtain rfl : b = slot := Option.some_injective _ (hab.symm.trans hslot)
    rcases hkindb with hkindb | hkindb <;> simp [hkindb] at hkinds
  refine callOf?_eq_some (hkeep hy (by rw [hkind]; rfl) (Or.inl hkindo)) ?_
    (hkeep ho (by rw [hkindo]; rfl) (Or.inr hkindc)) ?_
  · rw [g.kind_eq (ht.parent_lt hy), hkindo]
  · rw [g.kind_eq (ht.parent_lt ho), hkindc]

lemma Graft.children_eq_of_plain (g : t.Graft u old new t') (r : t.Reason u x old new)
    (hy : y < t.size) (hatt : t'.AtOrBelow t'.root y)
    (hplain : ∀ c ∈ t.children y, (t.kind c).isRewritten = false) :
    t'.children y = t.children y := by
  rw [g.children_eq hy hatt]
  exact substitute_of_not_mem fun hmem => r.ne_old (hplain old hmem) rfl

/-- Arguments that rewrites do not reach stay. -/
lemma HasParams.graft (h : t.HasParams c params) (g : t.Graft u old new t')
    (r : t.Reason u x old new) (hatt : t'.AtOrBelow t'.root c) :
    t'.HasParams c params ∧ t'.children params = t.children params := by
  have ht := g.wellLinked_before
  have hmem := h.mem_children
  obtain ⟨front, rest, hchildren, hfront⟩ := h.front
  have hchildren' : t'.children c = front ++ params :: substitute old new rest := by
    have hparams : params ≠ old := r.ne_old (by rw [h.kind_eq]; rfl)
    have hnot : old ∉ front := fun hmem => r.ne_old (hfront old hmem).2 rfl
    rw [g.children_eq (lt_of_mem_children hmem) hatt, hchildren, substitute, List.flatMap_append,
      List.flatMap_cons, if_neg hparams, ← substitute, ← substitute, substitute_of_not_mem hnot]
    rfl
  have hkind : ∀ {d}, d ∈ front ∨ d = params → t'.kind d = t.kind d := by
    intro d hd
    refine g.kind_eq (ht.child_lt (p := c) ?_)
    rw [hchildren]
    rcases hd with hd | rfl
    · exact List.mem_append_left _ hd
    · exact List.mem_append_right _ List.mem_cons_self
  have hattp : t'.AtOrBelow t'.root params := by
    refine hatt.trans (g.wellLinked.below_child ?_).atOrBelow
    rw [hchildren']
    exact List.mem_append_right _ List.mem_cons_self
  have hsame := g.children_eq_of_plain r (ht.child_lt hmem) hattp h.plain
  refine ⟨⟨?_, ⟨front, _, hchildren', fun d hd => ?_⟩, fun d hd => ?_⟩, hsame⟩
  · rw [hkind (Or.inr rfl), h.kind_eq]
  · rw [hkind (Or.inl hd)]
    exact hfront d hd
  · rw [hsame] at hd
    rw [g.kind_eq (ht.child_lt hd)]
    exact h.plain d hd

/-- What is left of the tree `t₀` is as it was, as far as calls that ask for variants are concerned. -/
structure Progress (t₀ : Tree) (namespaces : List String) (t : Tree) : Prop where
  wellLinked : t.WellLinked
  size_le : t₀.size ≤ t.size
  label : ∀ x < t₀.size, t₀.SameLabel t x
  attached : ∀ x < t₀.size, t.AtOrBelow t.root x → t₀.AtOrBelow t₀.root x
  below_iff : ∀ x < t₀.size, ∀ y < t₀.size, t.AtOrBelow t.root x → t.AtOrBelow t.root y →
    (t.Below x y ↔ t₀.Below x y)
  added : ∀ x, t₀.size ≤ x → t.AtOrBelow t.root x → t.kind x ≠ .dottedName
  names : ∀ x < t₀.size, t.AtOrBelow t.root x → t.kind x = .dottedName →
    t.children x = t₀.children x
  callOf : ∀ x, t₀.AtOrBelow t₀.root x → (t₀.spelling? namespaces x).isSome = true →
    t.callOf? x = t₀.callOf? x
  params : ∀ c p, t₀.HasParams c p → t.AtOrBelow t.root c →
    t.HasParams c p ∧ t.children p = t₀.children p

lemma Progress.refl (h : t₀.WellLinked) : t₀.Progress namespaces t₀ where
  wellLinked := h
  size_le := le_rfl
  label y _ := SameLabel.refl t₀ y
  attached _ _ hatt := hatt
  below_iff _ _ _ _ _ _ := Iff.rfl
  added _ hx hatt := absurd (hatt.lt h.root_lt) (not_lt.2 hx)
  names _ _ _ _ := rfl
  callOf _ _ _ := rfl
  params _ _ hp _ := ⟨hp, rfl⟩

/-- Every rewrite is progress. -/
lemma Progress.graft (h : t₀.Progress namespaces t) (ho : t₀.Orderly namespaces variants)
    (h₀ : t₀.WellLinked) (g : t.Graft u old new t') (r : t.Reason u x old new) :
    t₀.Progress namespaces t' where
  wellLinked := g.wellLinked
  size_le := h.size_le.trans g.size_le
  label y hy := (h.label y hy).trans (g.sameLabel (hy.trans_le h.size_le))
  attached y hy hatt := h.attached y hy (g.attached_before (hy.trans_le h.size_le) hatt).1
  below_iff y hy z hz hatty hattz := by
    have hylt := hy.trans_le h.size_le
    have hzlt := hz.trans_le h.size_le
    rw [g.below_iff hzlt hylt hattz hatty]
    exact h.below_iff y hy z hz (g.attached_before hylt hatty).1 (g.attached_before hzlt hattz).1
  added y hy hatt := by
    rcases Nat.lt_or_ge y t.size with hlt | hle
    · rw [g.kind_eq hlt]
      exact h.added y hy (g.attached_before hlt hatt).1
    · rcases r.added g hatt hle with (hk | hk | hk) | ⟨hk, -⟩ <;> simp [hk]
  names y hy hatt hkind := by
    have hlt := hy.trans_le h.size_le
    have hattt := (g.attached_before hlt hatt).1
    rw [g.kind_eq hlt] at hkind
    have hsame := h.names y hy hattt hkind
    rw [← hsame]
    refine g.children_eq_of_plain r hlt hatt fun c hc => ?_
    -- a dotted name consists of identifiers
    rw [hsame] at hc
    have hc₀ := ho.identifiers y (h₀.mem_descendants.2 (h.attached y hy hattt))
      ((h.label y hy).kind_eq ▸ hkind) c hc
    rw [(h.label c (h₀.child_lt hc)).kind_eq, hc₀]
    rfl
  callOf y hatt hspelled := by
    have hsome := ho.called y (h₀.mem_descendants.2 hatt) hspelled
    obtain ⟨c, hc⟩ := Option.isSome_iff_exists.1 hsome
    have hy := hatt.lt h₀.root_lt
    have hkind : t.kind y = .dottedName := by
      rw [(h.label y hy).kind_eq]
      by_contra hne
      rw [spelling?, if_neg hne] at hspelled
      exact absurd hspelled (by simp)
    rw [hc]
    exact g.callOf?_eq r hkind ((h.callOf y hatt hspelled).trans hc)
  params c p hp hatt := by
    have hc := (lt_of_mem_children hp.mem_children).trans_le h.size_le
    obtain ⟨hpt, hchildren⟩ := h.params c p hp (g.attached_before hc hatt).1
    obtain ⟨hpt', hchildren'⟩ := hpt.graft g r hatt
    exact ⟨hpt', hchildren'.trans hchildren⟩

/-- No call comes to ask for a variant, and those that are left are left as they are. -/
lemma Progress.mem_callSites_iff (h : t₀.Progress namespaces t) (h₀ : t₀.WellLinked) :
    site ∈ t.callSites namespaces ↔
      site ∈ t₀.callSites namespaces ∧ t.AtOrBelow t.root site.call := by
  -- names that are left spell what they spelled
  have hspell : ∀ {y}, y < t₀.size → t.AtOrBelow t.root y → t.kind y = .dottedName →
      t.spelling? namespaces y = t₀.spelling? namespaces y := by
    intro y hy hatt hkind
    exact spelling?_congr (h.label y hy) (h.names y hy hatt hkind)
      fun c hc => h.label c (h₀.child_lt hc)
  rw [mem_callSites h.wellLinked, mem_callSites h₀]
  constructor
  · rintro ⟨y, hatt, hsite⟩
    obtain ⟨hkind, hspelled, operand, hy, -, hop, -⟩ := callSite?_spells hsite
    have hlt : y < t₀.size := by
      by_contra hle
      exact h.added y (not_lt.1 hle) hatt hkind
    have hatt₀ := h.attached y hlt hatt
    refine ⟨⟨y, hatt₀, ?_⟩, ?_⟩
    · rw [hspell hlt hatt hkind] at hspelled
      rw [callSite?_eq, hspell hlt hatt hkind, h.callOf y hatt₀ hspelled, ← callSite?_eq] at hsite
      exact hsite
    · exact h.wellLinked.attached_above ((below_of_parent hop).atOrBelow.trans
        (below_of_parent hy).atOrBelow) hatt
  · rintro ⟨⟨y, hatt₀, hsite⟩, hatt⟩
    obtain ⟨hkind, hspelled, -⟩ := callSite?_spells hsite
    have hlt := hatt₀.lt h₀.root_lt
    have hcall := (h.callOf y hatt₀ hspelled).trans (callSite?_some hsite).2
    obtain ⟨operand, hy, -, hop, -⟩ := callOf?_some hcall
    have hatty : t.AtOrBelow t.root y :=
      hatt.trans ((below_of_parent hop).atOrBelow.trans (below_of_parent hy).atOrBelow)
    refine ⟨y, hatty, ?_⟩
    rw [callSite?_eq, hspell hlt hatty ((h.label y hlt).kind_eq.trans hkind),
      h.callOf y hatt₀ hspelled, ← callSite?_eq, hsite]

/-- A call that is left has the arguments that it had. -/
lemma Progress.callArgs_eq (h : t₀.Progress namespaces t) (h₀ : t₀.WellLinked)
    (hp : t₀.HasParams c params) (hatt : t.AtOrBelow t.root c) :
    t.callArgs c = t₀.callArgs c := by
  obtain ⟨hpt, hchildren⟩ := h.params c params hp hatt
  rw [hpt.callArgs_eq, hp.callArgs_eq]
  exact contents_congr hchildren fun d hd => h.label d (h₀.child_lt hd)

end Tree

end VariantFold
