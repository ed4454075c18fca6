/-
Tests of a variant against a string.

Whether a variant has a given string for its value can be asked in several ways (`StringTest`): with
`isSet` or `compilerIsSet`, or by a comparison of the value with the literal, with either operator of
equality and with the operands in either order.  The ways through the program are different.  A call of
`isSet` takes the branch of the `if` statement at once.  A call of `get` first becomes a literal, then the
comparison becomes a truth value, and that takes the branch.  All come to the same (`StringTest.decides`),
also where groups stand around the condition.
-/
import VariantFold.Proofs.Surroundings
import VariantFold.Tree.Json

namespace VariantFold

open Step

/-! ### The tests -/

/-- Ways to ask whether a variant has a given string for its value. -/
inductive StringTest (namespaces : List String) where
  /-- `isSet(key, s)`, or `compilerIsSet(key, s)`. -/
  | membership (space : Space namespaces) (isCompiler : Bool)
  /-- `get(key) == s` or `s == get(key)`, or the same with strict equality. -/
  | equality (space : Space namespaces) (isStrict literalFirst : Bool)

namespace StringTest

variable {namespaces : List String}

/-- The method that a test by membership calls. -/
def method (isCompiler : Bool) : Method := if isCompiler then .compilerIsSet else .isSet

/-- The operator of a test by comparison. -/
def operator (isStrict : Bool) : EqualityOperator := if isStrict then .sheq else .eq

/-- What a test looks like. -/
def shape (key s : String) : StringTest namespaces → Snapshot
  | membership space isCompiler =>
    Shape.call (space.callee (method isCompiler))
      [Shape.literal (.string key), Shape.literal (.string s)]
  | equality space isStrict literalFirst =>
    let value := Shape.call (space.callee .get) [Shape.literal (.string key)]
    if literalFirst then
      Shape.operation (operator isStrict).name (Shape.literal (.string s)) value
    else Shape.operation (operator isStrict).name value (Shape.literal (.string s))

end StringTest

/-- A string without a bar is the only one of the values that bars divide. -/
lemma isSetMatch_string {s : String} (hs : '|' ∉ s.toList) (value : String) :
    isSetMatch s (.string value) = decide (value = s) := by
  have hfields : Text.fields '|' s = [s] := by
    rw [Text.fields, Text.pieces_of_not_mem hs, List.map_singleton, String.ofList_toList]
  rw [isSetMatch_eq_decide, hfields]
  exact decide_eq_decide.2 List.mem_singleton

/-- What a string counts as in a comparison. -/
lemma comparisonOperand_string (s : String) : comparisonOperand (.string s) =
    if s = "on" then .bool true else if s = "off" then .bool false else .string s := by
  rw [comparisonOperand.eq_def]
  split
  · rename_i heq
    rw [if_pos (Scalar.string.inj heq)]
  · rename_i heq
    rw [Scalar.string.inj heq]
    rfl
  · rename_i hon hoff
    rw [if_neg fun h => hon (congrArg Scalar.string h), if_neg fun h => hoff (congrArg Scalar.string h)]

/-- Although some words count as truth values, strings are equal only if they are the same. -/
lemma looseEq_comparisonOperand (s s' : String) :
    (comparisonOperand (.string s)).looseEq (comparisonOperand (.string s')) = decide (s = s') := by
  by_cases heq : s = s'
  · rw [heq, decide_eq_true rfl, comparisonOperand_string]
    split_ifs <;> simp [Scalar.looseEq]
  · rw [decide_eq_false heq, comparisonOperand_string, comparisonOperand_string]
    split_ifs <;> simp_all [Scalar.looseEq, Scalar.number?]

lemma StringTest.operator_apply (isStrict : Bool) (s s' : String) :
    (StringTest.operator isStrict).apply (comparisonOperand (.string s))
      (comparisonOperand (.string s')) = decide (s = s') := by
  cases isStrict <;> exact looseEq_comparisonOperand s s'

/-! ### Taking a branch -/

namespace Tree

variable {t t₁ : Tree} {e loop : NodeId} {post pre : List NodeId}

/-- The branches stay as they are. -/
lemma LocalChange.branch_eq (l : t.LocalChange loop pre [e] post t₁ [e])
    (he : t.kind e = .expression) (b : Bool) :
    t₁.childrenOf? (t₁.branchSlot loop b) = t.childrenOf? (t.branchSlot loop b) := by
  have hsame : t₁.children loop = t.children loop := l.after.trans l.before.symm
  have hslot : t₁.branchSlot loop b = t.branchSlot loop b :=
    childOfKind?_congr hsame (fun c hc => l.label c (l.wellLinked_before.child_lt hc)) _
  rw [hslot]
  rcases hfound : t.branchSlot loop b with _ | slot
  · rfl
  · obtain ⟨hmem, hkind⟩ := childOfKind?_some hfound
    have hne : slot ≠ e := by
      rintro rfl
      rw [he] at hkind
      cases b <;> exact absurd hkind (by simp)
    rw [l.before] at hmem
    simp only [List.mem_append, List.mem_singleton] at hmem
    exact (l.sameBelow_sibling (by tauto) slot (AtOrBelow.refl t slot)).2

namespace Takes

variable {t' v v' : Tree} {e' loop' y : NodeId} {post' pre' : List NodeId} {b : Bool}

/-- The statement is gone, and what the branch contains is there. -/
lemma attached (k : t.Takes loop e b v) (h : t.WellLinked)
    (hslot : t.IsSlotOf e loop .expression .loop Attr.loopType Build.ifType) :
    v.isAttached loop = false ∧
      ∀ y ∈ t.childrenOf? (t.branchSlot loop b), v.isAttached y = true := by
  obtain ⟨change, -, graft⟩ := k
  obtain ⟨pre, post, hloop⟩ := exists_row (h.mem_of_parent hslot.parent_eq)
  refine ⟨Bool.eq_false_iff.2 fun hatt => ?_, fun y hy => ?_⟩
  · exact graft.not_attached_old (graft.wellLinked.isAttached_iff.1 hatt)
  · rw [← (change pre post hloop).branch_eq hslot.kind_slot] at hy
    exact graft.wellLinked.isAttached_iff.2 (graft.attached_new (List.mem_append_left _ hy))

/-- In the same place of two trees the same branch is the same change. -/
lemma snapshot_root (k : t.Takes loop e b v) (k' : t'.Takes loop' e' b v')
    (s : SamePlace t t' loop loop') (row : t.SameRow t' loop loop' pre pre' e e' post post')
    (he : t.kind e = .expression) (he' : t'.kind e' = .expression) :
    v'.snapshot v'.root = v.snapshot v.root := by
  obtain ⟨change, ending, graft⟩ := k
  obtain ⟨change', ending', graft'⟩ := k'
  exact s.snapshot_taken row he he' (change pre post row.before) (change' pre' post' row.before')
    ending ending' graft graft'

end Takes

end Tree

/-! ### Running the tests -/

section Runs

variable {namespaces : List String} {variants : Variants} {w : Workspace} {e loop x : NodeId}
  {key : String}

/-- All tests come to the same: the branch depends on whether the value of the variant is the string. -/
lemma StringTest.decides {c s : String} (test : StringTest namespaces)
    (hv : variants.lookup key = some (.string c)) (hs : '|' ∉ s.toList) :
    Decides namespaces variants (test.shape key s) (decide (c = s)) := by
  cases test with
  | membership space isCompiler =>
    have hm : method isCompiler = .isSet ∨ method isCompiler = .compilerIsSet := by
      cases isCompiler
      · exact Or.inl rfl
      · exact Or.inr rfl
    rw [← isSetMatch_string hs]
    exact decides_oneOf hv s hm
  | equality space isStrict literalFirst =>
    rw [← operator_apply isStrict]
    exact decides_comparison hv rfl (operator isStrict) ⟨.string s, rfl⟩ literalFirst

lemma StringTest.takes_branch {c s : String} (test : StringTest namespaces) (h : w.tree.WellLinked)
    (hatt : w.tree.AtOrBelow w.tree.root e) (content : w.tree.SoleContent e x)
    (hslot : w.tree.IsSlotOf e loop .expression .loop Attr.loopType Build.ifType)
    (hx : w.tree.snapshot x = test.shape key s) (hv : variants.lookup key = some (.string c))
    (hs : '|' ∉ s.toList) :
    ∃ site w', w.tree.sitesBelow namespaces x = [site] ∧ resolve variants site w = .ok true w' ∧
      w.tree.Takes loop e (decide (c = s)) w'.tree := by
  obtain ⟨site, w', hsites, -, hrun, -, htakes⟩ := (test.decides hv hs).takes h hatt content hslot hx
  exact ⟨site, w', hsites, hrun, htakes⟩

lemma StringTest.kind_shape (test : StringTest namespaces) (key s : String) :
    (test.shape key s).kind.isComment = false := by
  cases test with
  | membership => rfl
  | equality _ _ literalFirst => cases literalFirst <;> rfl

end Runs

/-- Take two trees that look the same but for the tests that stand in the same place, where the one is
the condition of an `if` statement, perhaps within groups.  If both test the same variant, which has a
string for its value, against the same string, then each has one call, and resolving the calls removes
the `if` statement and gives the same text.  What is kept is the first branch exactly if the value is
the string, whatever words they are. -/
theorem stringTests_agree {namespaces : List String} {variants : Variants} {w w' : Workspace}
    {e loop x x' : NodeId} {key c s : String} (test test' : StringTest namespaces)
    (h : w.tree.WellLinked) (h' : w'.tree.WellLinked) (same : w.tree.SamePlace w'.tree x x')
    (hslot : w.tree.IsSlotOf e loop .expression .loop Attr.loopType Build.ifType)
    (content : w.tree.SoleContent e x) (hx : w.tree.snapshot x = test.shape key s)
    (hx' : w'.tree.snapshot x' = test'.shape key s) (hv : variants.lookup key = some (.string c))
    (hs : '|' ∉ s.toList) :
    ∃ site site' v v', w.tree.sitesBelow namespaces x = [site] ∧
      w'.tree.sitesBelow namespaces x' = [site'] ∧ resolve variants site w = .ok true v ∧
      resolve variants site' w' = .ok true v' ∧
      (∀ style, v'.tree.toJson style = v.tree.toJson style) ∧ v.tree.isAttached loop = false ∧
      ∀ y ∈ w.tree.childrenOf? (w.tree.branchSlot loop (c = s)), v.tree.isAttached y = true := by
  have hcomment : (w'.tree.kind x').isComment = false := by
    rw [← h'.kind_snapshot, hx', test'.kind_shape]
  obtain ⟨e', place, hkind, content'⟩ := same.soleContent h h' content hcomment
  obtain ⟨loop', pre, pre', post, post', place', row⟩ := place.parent h hslot.parent_eq
  have hslot' := row.isSlotOf h' hslot hkind
  obtain ⟨site, v, hsites, hrun, htakes⟩ :=
    test.takes_branch h (place.attached h) content hslot hx hv hs
  obtain ⟨site', v', hsites', hrun', htakes'⟩ :=
    test'.takes_branch h' (place.symm.attached h') content' hslot' hx' hv hs
  obtain ⟨hgone, hkept⟩ := htakes.attached h hslot
  refine ⟨site, site', v, v', hsites, hsites', hrun, hrun', fun style => ?_, hgone, hkept⟩
  rw [Tree.toJson, Tree.toJson,
    htakes.snapshot_root htakes' place' row hslot.kind_slot hslot'.kind_slot]

/-- A file with an `if` statement whose condition, in a group, is the first of the given nodes. -/
def ifInGroup (condition : List Node) : Tree where
  root := 0
  nodes := ⟨⟨[
    { kind := .file, children := [1] },
    { kind := .loop, children := [2, 4, 6], parent := some 0,
      attributes := KeyMap.empty.insert Attr.loopType (.string Build.ifType) },
    { kind := .expression, children := [3], parent := some 1 },
    { kind := .group, children := [7], parent := some 2 },
    { kind := .statement, children := [5], parent := some 1 },
    { kind := .block, parent := some 4 },
    { kind := .elseStatement, parent := some 1 }] ++ condition⟩⟩

/-- The condition is `isSet("mode", "on")`. -/
def modeByMembership : Tree := ifInGroup [
  { kind := .call, children := [8, 12], parent := some 3 },
  { kind := .operand, children := [9], parent := some 7 },
  { kind := .dottedName, children := [10, 11], parent := some 8 },
  { kind := .identifier, parent := some 9,
    attributes := KeyMap.empty.insert Attr.name (.string "env") },
  { kind := .identifier, parent := some 9,
    attributes := KeyMap.empty.insert Attr.name (.string "isSet") },
  { kind := .params, children := [13, 14], parent := some 7 },
  { kind := .constant, parent := some 12, attributes := Scalar.literalAttributes (.string "mode") },
  { kind := .constant, parent := some 12, attributes := Scalar.literalAttributes (.string "on") }]

/-- The condition is `"on" == get("mode")`. -/
def modeByEquality : Tree := ifInGroup [
  { kind := .operation, children := [8, 10], parent := some 3,
    attributes := KeyMap.empty.insert Attr.operator (.string "EQ") },
  { kind := .first, children := [9], parent := some 7 },
  { kind := .constant, parent := some 8, attributes := Scalar.literalAttributes (.string "on") },
  { kind := .second, children := [11], parent := some 7 },
  { kind := .call, children := [12, 16], parent := some 10 },
  { kind := .operand, children := [13], parent := some 11 },
  { kind := .dottedName, children := [14, 15], parent := some 12 },
  { kind := .identifier, parent := some 13,
    attributes := KeyMap.empty.insert Attr.name (.string "env") },
  { kind := .identifier, parent := some 13,
    attributes := KeyMap.empty.insert Attr.name (.string "get") },
  { kind := .params, children := [17], parent := some 11 },
  { kind := .constant, parent := some 16, attributes := Scalar.literalAttributes (.string "mode") }]

/-- Settings with `mode` on. -/
def modeOn : Variants := KeyMap.empty.insert "mode" (.string "on")

theorem stringTests_agree_modeOn :
    modeByMembership.WellLinked ∧ modeByEquality.WellLinked ∧
    modeByMembership.SamePlace modeByEquality 7 7 ∧ modeByMembership.SoleContent 2 7 ∧
    ∃ site site' v v', modeByMembership.sitesBelow ["env"] 7 = [site] ∧
      modeByEquality.sitesBelow ["env"] 7 = [site'] ∧
      resolve modeOn site ⟨modeByMembership, {}⟩ = .ok true v ∧
      resolve modeOn site' ⟨modeByEquality, {}⟩ = .ok true v' ∧
      (∀ style, v'.tree.toJson style = v.tree.toJson style) ∧ v.tree.isAttached 1 = false ∧
      ∀ y ∈ modeByMembership.childrenOf? (modeByMembership.branchSlot 1 true),
        v.tree.isAttached y = true := by
  have h : (Workspace.mk modeByMembership {}).tree.WellLinked :=
    show modeByMembership.WellLinked by decide
  have h' : (Workspace.mk modeByEquality {}).tree.WellLinked :=
    show modeByEquality.WellLinked by decide
  have hsame : modeByMembership.SamePlace modeByEquality 7 7 := by
    have hfile : modeByMembership.SamePlace modeByEquality 0 0 := Tree.SamePlace.root
    have hfirst : modeByMembership.SameRow modeByEquality 0 0 [] [] 1 1 [] [] :=
      ⟨rfl, rfl, rfl, rfl, rfl, rfl⟩
    have hbranches : [4, 6].map modeByMembership.snapshot =
        [.node .statement KeyMap.empty [Shape.block []], .node .elseStatement KeyMap.empty []] := rfl
    have hbranches' : [4, 6].map modeByEquality.snapshot =
        [.node .statement KeyMap.empty [Shape.block []], .node .elseStatement KeyMap.empty []] := rfl
    have hloop : modeByMembership.SameRow modeByEquality 1 1 [] [] 2 2 [4, 6] [4, 6] :=
      ⟨rfl, rfl, rfl, rfl, rfl, hbranches'.trans hbranches.symm⟩
    have hslot : modeByMembership.SameRow modeByEquality 2 2 [] [] 3 3 [] [] :=
      ⟨rfl, rfl, rfl, rfl, rfl, rfl⟩
    have hgroup : modeByMembership.SameRow modeByEquality 3 3 [] [] 7 7 [] [] :=
      ⟨rfl, rfl, rfl, rfl, rfl, rfl⟩
    exact (((hfile.child hfirst).child hloop).child hslot).child hgroup
  have hcontent : modeByMembership.SoleContent 2 7 :=
    Tree.SoleContent.group (g := 3) rfl rfl (Tree.SoleContent.direct rfl)
  have hslot : modeByMembership.IsSlotOf 2 1 .expression .loop Attr.loopType Build.ifType :=
    ⟨rfl, rfl, rfl, rfl⟩
  have hx : modeByMembership.snapshot 7 =
      (StringTest.membership ⟨"env", List.mem_singleton_self _⟩ false).shape "mode" "on" := by rfl
  have hx' : modeByEquality.snapshot 7 =
      (StringTest.equality ⟨"env", List.mem_singleton_self _⟩ false true).shape "mode" "on" := by rfl
  have hv : modeOn.lookup "mode" = some (.string "on") := rfl
  have hagree := stringTests_agree _ _ h h' hsame hslot hcontent hx hx' hv (by decide)
  rw [decide_eq_true rfl] at hagree
  exact ⟨h, h', hsame, hcontent, hagree⟩

end VariantFold
