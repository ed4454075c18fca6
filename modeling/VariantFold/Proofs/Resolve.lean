/-
What a step does, case by case.

For every way in which a call can be written and a variant can be configured there is one lemma here that
gives the whole result of the step: what it returns, what it makes of the tree and what it reports.
-/
import VariantFold.Proofs.Rewrite

namespace VariantFold

/-! ### Steps in a row -/

section Bind

variable {ε σ α β : Type} {m : EStateM ε σ α} {f : α → EStateM ε σ β} {s s' : σ} {a : α} {e : ε}

lemma bind_ok (h : m s = .ok a s') : (m >>= f) s = f a s' := by
  simp only [bind, EStateM.bind, h]

lemma bind_error (h : m s = .error e s') : (m >>= f) s = .error e s' := by
  simp only [bind, EStateM.bind, h]

lemma of_bind_ok {b : β} {s'' : σ} (h : (m >>= f) s = .ok b s'') :
    ∃ a s', m s = .ok a s' ∧ f a s' = .ok b s'' := by
  simp only [bind, EStateM.bind] at h
  split at h
  · rename_i a s' hm
    exact ⟨a, s', hm, h⟩
  · exact absurd h (by simp)

end Bind

namespace Edit

variable {t t' : Tree} {old : NodeId} {new : List NodeId}

lemma replaceWith_ok (h : t.replaceWith old new = .ok t') : replaceWith old new t = .ok () t' := by
  simp only [replaceWith, h]

lemma of_replaceWith_ok (h : replaceWith old new t = .ok () t') : t.replaceWith old new = .ok t' := by
  rw [replaceWith] at h
  split at h
  · rename_i u hu
    rw [hu, (EStateM.Result.ok.inj h).2]
  · exact absurd h (by simp)

lemma build_ok {α : Type} (b : Build α) (t : Tree) : build b t = .ok (b.run t).1 (b.run t).2 := rfl

end Edit

namespace Step

variable {variants : Variants} {site : CallSite} {w : Workspace} {key : String}
  {args : List NodeId} {value : Scalar} {t t' : Tree} {loop operation : NodeId}

lemma edit_ok {α : Type} {e : Edit α} {a : α} (h : e w.tree = .ok a t) :
    edit e w = .ok a { w with tree := t } := by
  simp only [edit, h]

lemma edit_replaceWith_ok {old : NodeId} {new : List NodeId}
    (h : w.tree.replaceWith old new = .ok t') :
    edit (Edit.replaceWith old new) w = .ok () { w with tree := t' } :=
  edit_ok (Edit.replaceWith_ok h)

lemma tree_ok (w : Workspace) : tree w = .ok w.tree w := rfl

lemma leave_ok (m : Malformed) (w : Workspace) :
    leave site m w = .ok false { w with log := w.log.malformed w.tree site m } := rfl

lemma info_ok (id : NodeId) (message : String) (w : Workspace) :
    info id message w = .ok () { w with log := w.log.info w.tree id message } := rfl

/-! ### Choosing an entry -/

/-- What is told when an entry is chosen. -/
def selectedText (key : String) (value : Scalar) : String :=
  "Selected branch for variant (" ++ key ++ ":" ++ value.text ++ ")"

lemma select_malformed {m : Malformed} (h : w.tree.keyArguments site.call 2 = .error m) :
    select variants site w = .ok false { w with log := w.log.malformed w.tree site m } := by
  rw [select, bind_ok (tree_ok w)]
  simp only [h, leave_ok]

lemma select_unset (h : w.tree.keyArguments site.call 2 = .ok (key, args))
    (hv : variants.lookup key = none) : select variants site w = .ok false w := by
  rw [select, bind_ok (tree_ok w)]
  simp only [h, hv]
  rfl

lemma select_notMap {m : Malformed} (h : w.tree.keyArguments site.call 2 = .ok (key, args))
    (hv : variants.lookup key = some value)
    (hbs : w.tree.branches (Tree.secondArg args) = .error m) :
    select variants site w = .ok false { w with log := w.log.malformed w.tree site m } := by
  rw [select, bind_ok (tree_ok w)]
  simp only [h, hv, hbs, leave_ok]

lemma select_noMatch {bs : List Branch} (h : w.tree.keyArguments site.call 2 = .ok (key, args))
    (hv : variants.lookup key = some value)
    (hbs : w.tree.branches (Tree.secondArg args) = .ok bs)
    (hb : Branch.choose bs value = none) :
    select variants site w = .error (.variant
      (.noMatchingBranch key value.text (w.log.location w.tree site.call))) w := by
  rw [select, bind_ok (tree_ok w)]
  simp only [h, hv, hbs, hb]
  rfl

lemma select_chosen {bs : List Branch} {b : NodeId}
    (h : w.tree.keyArguments site.call 2 = .ok (key, args))
    (hv : variants.lookup key = some value)
    (hbs : w.tree.branches (Tree.secondArg args) = .ok bs)
    (hb : Branch.choose bs value = some b)
    (ht : w.tree.replaceWith site.call [b] = .ok t') :
    select variants site w =
      .ok true ⟨t', w.log.info w.tree site.call (selectedText key value)⟩ := by
  rw [select, bind_ok (tree_ok w)]
  simp only [h, hv, hbs, hb]
  rw [bind_ok (info_ok ..)]
  exact bind_ok (edit_replaceWith_ok ht)

/-! ### Comparing with a list of values -/

/-- What is told when a comparison with a list of values takes a branch. -/
def takenText (what key : String) (configured : Scalar) (matched : Bool) : String :=
  "Inlined " ++ what ++ " for variant (" ++ key ++ ":" ++ configured.text ++ "), taking the " ++
    branchName matched ++ " branch"

lemma isSet_malformed {m : Malformed} (h : w.tree.keyArguments site.call 2 = .error m) :
    isSet variants site w = .ok false { w with log := w.log.malformed w.tree site m } := by
  rw [isSet, bind_ok (tree_ok w)]
  simp only [h, leave_ok]

lemma isSet_unset (h : w.tree.keyArguments site.call 2 = .ok (key, args))
    (hv : variants.lookup key = none) : isSet variants site w = .ok false w := by
  rw [isSet, bind_ok (tree_ok w)]
  simp only [h, hv]
  rfl

lemma isSet_notString (h : w.tree.keyArguments site.call 2 = .ok (key, args))
    (hv : variants.lookup key = some value)
    (hlit : (w.tree.node (Tree.secondArg args)).isStringLiteral = false) :
    isSet variants site w = .ok false
      { w with log := w.log.malformed w.tree site (.candidates (Tree.secondArg args)) } := by
  rw [isSet, bind_ok (tree_ok w)]
  simp only [h, hv, hlit, Bool.false_eq_true, if_false, leave_ok]

/-- The outcome of a comparison with the list of values in a call. -/
def matchedIn (t : Tree) (args : List NodeId) (configured : Scalar) : Bool :=
  isSetMatch (t.node (Tree.secondArg args)).literalText configured

lemma isSet_if (h : w.tree.keyArguments site.call 2 = .ok (key, args))
    (hv : variants.lookup key = some value)
    (hlit : (w.tree.node (Tree.secondArg args)).isStringLiteral = true)
    (hloop : w.tree.enclosingIf site.call = some loop)
    (ht : Edit.inlineIf loop (matchedIn w.tree args value) w.tree = .ok () t') :
    isSet variants site w = .ok true
      ⟨t', w.log.info w.tree loop (takenText "if" key value (matchedIn w.tree args value))⟩ := by
  rw [isSet, bind_ok (tree_ok w)]
  simp only [h, hv, hlit, if_true, hloop]
  rw [bind_ok (info_ok ..)]
  exact bind_ok (edit_ok ht)

lemma isSet_hook (h : w.tree.keyArguments site.call 2 = .ok (key, args))
    (hv : variants.lookup key = some value)
    (hlit : (w.tree.node (Tree.secondArg args)).isStringLiteral = true)
    (hloop : w.tree.enclosingIf site.call = none)
    (hhook : w.tree.enclosingHook site.call = some operation)
    (ht : Edit.inlineHook operation (matchedIn w.tree args value) w.tree = .ok () t') :
    isSet variants site w = .ok true ⟨t', w.log.info w.tree operation
      (takenText "ternary" key value (matchedIn w.tree args value))⟩ := by
  rw [isSet, bind_ok (tree_ok w)]
  simp only [h, hv, hlit, if_true, hloop, hhook]
  rw [bind_ok (info_ok ..)]
  exact bind_ok (edit_ok ht)

lemma isSet_constant {n : NodeId} {u : Tree}
    (h : w.tree.keyArguments site.call 2 = .ok (key, args))
    (hv : variants.lookup key = some value)
    (hlit : (w.tree.node (Tree.secondArg args)).isStringLiteral = true)
    (hloop : w.tree.enclosingIf site.call = none)
    (hhook : w.tree.enclosingHook site.call = none)
    (hn : (Build.boolean (matchedIn w.tree args value) (w.tree.node site.call).line?).run w.tree =
      (n, u))
    (ht : u.replaceWith site.call [n] = .ok t') :
    isSet variants site w = .ok true { w with tree := t' } := by
  rw [isSet, bind_ok (tree_ok w)]
  simp only [h, hv, hlit, if_true, hloop, hhook]
  refine bind_ok (edit_ok (a := ()) (t := t') ?_)
  rw [bind_ok (Edit.build_ok ..)]
  exact hn ▸ Edit.replaceWith_ok ht

/-! ### Taking the value -/

lemma getValue_malformed {m : Malformed} (h : w.tree.keyArguments site.call 1 = .error m) :
    getValue variants site w = .ok false { w with log := w.log.malformed w.tree site m } := by
  rw [getValue, bind_ok (tree_ok w)]
  simp only [h, leave_ok]

lemma getValue_unset (h : w.tree.keyArguments site.call 1 = .ok (key, args))
    (hv : variants.lookup key = none) : getValue variants site w = .ok false w := by
  rw [getValue, bind_ok (tree_ok w)]
  simp only [h, hv]
  rfl

lemma getValue_unsupported {e : VariantError}
    (h : w.tree.keyArguments site.call 1 = .ok (key, args))
    (hv : variants.lookup key = some value)
    (hm : w.tree.materialize value (w.tree.node site.call).line?
      (w.log.location w.tree site.call) = .error e) :
    getValue variants site w = .error (.variant e) w := by
  rw [getValue, bind_ok (tree_ok w)]
  simp only [h, hv]
  rw [bind_ok (show (get : Step Workspace) w = .ok w w from rfl)]
  simp only [hm]
  rfl

/-- What is told when a call gives way to a value. -/
def replacedText (callee key : String) (value : Scalar) : String :=
  "Replaced " ++ callee ++ " with its value (" ++ key ++ ":" ++ value.text ++ ")"

/-- What is told when a literal decides an `if` statement. -/
def decidedText (condition : Bool) : String :=
  "Inlined if with constant condition " ++ (if condition then "true" else "false")

/-- What follows once a call has given way to the literal `constant`. -/
def settle (constant : NodeId) : Step Bool := do
  let limit := ((← tree).ancestors constant).length
  let constant ← edit (Edit.foldAll limit constant)
  let t ← tree
  match t.enclosingIf constant, (t.node constant).decode? with
  | some loop, some value =>
    let condition := conditionTruth value
    info loop (decidedText condition)
    edit (Edit.inlineIf loop condition)
  | _, _ => pure ()
  return true

lemma getValue_set {n : NodeId} {u : Tree} (h : w.tree.keyArguments site.call 1 = .ok (key, args))
    (hv : variants.lookup key = some value)
    (hm : w.tree.materialize value (w.tree.node site.call).line?
      (w.log.location w.tree site.call) = .ok (n, u))
    (ht : u.replaceWith site.call [n] = .ok t') :
    getValue variants site w =
      settle n ⟨t', w.log.info t' n (replacedText site.callee key value)⟩ := by
  rw [getValue, bind_ok (tree_ok w)]
  simp only [h, hv]
  rw [bind_ok (show (get : Step Workspace) w = .ok w w from rfl)]
  simp only [hm]
  rw [bind_ok (show (modify fun w : Workspace => { w with tree := u } : Step PUnit) w =
    .ok () { w with tree := u } from rfl)]
  exact (bind_ok (edit_replaceWith_ok (w := { w with tree := u }) ht)).trans
    (bind_ok (info_ok ..))

lemma settle_if {constant folded : NodeId} {t'' : Tree} {v : Scalar}
    (hfold : Edit.foldAll (w.tree.ancestors constant).length constant w.tree = .ok folded t')
    (hloop : t'.enclosingIf folded = some loop) (hv : (t'.node folded).decode? = some v)
    (ht : Edit.inlineIf loop (conditionTruth v) t' = .ok () t'') :
    settle constant w = .ok true ⟨t'', w.log.info t' loop (decidedText (conditionTruth v))⟩ := by
  rw [settle, bind_ok (tree_ok w)]
  refine (bind_ok (edit_ok hfold)).trans ?_
  rw [bind_ok (tree_ok _)]
  simp only [hloop, hv]
  rw [bind_ok (info_ok ..)]
  exact bind_ok (edit_ok ht)

lemma settle_plain {constant folded : NodeId}
    (hfold : Edit.foldAll (w.tree.ancestors constant).length constant w.tree = .ok folded t')
    (hnone : t'.enclosingIf folded = none ∨ (t'.node folded).decode? = none) :
    settle constant w = .ok true { w with tree := t' } := by
  rw [settle, bind_ok (tree_ok w)]
  refine (bind_ok (edit_ok hfold)).trans ?_
  rw [bind_ok (tree_ok _)]
  rcases hnone with hnone | hnone
  · simp only [hnone]
    rfl
  · simp only [hnone]
    cases t'.enclosingIf folded <;> rfl

/-! ### All methods -/

end Step

/-- The number of arguments that a method takes. -/
def Method.arity : Method → Nat
  | get => 1
  | select | isSet | compilerIsSet => 2

namespace Step

variable {variants : Variants} {site : CallSite} {w : Workspace} {key : String}
  {args : List NodeId}

/-- A call without a key is left alone with a warning. -/
lemma resolve_malformed {m : Malformed}
    (h : w.tree.keyArguments site.call site.method.arity = .error m) :
    resolve variants site w = .ok false { w with log := w.log.malformed w.tree site m } := by
  rcases hm : site.method <;> rw [hm] at h <;> simp only [resolve, hm]
  · exact select_malformed h
  · exact isSet_malformed h
  · exact isSet_malformed h
  · exact getValue_malformed h

/-- A call whose key is not configured is left alone. -/
lemma resolve_unset (h : w.tree.keyArguments site.call site.method.arity = .ok (key, args))
    (hv : variants.lookup key = none) : resolve variants site w = .ok false w := by
  rcases hm : site.method <;> rw [hm] at h <;> simp only [resolve, hm]
  · exact select_unset h hv
  · exact isSet_unset h hv
  · exact isSet_unset h hv
  · exact getValue_unset h hv

end Step

end VariantFold
