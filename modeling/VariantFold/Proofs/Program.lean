/-
Programs and their direct evaluation.

A program is a list of statements: calls and selections, `if` statements on variants, and blocks.  The
trees of programs are built with the builders of this library (`Program.tree`).  A program can also be
evaluated directly, by recursion on its syntax and without any tree (`Program.eval`): what is
configured is decided on the spot, what is not stays, and its parts are evaluated from left to right.
-/
import VariantFold.Proofs.ReadBack
import VariantFold.Proofs.Simulation

namespace VariantFold

/-! ### The syntax -/

/-- A scalar with an exact literal. -/
abbrev ExactScalar := { v : Scalar // v.isExact = true }

/-- One of the given namespaces. -/
abbrev Space (namespaces : List String) := { s : String // s ∈ namespaces }

/-- What is called to ask for a variant. -/
def Space.callee {namespaces : List String} (space : Space namespaces) (m : Method) : String :=
  space.1 ++ "." ++ m.name

/-- Expressions: calls, and selections of an expression by a variant. -/
inductive Expr (namespaces : List String) where
  /-- A call whose arguments are expressions. -/
  | call (callee : String) (args : List (Expr namespaces))
  /-- `select(key, { ... })`. -/
  | select (space : Space namespaces) (key : String) (entries : List (String × Expr namespaces))

/-- Conditions on variants. -/
inductive Condition (namespaces : List String) where
  /-- `get(key)`. -/
  | value (space : Space namespaces) (key : String)
  /-- `get(key) == literal`, or with one of the other operators. -/
  | comparison (space : Space namespaces) (key : String) (operator : EqualityOperator)
    (literal : ExactScalar)
  /-- `isSet(key, candidates)`. -/
  | oneOf (space : Space namespaces) (key : String) (candidates : String)

/-- Statements. -/
inductive Statement (namespaces : List String) where
  | expression (e : Expr namespaces)
  | ifThen (c : Condition namespaces) (whenTrue : List (Statement namespaces))
    (whenFalse : Option (List (Statement namespaces)))
  | block (statements : List (Statement namespaces))

variable {namespaces : List String} {α ε : Type}

/-- The value of an entry is smaller than the entries. -/
lemma sizeOf_value_lt [SizeOf α] {e : String × α} {entries : List (String × α)} (h : e ∈ entries) :
    sizeOf e.2 < sizeOf entries := by
  have hlt := List.sizeOf_lt_of_mem h
  rcases e with ⟨key, value⟩
  simp only [Prod.mk.sizeOf_spec] at hlt
  exact (by omega : sizeOf value < sizeOf entries)

/-- Recursion on expressions: what is made of an expression is made of what was made of its parts. -/
def Expr.fold (onCall : String → List α → α)
    (onSelect : Space namespaces → String → List (String × α) → α) : Expr namespaces → α
  | call callee args => onCall callee (args.map (fold onCall onSelect))
  | select space key entries =>
    onSelect space key (entries.map fun e => (e.1, fold onCall onSelect e.2))
decreasing_by
  · decreasing_tactic
  · have hlt := sizeOf_value_lt ‹_ ∈ entries›
    simp only [select.sizeOf_spec]
    omega

/-- Recursion on statements. -/
def Statement.fold (onExpression : Expr namespaces → α)
    (onIf : Condition namespaces → List α → Option (List α) → α) (onBlock : List α → α) :
    Statement namespaces → α
  | expression e => onExpression e
  | ifThen c whenTrue none => onIf c (whenTrue.map (fold onExpression onIf onBlock)) none
  | ifThen c whenTrue (some whenFalse) =>
    onIf c (whenTrue.map (fold onExpression onIf onBlock))
      (some (whenFalse.map (fold onExpression onIf onBlock)))
  | block statements => onBlock (statements.map (fold onExpression onIf onBlock))
decreasing_by
  all_goals
    have hlt := List.sizeOf_lt_of_mem ‹_ ∈ _›
    simp only [ifThen.sizeOf_spec, block.sizeOf_spec, Option.some.sizeOf_spec]
    omega

lemma Statement.fold_ifThen (onExpression : Expr namespaces → α)
    (onIf : Condition namespaces → List α → Option (List α) → α) (onBlock : List α → α)
    (c : Condition namespaces) (whenTrue : List (Statement namespaces))
    (whenFalse : Option (List (Statement namespaces))) :
    (ifThen c whenTrue whenFalse).fold onExpression onIf onBlock =
      onIf c (whenTrue.map (fold onExpression onIf onBlock))
        (whenFalse.map (List.map (fold onExpression onIf onBlock))) := by
  cases whenFalse <;> rw [fold] <;> rfl

/-- Induction on expressions. -/
@[elab_as_elim]
lemma Expr.induction {P : Expr namespaces → Prop}
    (call : ∀ callee args, (∀ a ∈ args, P a) → P (call callee args))
    (select : ∀ space key entries, (∀ e ∈ entries, P e.2) → P (select space key entries)) :
    ∀ e, P e
  | .call callee args => call callee args fun a ha => by
    have hlt := List.sizeOf_lt_of_mem ha
    exact Expr.induction call select a
  | .select space key entries => select space key entries fun e he => by
    have hlt := sizeOf_value_lt he
    exact Expr.induction call select e.2
decreasing_by
  all_goals
    simp only [Expr.call.sizeOf_spec, Expr.select.sizeOf_spec]
    omega

/-- Induction on statements. -/
@[elab_as_elim]
lemma Statement.induction {P : Statement namespaces → Prop} (expression : ∀ e, P (expression e))
    (ifThen : ∀ c whenTrue whenFalse, (∀ s ∈ whenTrue, P s) →
      (∀ ss ∈ whenFalse, ∀ s ∈ ss, P s) → P (ifThen c whenTrue whenFalse))
    (block : ∀ statements, (∀ s ∈ statements, P s) → P (block statements)) : ∀ s, P s
  | .expression e => expression e
  | .ifThen c whenTrue none => by
    refine ifThen c whenTrue none (fun s hs => ?_) (by simp)
    have hlt := List.sizeOf_lt_of_mem hs
    exact Statement.induction expression ifThen block s
  | .ifThen c whenTrue (some whenFalse) => by
    refine ifThen c whenTrue (some whenFalse) (fun s hs => ?_) fun ss hss s hs => ?_
    · have hlt := List.sizeOf_lt_of_mem hs
      exact Statement.induction expression ifThen block s
    · obtain rfl := Option.some_injective _ hss
      have hlt := List.sizeOf_lt_of_mem hs
      exact Statement.induction expression ifThen block s
  | .block statements => block statements fun s hs => by
    have hlt := List.sizeOf_lt_of_mem hs
    exact Statement.induction expression ifThen block s
decreasing_by
  all_goals
    simp only [Statement.ifThen.sizeOf_spec, Statement.block.sizeOf_spec, Option.some.sizeOf_spec]
    omega

/-! ### Evaluation -/

/-- The values of results, or the first complaint among them. -/
def inOrder : List (Except ε α) → Except ε (List α)
  | [] => .ok []
  | r :: rest => do return (← r) :: (← inOrder rest)

/-- The entry for a text: the first with a key that fits, or else the last with a default key. -/
def pick (text : String) (entries : List (String × α)) : Option α :=
  ((entries.find? fun e => (Text.fields '|' e.1).any fun key => Branch.fits key text).or
    (entries.reverse.find? fun e => Branch.defaultKey ∈ Text.fields '|' e.1)).map Prod.snd

/-- Evaluates an expression.  A selection becomes the entry for the value of its variant; if the
variant is not configured, it stays and every entry is evaluated. -/
def Expr.eval (variants : Variants) : Expr namespaces → Except Unmatched (Expr namespaces) :=
  fold (fun callee args => return call callee (← inOrder args)) fun space key entries =>
    match variants.lookup key with
    | none => return select space key (← inOrder (entries.map fun e => return (e.1, ← e.2)))
    | some value => (pick value.text entries).getD (.error ⟨key, value.text⟩)

/-- The truth of a condition, if the variant is configured. -/
def Condition.truth? (variants : Variants) : Condition namespaces → Option Bool
  | value _ key => (variants.lookup key).map conditionTruth
  | comparison _ key operator literal => (variants.lookup key).map fun value =>
    operator.apply (comparisonOperand value) (comparisonOperand literal)
  | oneOf _ key candidates => (variants.lookup key).map (isSetMatch candidates)

/-- Evaluates a statement.  An `if` statement becomes the block of the branch that is taken, which is
empty if there is no such branch; if the variant is not configured, it stays and both branches are
evaluated. -/
def Statement.eval (variants : Variants) :
    Statement namespaces → Except Unmatched (Statement namespaces) :=
  fold (fun e => return expression (← e.eval variants))
    (fun c whenTrue whenFalse =>
      match c.truth? variants with
      | some true => return block (← inOrder whenTrue)
      | some false => return block (← inOrder (whenFalse.getD []))
      | none => do
        let whenTrue ← inOrder whenTrue
        let whenFalse ← whenFalse.mapM inOrder
        return ifThen c whenTrue whenFalse)
    fun statements => return block (← inOrder statements)

/-- A list of statements. -/
abbrev Program (namespaces : List String) := List (Statement namespaces)

/-- Evaluates the statements of a program in order. -/
def Program.eval (variants : Variants) (program : Program namespaces) :
    Except Unmatched (Program namespaces) :=
  inOrder (program.map (Statement.eval variants))

/-! ### Building -/

/-- Adds an expression to a tree. -/
def Expr.build : Expr namespaces → Build NodeId :=
  fold (fun callee args => do Build.call callee (← args.mapM id)) fun space key entries => do
    let keyArg ← Build.stringLiteral key
    let values ← (entries.map Prod.snd).mapM id
    let map ← Build.map ((entries.map Prod.fst).zip values)
    Build.call (space.callee .select) [keyArg, map]

/-- Adds a condition to a tree. -/
def Condition.build : Condition namespaces → Build NodeId
  | value space key => do Build.call (space.callee .get) [← Build.stringLiteral key]
  | comparison space key operator literal => do
    let value ← Build.call (space.callee .get) [← Build.stringLiteral key]
    Build.operation operator.name value (← Build.literal literal)
  | oneOf space key candidates => do
    Build.call (space.callee .isSet) [← Build.stringLiteral key, ← Build.stringLiteral candidates]

/-- Adds a statement to a tree. -/
def Statement.build : Statement namespaces → Build NodeId :=
  fold Expr.build
    (fun c whenTrue whenFalse => do
      let condition ← c.build
      let whenTrue ← whenTrue.mapM id
      let whenFalse ← whenFalse.mapM fun statements => statements.mapM id
      Build.ifStatement condition whenTrue whenFalse)
    fun statements => do Build.block (← statements.mapM id)

/-- The tree of a program. -/
def Program.tree (program : Program namespaces) : Tree :=
  let (statements, t) := (program.mapM Statement.build).run (Tree.single .file)
  (t.pushStatements statements).2

/-! ### How the functions recurse -/

namespace Expr

variable {variants : Variants} {callee key : String} {args : List (Expr namespaces)}
  {space : Space namespaces} {entries : List (String × Expr namespaces)}

lemma eval_call : (call callee args).eval variants = do
    return call callee (← inOrder (args.map (eval variants))) := by
  rw [eval, fold]

lemma eval_select_none (h : variants.lookup key = none) :
    (select space key entries).eval variants = do
      return select space key
        (← inOrder (entries.map fun e => do return (e.1, ← e.2.eval variants))) := by
  rw [eval, fold, h, List.map_map]
  rfl

lemma eval_select_some {value : Scalar} (h : variants.lookup key = some value) :
    (select space key entries).eval variants =
      (pick value.text (entries.map fun e => (e.1, e.2.eval variants))).getD
        (.error ⟨key, value.text⟩) := by
  rw [eval, fold, h]

lemma build_call : (call callee args).build = args.mapM build >>= Build.call callee := by
  rw [build, fold, List.mapM_map]
  rfl

lemma build_select : (select space key entries).build = (do
    let keyArg ← Build.stringLiteral key
    let values ← entries.mapM fun e => e.2.build
    let map ← Build.map ((entries.map Prod.fst).zip values)
    Build.call (space.callee .select) [keyArg, map]) := by
  rw [build, fold, List.map_map, List.map_map, List.mapM_map]
  rfl

end Expr

namespace Statement

variable {variants : Variants} {c : Condition namespaces} {whenTrue : List (Statement namespaces)}
  {whenFalse : Option (List (Statement namespaces))} {statements : List (Statement namespaces)}

lemma eval_expression (e : Expr namespaces) :
    (expression e).eval variants = do return expression (← e.eval variants) := by
  rw [eval, fold]

lemma eval_block : (block statements).eval variants = do
    return block (← inOrder (statements.map (eval variants))) := by
  rw [eval, fold]

lemma eval_ifThen : (ifThen c whenTrue whenFalse).eval variants =
    match c.truth? variants with
    | some true => do return block (← inOrder (whenTrue.map (eval variants)))
    | some false => do return block (← inOrder ((whenFalse.getD []).map (eval variants)))
    | none => do
      let whenTrue ← inOrder (whenTrue.map (eval variants))
      let whenFalse ← whenFalse.mapM fun ss => inOrder (ss.map (eval variants))
      return ifThen c whenTrue whenFalse := by
  rw [eval, fold_ifThen]
  cases whenFalse <;> rfl

lemma build_expression (e : Expr namespaces) : (expression e).build = e.build := by
  rw [build, fold]

lemma build_block : (block statements).build = statements.mapM build >>= Build.block := by
  rw [build, fold, List.mapM_map]
  rfl

lemma build_ifThen : (ifThen c whenTrue whenFalse).build = (do
    let condition ← c.build
    let whenTrue ← whenTrue.mapM build
    let whenFalse ← whenFalse.mapM fun ss => ss.mapM build
    Build.ifStatement condition whenTrue whenFalse) := by
  rw [build, fold_ifThen, List.mapM_map]
  cases whenFalse with
  | none => rfl
  | some ss =>
    simp only [Option.map_some, Option.mapM_some, List.mapM_map]
    rfl

end Statement

end VariantFold
