/-
Taking the value of a variant.

`get(key)` becomes the literal of the configured value.  Comparisons of that literal with other literals
are then carried out, from the inside out, and if a literal ends up as the whole condition of an `if`
statement, the branch is taken.
-/
import VariantFold.Step.Arguments
import VariantFold.Step.Context
import VariantFold.Step.Inline
import VariantFold.Variants.Basic

namespace VariantFold

/-- The operators of comparisons that are carried out. -/
inductive EqualityOperator where
  /-- Equal. -/
  | eq
  /-- Strictly equal. -/
  | sheq
  /-- Not equal. -/
  | ne
  /-- Not strictly equal. -/
  | shne
  deriving DecidableEq, Repr

namespace EqualityOperator

/-- The name of an operator in the tree. -/
def name : EqualityOperator → String
  | eq => "EQ"
  | sheq => "SHEQ"
  | ne => "NE"
  | shne => "SHNE"

/-- The operator of a name. -/
def ofName? (s : String) : Option EqualityOperator :=
  [eq, sheq, ne, shne].find? fun o => o.name = s

/-- The outcome of a comparison. -/
def apply (o : EqualityOperator) (a b : Scalar) : Bool :=
  match o with
  | eq | sheq => a.looseEq b
  | ne | shne => !a.looseEq b

end EqualityOperator

/-- The value that a literal counts as in a comparison: the words `on` and `off` are truth values. -/
def comparisonOperand (value : Scalar) : Scalar :=
  match value with
  | .string "on" => .bool true
  | .string "off" => .bool false
  | value => value

/-- The truth of a literal as a condition: the words `off` and `false` count as false. -/
def conditionTruth (value : Scalar) : Bool :=
  match value with
  | .string "off" => false
  | .string "false" => false
  | value => value.isTruthy

/-- A comparison that can be carried out. -/
structure Comparison where
  /-- The operation. -/
  operation : NodeId
  /-- Its outcome. -/
  outcome : Bool
  deriving DecidableEq, Repr

namespace Tree

/-- The operand slot opposite to a slot. -/
def oppositeSlot? : Kind → Option Kind
  | .first => some .second
  | .second => some .first
  | _ => none

/-- The comparison whose one operand a literal is, the other being a literal too. -/
def comparison? (t : Tree) (constant : NodeId) : Option Comparison := do
  let slot ← t.nearestNonGroup constant none
  let otherKind ← oppositeSlot? (t.kind slot)
  let operation ← t.parent? slot
  if t.kind operation = .operation then
    let operator ← (t.node operation).str? Attr.operator >>= EqualityOperator.ofName?
    let otherSlot ← t.childOfKind? operation otherKind
    let other ← (t.contents otherSlot).head?
    let left ← (t.node constant).decode?
    let right ← (t.node (t.skipGroups other)).decode?
    return ⟨operation, operator.apply (comparisonOperand left) (comparisonOperand right)⟩
  else none

end Tree

namespace Edit

/-- Carries out the comparison whose one operand a literal is, and gives the literal that took its
place. -/
def foldEquality (constant : NodeId) : Edit (Option NodeId) := do
  let t ← get
  match t.comparison? constant with
  | none => return none
  | some c =>
    let folded ← build (Build.boolean c.outcome (t.node c.operation).line?)
    replace c.operation folded
    return some folded

/-- Carries out comparisons from the inside out, at most `limit` of them, and gives the literal that
is left. -/
def foldAll : (limit : Nat) → NodeId → Edit NodeId
  | 0, constant => return constant
  | n + 1, constant => do
    match ← foldEquality constant with
    | some folded => foldAll n folded
    | none => return constant

end Edit

namespace Step

/-- Resolves the use of a variant's value. -/
def getValue (variants : Variants) (site : CallSite) : Step Bool := do
  let t ← tree
  match t.keyArguments site.call 1 with
  | .error m => leave site m
  | .ok (key, _) =>
    match variants.lookup key with
    | none => return false
    | some value =>
      let log := (← get).log
      match t.materialize value (t.node site.call).line? (log.location t site.call) with
      | .error e => throw (.variant e)
      | .ok (constant, t) =>
        modify fun w => { w with tree := t }
        edit (Edit.replace site.call constant)
        info constant
          ("Replaced " ++ site.callee ++ " with its value (" ++ key ++ ":" ++ value.text ++ ")")
        -- every comparison that is carried out is an ancestor of the literal
        let limit := ((← tree).ancestors constant).length
        let constant ← edit (Edit.foldAll limit constant)
        let t ← tree
        match t.enclosingIf constant, (t.node constant).decode? with
        | some loop, some value =>
          let condition := conditionTruth value
          info loop
            ("Inlined if with constant condition " ++ (if condition then "true" else "false"))
          edit (Edit.inlineIf loop condition)
        | _, _ => pure ()
        return true

end Step

end VariantFold
