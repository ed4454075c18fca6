/-
Comparing a variant with a list of values.

`isSet(key, values)` is true if the configured value is one of the values, which are divided by bars.
Where the call is a whole condition the branch is taken at once, elsewhere the call becomes a truth
value.
-/
import VariantFold.Step.Arguments
import VariantFold.Step.Context
import VariantFold.Step.Inline
import VariantFold.Step.Select
import VariantFold.Variants.Basic

namespace VariantFold

/-- Whether a configured value is one of those that bars divide.  Only a string is ever one of
them. -/
def isSetMatch (candidates : String) (configured : Scalar) : Bool :=
  match configured.str? with
  | some s => s ∈ Text.fields '|' candidates
  | none => false

theorem isSetMatch_eq_decide (candidates s : String) :
    isSetMatch candidates (.string s) = decide (s ∈ Text.fields '|' candidates) :=
  rfl

namespace Step

/-- The name of the branch that a condition takes. -/
def branchName (condition : Bool) : String := if condition then "then" else "else"

/-- Resolves a comparison of a variant. -/
def isSet (variants : Variants) (site : CallSite) : Step Bool := do
  let t ← tree
  match t.keyArguments site.call 2 with
  | .error m => leave site m
  | .ok (key, args) =>
    match variants.lookup key with
    | none => return false
    | some configured =>
      let candidates := Tree.secondArg args
      if (t.node candidates).isStringLiteral then
        let matched := isSetMatch (t.node candidates).literalText configured
        let told (what : String) : String :=
          "Inlined " ++ what ++ " for variant (" ++ key ++ ":" ++ configured.text ++ "), taking the " ++
            branchName matched ++ " branch"
        match t.enclosingIf site.call, t.enclosingHook site.call with
        | some loop, _ =>
          info loop (told "if")
          edit (Edit.inlineIf loop matched)
        | none, some operation =>
          info operation (told "ternary")
          edit (Edit.inlineHook operation matched)
        | none, none =>
          edit do
            let constant ← Edit.build (Build.boolean matched (t.node site.call).line?)
            Edit.replace site.call constant
        return true
      else leave site (.candidates candidates)

end Step

end VariantFold
