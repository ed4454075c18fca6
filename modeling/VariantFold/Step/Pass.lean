/-
Passes over a tree.

A pass collects the calls that ask for variants and resolves them in order.  A call that an earlier
step cut out of the tree is skipped.  Passes are repeated while they change the tree.
-/
import VariantFold.Step.Get
import VariantFold.Step.IsSet
import VariantFold.Step.Select

namespace VariantFold.Step

/-- Resolves a call that asks for a variant, and tells whether the tree changed. -/
def resolve (variants : Variants) (site : CallSite) : Step Bool :=
  match site.method with
  | .select => select variants site
  | .isSet | .compilerIsSet => isSet variants site
  | .get => getValue variants site

/-- Resolves a call unless it was cut out of the tree. -/
def visit (variants : Variants) (site : CallSite) : Step Bool := do
  if (← tree).isAttached site.call then resolve variants site
  else
    modify fun w =>
      { w with log := w.log.note .trace ("Skipping detached call site " ++ site.callee) }
    return false

/-- Resolves calls in order, and tells whether the tree changed. -/
def visitAll (variants : Variants) : List CallSite → Step Bool
  | [] => return false
  | site :: rest => do
    let changed ← visit variants site
    let changedLater ← visitAll variants rest
    return changed || changedLater

/-- Resolves the calls of a tree that ask for variants, and tells whether the tree changed. -/
def optimize (namespaces : List String) (variants : Variants) : Step Bool := do
  visitAll variants ((← tree).callSites namespaces)

/-- Repeats passes while they change the tree, at most `limit` times, and counts those that did. -/
def optimizeUntilStable (namespaces : List String) (variants : Variants) :
    (limit : Nat) → Step Nat
  | 0 => return 0
  | n + 1 => do
    if ← optimize namespaces variants then
      return (← optimizeUntilStable namespaces variants n) + 1
    else return 0

end VariantFold.Step
