/-
The arguments of a call that asks for a variant.

A call with the wrong number of arguments, or whose first argument is no string literal, is left alone
with a warning.
-/
import VariantFold.CallSite
import VariantFold.Step.Basic

namespace VariantFold

/-- What is wrong with the arguments of a call, and where. -/
inductive Malformed where
  /-- There are too few or too many. -/
  | count (at_ : NodeId) (expected : Nat)
  /-- The key is no string literal. -/
  | key (at_ : NodeId)
  /-- The second argument has to be an object literal. -/
  | map (at_ : NodeId)
  /-- The second argument has to be a string literal. -/
  | candidates (at_ : NodeId)
  deriving DecidableEq

namespace Malformed

/-- The node that the warning is about. -/
def node : Malformed → NodeId
  | count id _ | key id | map id | candidates id => id

/-- A number of arguments in words. -/
def countText : Nat → String
  | 1 => "one argument"
  | 2 => "two arguments"
  | _ => "a different number of arguments"

/-- The warning about a call of `callee`. -/
def message (callee : String) : Malformed → String
  | count _ expected =>
    "Expecting exactly " ++ countText expected ++ " for " ++ callee ++ ". Ignoring this occurrence."
  | key _ => "First argument must be a string literal! Ignoring this occurrence."
  | map _ =>
    "The second parameter of " ++ callee ++ " must be a map. Ignoring this occurrence."
  | candidates _ =>
    "The second parameter of " ++ callee ++ " must be a string literal. Ignoring this occurrence."

end Malformed

namespace Tree

/-- The key that a call asks for and its arguments, if there are as many as expected and the key is a
string literal. -/
def keyArguments (t : Tree) (call : NodeId) (expected : Nat) :
    Except Malformed (String × List NodeId) :=
  let args := t.callArgs call
  if args.length = expected then
    match args with
    | key :: _ =>
      if (t.node key).isStringLiteral then .ok ((t.node key).literalText, args)
      else .error (.key key)
    | [] => .error (.count call expected)
  else .error (.count ((t.childOfKind? call .params).getD call) expected)

end Tree

/-- Warns about a malformed call. -/
def Log.malformed (log : Log) (t : Tree) (site : CallSite) (m : Malformed) : Log :=
  log.warn t m.node (m.message site.callee)

/-- Leaves a malformed call alone with a warning. -/
def Step.leave (site : CallSite) (m : Malformed) : Step Bool := do
  modify fun w => { w with log := w.log.malformed w.tree site m }
  return false

end VariantFold
