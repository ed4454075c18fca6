/-
Choosing an entry of an object literal by a variant.

`select(key, { ... })` becomes the entry whose key fits the configured value.  A key may list several
values, divided by bars, and `default` fits where nothing else does.
-/
import VariantFold.Step.Arguments
import VariantFold.Variants.Basic

namespace VariantFold

/-- An entry that can be chosen. -/
structure Branch where
  /-- The values it fits, divided by bars. -/
  keys : String
  /-- What the call becomes. -/
  value : NodeId
  deriving DecidableEq, Repr

/-- The arguments of a selection. -/
structure SelectArgs where
  key : String
  branches : List Branch
  deriving DecidableEq, Repr

namespace Branch

/-- The key of the entry that fits where no other does. -/
def defaultKey : String := "default"

/-- Words for switched on. -/
def onWords : List String := ["on", "true"]

/-- Words for switched off. -/
def offWords : List String := ["off", "false"]

/-- Whether a single key fits the text of a value: it is the same, or both are words for switched on,
or both are words for switched off. -/
def fits (key value : String) : Bool :=
  key = value || (key ∈ onWords && value ∈ onWords) || (key ∈ offWords && value ∈ offWords)

/-- The single keys of an entry. -/
def alternatives (b : Branch) : List String := Text.fields '|' b.keys

/-- Goes through the single keys of an entry with the default known so far: the entry is chosen, or
the default is known better. -/
def scan (value : String) (target : NodeId) : Option NodeId → List String → Except NodeId (Option NodeId)
  | fallback, [] => .ok fallback
  | fallback, key :: rest =>
    if fits key value then .error target
    else scan value target (if key = defaultKey then some target else fallback) rest

/-- The entry for a text: the first with a key that fits, or else the last with a default key. -/
def chooseText (value : String) : Option NodeId → List Branch → Option NodeId
  | fallback, [] => fallback
  | fallback, b :: rest =>
    match scan value b.value fallback b.alternatives with
    | .error chosen => some chosen
    | .ok fallback => chooseText value fallback rest

/-- The entry for a value. -/
def choose (branches : List Branch) (value : Scalar) : Option NodeId :=
  chooseText value.text none branches

end Branch

namespace Tree

/-- The entry of an object literal that a node is, if it has a key and a value. -/
def branch? (t : Tree) (entry : NodeId) : Option Branch :=
  if t.kind entry = .keyValue then do
    let keys ← (t.node entry).str? Attr.key
    let slot ← t.childOfKind? entry .value
    let value ← (t.contents slot).head?
    return ⟨keys, value⟩
  else none

/-- The entries of an object literal. -/
def branches (t : Tree) (map : NodeId) : Except Malformed (List Branch) :=
  if t.kind map = .map then .ok ((t.children map).filterMap t.branch?) else .error (.map map)

/-- The second argument of a call with two. -/
def secondArg (args : List NodeId) : NodeId := args.getD 1 0

/-- The arguments of a selection. -/
def selectArgs (t : Tree) (site : CallSite) : Except Malformed SelectArgs := do
  let (key, args) ← t.keyArguments site.call 2
  return ⟨key, ← t.branches (secondArg args)⟩

end Tree

namespace Step

/-- Replaces a selection by the entry for the configured value. -/
def select (variants : Variants) (site : CallSite) : Step Bool := do
  let t ← tree
  match t.keyArguments site.call 2 with
  | .error m => leave site m
  | .ok (key, args) =>
    match variants.lookup key with
    | none => return false
    | some value =>
      match t.branches (Tree.secondArg args) with
      | .error m => leave site m
      | .ok branches =>
        match Branch.choose branches value with
        | some branch =>
          info site.call ("Selected branch for variant (" ++ key ++ ":" ++ value.text ++ ")")
          edit (Edit.replace site.call branch)
          return true
        | none =>
          let log := (← get).log
          throw (.variant (.noMatchingBranch key value.text (log.location t site.call)))

end Step

end VariantFold
