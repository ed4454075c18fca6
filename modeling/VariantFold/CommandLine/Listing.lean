/-
Listing the calls that ask for variants.

A call is listed on a line of its own: its source line, its method, its key, and for a selection the keys
of the entries, with tabs between.
-/
import VariantFold.Step.Select

namespace VariantFold

/-- The key that a call asks for, if it is a string literal. -/
def Tree.siteKey? (t : Tree) (site : CallSite) : Option String :=
  match (t.callArgs site.call).head? with
  | some arg => if (t.node arg).isStringLiteral then (t.node arg).str? Attr.value else none
  | none => none

namespace CommandLine

/-- The line for a call, from the keys of the entries that it selects from. -/
def siteText (t : Tree) (site : CallSite) (branchKeys : Option (List String)) : String :=
  let line := match (t.node site.call).line? with
    | some line => intText line.toInt
    | none => "-"
  let keys := match branchKeys with
    | some keys => [",".intercalate keys]
    | none => []
  "\t".intercalate ([line, site.method.name, (t.siteKey? site).getD "?"] ++ keys)

/-- The line for a call.  A selection with other arguments than it should have is listed without entries,
with a warning. -/
def describe (t : Tree) (log : Log) (site : CallSite) : String × Log :=
  if site.method = .select then
    match t.selectArgs site with
    | .ok args => (siteText t site (some (args.branches.map Branch.keys)), log)
    | .error m => (siteText t site none, log.malformed t site m)
  else (siteText t site none, log)

/-- The lines for calls, in order. -/
def describeAll (t : Tree) : Log → List CallSite → List String × Log
  | log, [] => ([], log)
  | log, site :: rest =>
    let (line, log) := describe t log site
    let (lines, log) := describeAll t log rest
    (line :: lines, log)

/-- Lines as a text; every line is ended. -/
def listingText (lines : List String) : String := String.join (lines.map (· ++ "\n"))

end CommandLine

end VariantFold
