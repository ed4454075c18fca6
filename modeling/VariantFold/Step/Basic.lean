/-
Steps on a tree.

A step may be refused or fail; what it did before stays.  An `Edit` changes a tree, a `Step` changes
a tree and reports.
-/
import VariantFold.Diagnostic
import VariantFold.Tree.Build

namespace VariantFold

/-- A change of a tree that may be refused. -/
abbrev Edit := EStateM Misplacement Tree

namespace Edit

/-- Adds to the tree. -/
def build {α : Type} (b : Build α) : Edit α := fun t =>
  let (a, t) := b.run t
  .ok a t

/-- Puts nodes in the place of a node. -/
def replaceWith (old : NodeId) (new : List NodeId) : Edit Unit := fun t =>
  match t.replaceWith old new with
  | .ok t => .ok () t
  | .error e => .error e t

/-- Puts a node in the place of a node. -/
def replace (old new : NodeId) : Edit Unit := replaceWith old [new]

end Edit

/-- A tree that is being worked on, with the reports about it. -/
structure Workspace where
  tree : Tree
  log : Log

/-- Why a step ends early. -/
inductive Failure where
  /-- A node cannot go where it was to go. -/
  | misplaced (e : Misplacement)
  /-- The configuration does not fit the tree. -/
  | variant (e : VariantError)
  deriving DecidableEq

/-- A step that changes a tree and reports. -/
abbrev Step := EStateM Failure Workspace

namespace Step

/-- Changes the tree. -/
def edit {α : Type} (e : Edit α) : Step α := fun w =>
  match e w.tree with
  | .ok a t => .ok a { w with tree := t }
  | .error e t => .error (.misplaced e) { w with tree := t }

/-- The tree as it is. -/
def tree : Step Tree := return (← get).tree

/-- Warns about a node. -/
def warn (id : NodeId) (message : String) : Step Unit :=
  modify fun w => { w with log := w.log.warn w.tree id message }

/-- Tells what was done at a node. -/
def info (id : NodeId) (message : String) : Step Unit :=
  modify fun w => { w with log := w.log.info w.tree id message }

end Step

end VariantFold
