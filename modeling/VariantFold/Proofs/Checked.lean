/-
Runs that check every look-up.

A run looks nodes up by name and moves them.  The definitions here do the same as those of a run, but
they stop with a fault at a name that has no node, at an argument or a position that is not there, and
wherever a node is moved below itself or replaced by an ancestor.  Where every link of a tree leads to a
node, the answers are those of the run that checks nothing, and the only faults left are moves that the
run refuses too.
-/
import VariantFold.Proofs.Resolve

namespace VariantFold

/-- What stops a run that checks every look-up. -/
inductive Fault where
  /-- There is no node of this name. -/
  | noNode (id : NodeId)
  /-- A call has no argument at this position. -/
  | noArgument (position : Nat)
  /-- A list of children has no such position. -/
  | noPosition (position : Nat)
  /-- A node cannot go where it was to go. -/
  | misplaced (e : Misplacement)
  deriving DecidableEq

/-- The children of a node that a walk through a scope enters. -/
def Node.inScope (n : Node) : List NodeId := if n.kind = .function then [] else n.children

/-- A scalar without a literal in a complaint. -/
def Scalar.unsupportedText : Scalar → String
  | .float x => literalFloat x
  | value => value.text

namespace Checked

/-! ### Looking nodes up -/

/-- The node of a name. -/
def node (t : Tree) (id : NodeId) : Except Fault Node :=
  match t.nodes.get? id with
  | some n => .ok n
  | none => .error (.noNode id)

/-- Nodes with their names. -/
def nodes (t : Tree) (ids : List NodeId) : Except Fault (List (NodeId × Node)) :=
  ids.mapM fun id => return (id, ← node t id)

def kind (t : Tree) (id : NodeId) : Except Fault Kind := return (← node t id).kind

def parent? (t : Tree) (id : NodeId) : Except Fault (Option NodeId) := return (← node t id).parent

/-- The children of a node. -/
def children (t : Tree) (id : NodeId) : Except Fault (List NodeId) := return (← node t id).children

/-- The children of a node that are not comments. -/
def contents (t : Tree) (id : NodeId) : Except Fault (List NodeId) := do
  let cs ← nodes t (← children t id)
  return (cs.filter fun c => !c.2.kind.isComment).map Prod.fst

/-- The first child of a kind. -/
def childOfKind? (t : Tree) (id : NodeId) (kind : Kind) : Except Fault (Option NodeId) := do
  let cs ← nodes t (← children t id)
  return (cs.find? fun c => c.2.kind = kind).map Prod.fst

/-! ### Up the tree and down -/

/-- The chain of parents from `start` on, at most `limit` of them. -/
def chain (t : Tree) : (limit : Nat) → (start : Option NodeId) → Except Fault (List NodeId)
  | 0, _ => return []
  | _ + 1, none => return []
  | n + 1, some id => return id :: (← chain t n (← parent? t id))

/-- The proper ancestors of a node, nearest first. -/
def ancestors (t : Tree) (id : NodeId) : Except Fault (List NodeId) := do
  chain t t.size (← parent? t id)

/-- Whether `a` is `id` or one of its ancestors. -/
def isAncestorOrSelf (t : Tree) (a id : NodeId) : Except Fault Bool :=
  return (id :: (← ancestors t id)).contains a

/-- Whether the parent links of a node lead to the root. -/
def isAttached (t : Tree) (id : NodeId) : Except Fault Bool :=
  return (id :: (← ancestors t id)).getLast? = some t.root

/-- The nearest ancestor of a node that is not a group. -/
def nearestNonGroup (t : Tree) (id : NodeId) : Except Fault (Option NodeId) := do
  let above ← nodes t (← ancestors t id)
  return (above.find? fun a => a.2.kind ≠ .group).map Prod.fst

/-- Goes from a group to its only content, at most `limit` times. -/
def unwrap (t : Tree) : (limit : Nat) → NodeId → Except Fault NodeId
  | 0, id => return id
  | n + 1, id => do
    if (← kind t id) = .group then
      match ← contents t id with
      | [inner] => unwrap t n inner
      | _ => return id
    else return id

/-- The node inside a nest of groups that have a single content each. -/
def skipGroups (t : Tree) (id : NodeId) : Except Fault NodeId := unwrap t t.size id

/-- Visits the nodes on a stack and all that follow from them, at most `limit` of them. -/
def walk (next : NodeId → Except Fault (List NodeId)) :
    (limit : Nat) → (stack : List NodeId) → Except Fault (List NodeId)
  | 0, _ => return []
  | _ + 1, [] => return []
  | n + 1, id :: stack => return id :: (← walk next n ((← next id) ++ stack))

/-- A node and all nodes below it, in pre-order. -/
def descendants (t : Tree) (id : NodeId) : Except Fault (List NodeId) :=
  walk (children t) t.walkLimit [id]

/-- The nodes below a node that its scope holds. -/
def scope (t : Tree) (id : NodeId) : Except Fault (List (NodeId × Node)) := do
  let inside ← walk (fun i => return (← node t i).inScope) t.walkLimit [id]
  return (← nodes t inside).filter fun i => i.2.kind ≠ .function

/-- The declarations at or below a node, those in functions left out. -/
def declarations (t : Tree) (id : NodeId) : Except Fault (List Declaration) :=
  return (← scope t id).filterMap fun i => i.2.declaration?

/-! ### Moving nodes -/

/-- Changes a node in place. -/
def modifyNode (t : Tree) (id : NodeId) (f : Node → Node) : Except Fault Tree := do
  let _ ← node t id
  return t.modify id f

/-- Gives a node a parent link, or takes it away. -/
def setParent (t : Tree) (id : NodeId) (parent : Option NodeId) : Except Fault Tree :=
  modifyNode t id fun n => { n with parent := parent }

/-- Changes the children of a node. -/
def modifyChildren (t : Tree) (id : NodeId) (f : List NodeId → List NodeId) : Except Fault Tree :=
  modifyNode t id fun n => { n with children := f n.children }

/-- Takes a node away from its parent, and gives the position it had there. -/
def detach (t : Tree) (id : NodeId) : Except Fault (Option Nat × Tree) := do
  match ← parent? t id with
  | none => return (none, t)
  | some p =>
    let t ← setParent t id none
    let cs ← children t p
    return (cs.idxOf? id, ← modifyChildren t p fun cs => cs.erase id)

/-- Moves a node to the end of the children of `parent`. -/
def append (t : Tree) (parent child : NodeId) : Except Fault Tree := do
  if ← isAncestorOrSelf t child parent then throw (.misplaced .belowItself)
  let (_, t) ← detach t child
  let t ← modifyChildren t parent fun cs => cs ++ [child]
  setParent t child (some parent)

/-- Adds a node and moves `children` below it. -/
def createWith (t : Tree) (kind : Kind) (children : List NodeId) : Except Fault (NodeId × Tree) := do
  let (id, t) := t.create kind
  return (id, ← children.foldlM (fun t c => append t id c) t)

/-- Puts `new` in the place of `old`, a child of `p`. -/
def splice (t : Tree) (p old : NodeId) (new : List NodeId) : Except Fault Tree := do
  let (position, t) ← detach t old
  let cs ← children t p
  let position := position.getD cs.length
  if cs.length < position then throw (.noPosition position)
  let t ← modifyChildren t p fun cs => cs.take position ++ new ++ cs.drop position
  new.foldlM (fun t n => setParent t n (some p)) t

/-- Puts the nodes `new`, in order, in the place of `old`. -/
def replaceWith (t : Tree) (old : NodeId) (new : List NodeId) : Except Fault Tree := do
  if new = [old] then return t
  let above ← new.mapM fun n => isAncestorOrSelf t n old
  if above.any id then throw (.misplaced .aboveReplaced)
  if old = t.root ∧ new.length ≠ 1 then
    let (block, t) ← createWith t .block new
    return { t with root := block }
  let t ← new.foldlM (fun t n => return (← detach t n).2) t
  match ← parent? t old, new with
  | some p, _ => splice t p old new
  | none, [n] => return if old = t.root then { t with root := n } else t
  | none, _ => return t

/-- Adds a node with attributes. -/
def leaf (t : Tree) (kind : Kind) (settings : List (String × Scalar)) :
    Except Fault (NodeId × Tree) := do
  let (id, t) := t.create kind
  return (id, ← settings.foldlM (fun t s => modifyNode t id fun n => n.set s.1 s.2) t)

/-! ### Calls that ask for variants -/

/-- The parts of a dotted name, if all of them are plain identifiers. -/
def nameParts? (t : Tree) (id : NodeId) : Except Fault (Option (List String)) := do
  let cs ← nodes t (← children t id)
  return cs.mapM fun c => if c.2.kind = .identifier then c.2.str? Attr.name else none

/-- The call whose callee a dotted name is. -/
def callOf? (t : Tree) (name : NodeId) : Except Fault (Option NodeId) := do
  match ← parent? t name with
  | none => return none
  | some operand =>
    if (← kind t operand) = .operand then
      match ← parent? t operand with
      | none => return none
      | some call => return if (← kind t call) = .call then some call else none
    else return none

/-- The call that asks for a variant through a dotted name. -/
def callSite? (t : Tree) (namespaces : List String) (id : NodeId) :
    Except Fault (Option CallSite) := do
  if (← kind t id) = .dottedName then
    let parts? ← nameParts? t id
    let call? ← callOf? t id
    return do
      let parts ← parts?
      let last ← parts.getLast?
      if ".".intercalate parts.dropLast ∈ namespaces then
        let method ← Method.ofName? last
        let call ← call?
        return ⟨call, method, ".".intercalate parts⟩
      else none
  else return none

/-- The calls below the root that ask for variants. -/
def callSites (t : Tree) (namespaces : List String) : Except Fault (List CallSite) := do
  let found ← (← descendants t t.root).mapM (callSite? t namespaces)
  return found.filterMap id

/-- The arguments of a call. -/
def callArgs (t : Tree) (call : NodeId) : Except Fault (List NodeId) := do
  match ← childOfKind? t call .params with
  | some params => contents t params
  | none => return []

/-- The argument of a call at a position. -/
def argument (args : List NodeId) (position : Nat) : Except Fault NodeId :=
  match args[position]? with
  | some a => .ok a
  | none => .error (.noArgument position)

/-- The key that a call asks for and its arguments. -/
def keyArguments (t : Tree) (call : NodeId) (expected : Nat) :
    Except Fault (Except Malformed (String × List NodeId)) := do
  let args ← callArgs t call
  if args.length = expected then
    let key ← argument args 0
    let n ← node t key
    return if n.isStringLiteral then .ok (n.literalText, args) else .error (.key key)
  else
    let params? ← childOfKind? t call .params
    return .error (.count (params?.getD call) expected)

/-- The entry of an object literal that a node is, if it has a key and a value. -/
def branch? (t : Tree) (entry : NodeId) : Except Fault (Option Branch) := do
  let n ← node t entry
  if n.kind = .keyValue then
    match ← childOfKind? t entry .value with
    | none => return none
    | some slot =>
      let values ← contents t slot
      return do return ⟨← n.str? Attr.key, ← values.head?⟩
  else return none

/-- The entries of an object literal. -/
def branches (t : Tree) (map : NodeId) : Except Fault (Except Malformed (List Branch)) := do
  if (← kind t map) = .map then
    let found ← (← children t map).mapM (branch? t)
    return .ok (found.filterMap id)
  else return .error (.map map)

/-! ### Conditions -/

/-- The nearest ancestor that is not a group, if the node is its only content. -/
def soleContentParent (t : Tree) (id : NodeId) : Except Fault (Option NodeId) := do
  match ← nearestNonGroup t id with
  | none => return none
  | some p =>
    match ← contents t p with
    | [c] => return if (← skipGroups t c) = id then some p else none
    | _ => return none

/-- The parent of a slot, if both are of the given kinds and an attribute of the parent has the given
text. -/
def slotOwner (t : Tree) (slot : NodeId) (slotKind ownerKind : Kind) (attr text : String) :
    Except Fault (Option NodeId) := do
  if (← kind t slot) = slotKind then
    match ← parent? t slot with
    | none => return none
    | some owner =>
      let n ← node t owner
      return if n.kind = ownerKind ∧ n.str? attr = some text then some owner else none
  else return none

/-- The `if` statement whose whole condition a node is. -/
def enclosingIf (t : Tree) (id : NodeId) : Except Fault (Option NodeId) := do
  match ← soleContentParent t id with
  | none => return none
  | some slot => slotOwner t slot .expression .loop Attr.loopType Build.ifType

/-- The conditional expression whose whole condition a node is. -/
def enclosingHook (t : Tree) (id : NodeId) : Except Fault (Option NodeId) := do
  match ← soleContentParent t id with
  | none => return none
  | some slot => slotOwner t slot .first .operation Attr.operator Build.hookOperator

/-- What stands first in the slot of an operand, groups around it left out. -/
def operand? (t : Tree) (operation : NodeId) (slot : Kind) : Except Fault (Option Node) := do
  match ← childOfKind? t operation slot with
  | none => return none
  | some slot =>
    match (← contents t slot).head? with
    | none => return none
    | some other => return some (← node t (← skipGroups t other))

/-- The comparison whose one operand a literal is, the other being a literal too. -/
def comparison? (t : Tree) (constant : NodeId) : Except Fault (Option Comparison) := do
  match ← nearestNonGroup t constant with
  | none => return none
  | some slot =>
    match Tree.oppositeSlot? (← kind t slot), ← parent? t slot with
    | some otherKind, some operation =>
      let n ← node t operation
      let other? ← operand? t operation otherKind
      let here ← node t constant
      if n.kind = .operation then
        return do
          let operator ← n.str? Attr.operator >>= EqualityOperator.ofName?
          let other ← other?
          let left ← here.decode?
          let right ← other.decode?
          return ⟨operation, operator.apply (comparisonOperand left) (comparisonOperand right)⟩
      else return none
    | _, _ => return none

/-! ### Rewrites -/

/-- The attribute for a source line, if one is known. -/
def lineSettings : Option Int64 → List (String × Scalar)
  | some line => [(Attr.line, .int line)]
  | none => []

/-- The attributes of a constant. -/
def constantSettings (type : ConstantType) (text : String) : List (String × Scalar) :=
  [(Attr.constantType, .string type.name), (Attr.value, .string text)]

/-- The attributes of the literal of a scalar. -/
def literalSettings : Scalar → List (String × Scalar)
  | .null => constantSettings .null "null"
  | .bool b => constantSettings .boolean (if b then "true" else "false")
  | .int n => constantSettings .number (intText n.toInt) ++ [(Attr.detail, .string intDetail)]
  | .float x =>
    constantSettings .number (Scalar.literalFloat x) ++ [(Attr.detail, .string floatDetail)]
  | .string s => constantSettings .string s ++ [(Attr.detail, .string stringDetail)]

/-- Adds the literal of a scalar with a source line. -/
def literal (t : Tree) (value : Scalar) (line : Option Int64) : Except Fault (NodeId × Tree) :=
  leaf t .constant (literalSettings value ++ lineSettings line)

/-- Adds declarations without initial values. -/
def bareDefinitions (t : Tree) : List Declaration → Except Fault (List NodeId × Tree)
  | [] => return ([], t)
  | d :: ds => do
    let (n, t) ← leaf t .definition ((Attr.identifier, .string d.1) :: lineSettings d.2)
    let (ns, t) ← bareDefinitions t ds
    return (n :: ns, t)

/-- Adds a list of declarations without initial values; nothing if there are none. -/
def definitionList (t : Tree) (ds : List Declaration) (line : Option Int64) :
    Except Fault (List NodeId × Tree) := do
  if ds = [] then return ([], t)
  let (ids, t) ← bareDefinitions t ds
  let (list, t) ← createWith t .definitionList ids
  let t ← (lineSettings line).foldlM (fun t s => modifyNode t list fun n => n.set s.1 s.2) t
  return ([list], t)

/-- The given nodes, or an empty block if there are none. -/
def orEmptyBlock (t : Tree) (ids : List NodeId) (line : Option Int64) :
    Except Fault (List NodeId × Tree) := do
  if ids = [] then
    let (n, t) ← leaf t .block (lineSettings line)
    return ([n], t)
  else return (ids, t)

/-- What `f` finds at a node, if there is one. -/
def ofNode? {α : Type} (f : NodeId → Except Fault (List α)) : Option NodeId → Except Fault (List α)
  | some id => f id
  | none => return []

/-- The declarations of a dropped branch whose names the kept branch does not declare. -/
def lostDeclarations (t : Tree) (kept dropped : Option NodeId) : Except Fault (List Declaration) := do
  let names := (← ofNode? (declarations t) kept).map Prod.fst
  return firstDeclarations names (← ofNode? (declarations t) dropped)

/-- Replaces an `if` statement by the branch that a condition takes. -/
def inlineIf (t : Tree) (loop : NodeId) (condition : Bool) : Except Fault Tree := do
  let kept ← childOfKind? t loop (if condition then .statement else .elseStatement)
  let dropped ← childOfKind? t loop (if condition then .elseStatement else .statement)
  let line := (← node t loop).line?
  let statements ← ofNode? (children t) kept
  let (list, u) ← definitionList t (← lostDeclarations t kept dropped) line
  let (replacement, u) ← orEmptyBlock u (statements ++ list) line
  replaceWith u loop replacement

/-- Replaces a conditional expression by the operand that a condition takes. -/
def inlineHook (t : Tree) (operation : NodeId) (condition : Bool) : Except Fault Tree := do
  let slot ← childOfKind? t operation (if condition then .second else .third)
  replaceWith t operation (← ofNode? (children t) slot)

/-- Carries out comparisons from the inside out, at most `limit` of them, and gives the literal that
is left. -/
def foldAll : (limit : Nat) → Tree → NodeId → Except Fault (NodeId × Tree)
  | 0, t, constant => return (constant, t)
  | n + 1, t, constant => do
    match ← comparison? t constant with
    | none => return (constant, t)
    | some c =>
      let (folded, u) ← literal t (.bool c.outcome) (← node t c.operation).line?
      foldAll n (← replaceWith u c.operation [folded]) folded

/-! ### Runs -/

/-- Why a run that checks every look-up ends early. -/
inductive Stop where
  | fault (f : Fault)
  /-- The configuration does not fit the tree. -/
  | variant (e : VariantError)
  deriving DecidableEq

/-- A step that checks every look-up. -/
abbrev Run := EStateM Stop Workspace

/-- Asks something of the tree. -/
def ask {α : Type} (q : Tree → Except Fault α) : Run α := fun w =>
  match q w.tree with
  | .ok a => .ok a w
  | .error f => .error (.fault f) w

/-- Changes the tree. -/
def change {α : Type} (e : Tree → Except Fault (α × Tree)) : Run α := fun w =>
  match e w.tree with
  | .ok (a, t) => .ok a { w with tree := t }
  | .error f => .error (.fault f) w

/-- Puts another tree in place. -/
def update (e : Tree → Except Fault Tree) : Run Unit := change fun t => return ((), ← e t)

/-- Reports something about a node, which is looked up for its source line. -/
def report (id : NodeId) (add : Log → Tree → Log) : Run Unit := do
  let _ ← ask (node · id)
  modify fun w => { w with log := add w.log w.tree }

/-- Tells what was done at a node. -/
def info (id : NodeId) (message : String) : Run Unit :=
  report id fun log t => log.info t id message

/-- Leaves a malformed call alone with a warning. -/
def leave (site : CallSite) (m : Malformed) : Run Bool := do
  report m.node fun log t => log.malformed t site m
  return false

/-- Ends the run with a complaint that names the place of a node. -/
def fail (id : NodeId) (complaint : Location → VariantError) : Run Bool := do
  let n ← ask (node · id)
  throw (.variant (complaint ⟨(← get).log.file, n.line?⟩))

/-- Replaces a selection by the entry for the configured value. -/
def select (variants : Variants) (site : CallSite) : Run Bool := do
  match ← ask (keyArguments · site.call 2) with
  | .error m => leave site m
  | .ok (key, args) =>
    match variants.lookup key with
    | none => return false
    | some value =>
      let map ← ask fun _ => argument args 1
      match ← ask (branches · map) with
      | .error m => leave site m
      | .ok branches =>
        match Branch.choose branches value with
        | some branch =>
          info site.call (Step.selectedText key value)
          update (replaceWith · site.call [branch])
          return true
        | none => fail site.call (.noMatchingBranch key value.text)

/-- Resolves a comparison of a variant. -/
def isSet (variants : Variants) (site : CallSite) : Run Bool := do
  match ← ask (keyArguments · site.call 2) with
  | .error m => leave site m
  | .ok (key, args) =>
    match variants.lookup key with
    | none => return false
    | some configured =>
      let candidates ← ask fun _ => argument args 1
      let n ← ask (node · candidates)
      if n.isStringLiteral then
        let matched := isSetMatch n.literalText configured
        match ← ask (enclosingIf · site.call), ← ask (enclosingHook · site.call) with
        | some loop, _ =>
          info loop (Step.takenText "if" key configured matched)
          update (inlineIf · loop matched)
        | none, some operation =>
          info operation (Step.takenText "ternary" key configured matched)
          update (inlineHook · operation matched)
        | none, none =>
          let line := (← ask (node · site.call)).line?
          let constant ← change (literal · (.bool matched) line)
          update (replaceWith · site.call [constant])
        return true
      else leave site (.candidates candidates)

/-- What follows once a call has given way to the literal `constant`. -/
def settle (constant : NodeId) : Run Bool := do
  let above ← ask (ancestors · constant)
  let constant ← change fun t => foldAll above.length t constant
  match ← ask (enclosingIf · constant), (← ask (node · constant)).decode? with
  | some loop, some value =>
    info loop (Step.decidedText (conditionTruth value))
    update (inlineIf · loop (conditionTruth value))
  | _, _ => pure ()
  return true

/-- Resolves the use of a variant's value. -/
def getValue (variants : Variants) (site : CallSite) : Run Bool := do
  match ← ask (keyArguments · site.call 1) with
  | .error m => leave site m
  | .ok (key, _) =>
    match variants.lookup key with
    | none => return false
    | some value =>
      if value.isLiteral then
        let line := (← ask (node · site.call)).line?
        let constant ← change (literal · value line)
        update (replaceWith · site.call [constant])
        info constant (Step.replacedText site.callee key value)
        settle constant
      else fail site.call (.unsupportedValue value.unsupportedText)

/-- Resolves a call that asks for a variant. -/
def resolve (variants : Variants) (site : CallSite) : Run Bool :=
  match site.method with
  | .select => select variants site
  | .isSet | .compilerIsSet => isSet variants site
  | .get => getValue variants site

/-- Resolves a call unless it was cut out of the tree. -/
def visit (variants : Variants) (site : CallSite) : Run Bool := do
  if ← ask (isAttached · site.call) then resolve variants site
  else
    modify fun w =>
      { w with log := w.log.note .trace ("Skipping detached call site " ++ site.callee) }
    return false

/-- Resolves calls in order, and tells whether the tree changed. -/
def visitAll (variants : Variants) : List CallSite → Run Bool
  | [] => return false
  | site :: rest => do
    let changed ← visit variants site
    let changedLater ← visitAll variants rest
    return changed || changedLater

/-- Resolves the calls of a tree that ask for variants, and tells whether the tree changed. -/
def optimize (namespaces : List String) (variants : Variants) : Run Bool := do
  visitAll variants (← ask (callSites · namespaces))

end Checked

end VariantFold
