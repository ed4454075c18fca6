/-
Trees as JSON text.

A node is an object with the fields `type`, `attributes` and `children`, the last two left out when
empty.  It may also be read from a list of the three in this order.  Members with other names are
passed over, whatever their value.
-/
import VariantFold.Json.Reader
import VariantFold.Tree.Snapshot

namespace VariantFold

open Json

namespace Snapshot

mutual

/-- Writes a node as JSON, its braces at a level, in front of a text. -/
def write (style : Style) (level : Nat) : Snapshot → List Char → List Char
  | node kind attributes children, after =>
    let field (key : String) (value : List Char) : List Char :=
      style.line (level + 1) ++ memberText style key value
    let attributesText := if attributes.isEmpty then []
      else ',' :: field "attributes" (objectText style (level + 1) attributes)
    let closing := style.line level ++ '\x7d' :: after
    '\x7b' :: (field "type" (stringText kind.name) ++ (attributesText ++
      (if children.isEmpty then closing
        else ',' :: field "children"
          ('[' :: writeItems style (level + 2) children (style.line (level + 1) ++ ']' :: closing)))))

/-- Writes the nodes of a list, each on its line, with commas between, in front of a text. -/
def writeItems (style : Style) (level : Nat) : List Snapshot → List Char → List Char
  | [], after => after
  | s :: rest, after =>
    style.line level ++ write style level s
      (if rest.isEmpty then after else ',' :: writeItems style level rest after)

end

/-- Reads the kind of a node: its name, or an object whose only member has the name for key and
`null` for value. -/
def readKind : List Token → Except Problem (Kind × List Token)
  | .string (some name) :: rest =>
    match Kind.ofName? name with
    | some kind => .ok (kind, rest)
    | none => .error (.unknownKind name)
  | .openBrace :: .string (some name) :: rest => do
    let kind ← match Kind.ofName? name with
      | some kind => .ok kind
      | none => .error (.unknownKind name)
    match ← readColon rest with
    | .null :: .closeBrace :: rest => .ok (kind, rest)
    | .null :: _ => .error .malformed
    | token :: _ => .error (wrong .unit token)
    | [] => .error .malformed
  | _ => .error .malformed

/-- The fields of a node that have been read. -/
structure Fields where
  /-- The field `type`. -/
  kind : Option Kind := none
  /-- The field `attributes`. -/
  attributes : Option Attributes := none
  /-- The field `children`. -/
  children : Option (List Snapshot) := none

/-- The node with the given fields; only the type is required. -/
def Fields.close (fields : Fields) : Except Problem Snapshot :=
  match fields.kind with
  | some kind =>
    .ok (node kind (fields.attributes.getD KeyMap.empty) (fields.children.getD []))
  | none => .error .missingType

/-- Reads an element of a list, after a comma; nothing at the end of the list. -/
def readElement {α : Type} (read : List Token → Except Problem (α × List Token)) :
    List Token → Except Problem (Option α × List Token)
  | .closeBracket :: rest => .ok (none, .closeBracket :: rest)
  | .comma :: rest => (read rest).map fun (a, rest) => (some a, rest)
  | _ => .error .malformed

mutual

/-- Reads a node. -/
def read : (limit : Nat) → List Token → Except Problem (Snapshot × List Token)
  | 0, _ => .error .malformed
  | n + 1, .openBrace :: rest => readFields n true {} rest
  | n + 1, .openBracket :: rest => readTuple n rest
  | _ + 1, token :: _ => .error (wrong .node token)
  | _ + 1, [] => .error .malformed

/-- Reads the members of a node up to its closing brace. -/
def readFields : (limit : Nat) → (isFirst : Bool) → Fields → List Token →
    Except Problem (Snapshot × List Token)
  | 0, _, _, _ => .error .malformed
  | _ + 1, _, fields, .closeBrace :: rest => fields.close.map (·, rest)
  | n + 1, isFirst, fields, tokens => do
    let (key, rest) ← readKey isFirst tokens
    if key = "type" then
      if fields.kind.isSome then throw (.duplicateField "type")
      let (kind, rest) ← readKind (← readColon rest)
      readFields n false { fields with kind := some kind } rest
    else if key = "attributes" then
      if fields.attributes.isSome then throw (.duplicateField "attributes")
      let (attributes, rest) ← readMap none (← readColon rest)
      readFields n false { fields with attributes := some attributes } rest
    else if key = "children" then
      if fields.children.isSome then throw (.duplicateField "children")
      let (children, rest) ← readChildren n (← readColon rest)
      readFields n false { fields with children := some children } rest
    else
      let rest ← skipValue ⟨false, none⟩ (← readColon rest)
      readFields n false fields rest

/-- Reads the elements of a node that is a list. -/
def readTuple : (limit : Nat) → List Token → Except Problem (Snapshot × List Token)
  | 0, _ => .error .malformed
  | _ + 1, .closeBracket :: _ => .error .emptyNode
  | n + 1, tokens => do
    let (kind, rest) ← readKind tokens
    let (attributes, rest) ← readElement (readMap none) rest
    let (children, rest) ← readElement (readChildren n) rest
    match rest with
    | .closeBracket :: rest =>
      .ok (node kind (attributes.getD KeyMap.empty) (children.getD []), rest)
    | _ => .error .malformed

/-- Reads a list of nodes. -/
def readChildren : (limit : Nat) → List Token → Except Problem (List Snapshot × List Token)
  | 0, _ => .error .malformed
  | _ + 1, .openBracket :: .closeBracket :: rest => .ok ([], rest)
  | n + 1, .openBracket :: rest => do
    let (first, rest) ← read n rest
    let (others, rest) ← readRest n rest
    return (first :: others, rest)
  | _ + 1, token :: _ => .error (wrong .sequence token)
  | _ + 1, [] => .error .malformed

/-- Reads the nodes of a list that follow its first, up to the closing bracket. -/
def readRest : (limit : Nat) → List Token → Except Problem (List Snapshot × List Token)
  | 0, _ => .error .malformed
  | _ + 1, .closeBracket :: rest => .ok ([], rest)
  | n + 1, .comma :: rest => do
    let (next, rest) ← read n rest
    let (others, rest) ← readRest n rest
    return (next :: others, rest)
  | _ + 1, _ => .error .malformed

end

/-- Reads a node from a whole text.  Every second step of reading takes a token. -/
def ofJson (text : String) : Except Problem Snapshot :=
  let tokens := tokens text
  whole (read (2 * tokens.length + 2) tokens)

/-- A node as a whole JSON text. -/
def toJson (style : Style) (s : Snapshot) : String := String.ofList (s.write style 0 [])

end Snapshot

namespace Tree

/-- The tree that a JSON text spells. -/
def ofJson (text : String) : Except Problem Tree := (Snapshot.ofJson text).map ofSnapshot

/-- The tree below the root as JSON text. -/
def toJson (style : Style) (t : Tree) : String := (t.snapshot t.root).toJson style

end Tree

end VariantFold
