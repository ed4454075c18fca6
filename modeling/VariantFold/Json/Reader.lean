/-
Scalars and maps of scalars, read from JSON tokens.

Reading is one pass from left to right, and the first problem met is the one reported.  A problem is
either malformed text or well-formed text of the wrong shape.
-/
import VariantFold.Json.Text
import VariantFold.Json.Token
import VariantFold.Text.Quoted
import VariantFold.Tree.Kind

namespace VariantFold.Json

/-- What was found where something else was wanted. -/
inductive Found where
  | null
  | bool (b : Bool)
  | integer (n : Int)
  | float (x : Float)
  | string (s : String)
  | sequence
  | map
  deriving DecidableEq

/-- What was wanted where something else was found. -/
inductive Wanted where
  | node
  | map
  | sequence
  | unit
  deriving DecidableEq

/-- Why JSON text cannot be read. -/
inductive Problem where
  /-- The text is not JSON, or ends too early. -/
  | malformed
  /-- A value has the wrong type. -/
  | wrongType (found : Found) (wanted : Wanted)
  /-- A node names a kind that there is not. -/
  | unknownKind (name : String)
  /-- A node has a field twice. -/
  | duplicateField (name : String)
  /-- A node has no type. -/
  | missingType
  /-- A node is an empty list. -/
  | emptyNode
  /-- A list or an object stands where a scalar has to. -/
  | notScalar
  deriving DecidableEq

/-- How a value that was found is named. -/
def Found.text : Found → String
  | null => "null"
  | bool b => "boolean `" ++ (if b then "true" else "false") ++ "`"
  | integer n => "integer `" ++ intText n ++ "`"
  | float x => "floating point `" ++ floatLayout.float x ++ "`"
  | string s => "string " ++ Text.quoted s
  | sequence => "sequence"
  | map => "map"

/-- How a thing that was wanted is named. -/
def Wanted.text : Wanted → String
  | node => "struct JsonNode"
  | map => "a map"
  | sequence => "a sequence"
  | unit => "unit"

/-- What is reported about text of the wrong shape; nothing is about malformed text. -/
def Problem.message? : Problem → Option String
  | malformed => none
  | wrongType found wanted => some ("invalid type: " ++ found.text ++ ", expected " ++ wanted.text)
  | unknownKind name =>
    some ("unknown variant `" ++ name ++ "`, expected one of " ++
      ", ".intercalate (Kind.all.map fun k => "`" ++ k.name ++ "`"))
  | duplicateField name => some ("duplicate field `" ++ name ++ "`")
  | missingType => some "missing field `type`"
  | emptyNode => some "invalid length 0, expected struct JsonNode with 3 elements"
  | notScalar => some "data did not match any variant of untagged enum Scalar"

/-- The outcome of reading from the front of a row of tokens, with the tokens that are left. -/
abbrev Read (α : Type) := Except Problem (α × List Token)

/-- A number, read. -/
inductive Amount where
  | integer (n : Int)
  | float (x : Float)

/-- The number that a numeral denotes: an integer if it is written as one, has no sign before a zero and
fits into 64 bits; else a floating point number, which must not overflow. -/
def amount? (n : Numeral) : Option Amount :=
  if n.isWhole ∧ ¬ (n.negative ∧ n.toInt = 0) ∧ Int64.minValue.toInt ≤ n.toInt ∧
      n.toInt.toNat < UInt64.size then
    some (.integer n.toInt)
  else if n.toFloat.isInf then none
  else some (.float n.toFloat)

/-- The scalar that a numeral denotes: an integer if it fits into 64 bits with sign. -/
def number? (n : Numeral) : Option Scalar :=
  match amount? n with
  | some (.integer i) => some (((int64? i).map Scalar.int).getD (.float n.toFloat))
  | some (.float x) => some (.float x)
  | none => none

/-- The complaint about a token that starts a value of the wrong type. -/
def wrong (wanted : Wanted) : Token → Problem
  | .null => .wrongType .null wanted
  | .bool b => .wrongType (.bool b) wanted
  | .number n =>
    match amount? n with
    | some (.integer i) => .wrongType (.integer i) wanted
    | some (.float x) => .wrongType (.float x) wanted
    | none => .malformed
  | .string (some s) => .wrongType (.string s) wanted
  | .openBracket => .wrongType .sequence wanted
  | .openBrace => .wrongType .map wanted
  | _ => .malformed

/-! ### Passing over a value -/

/-- The bracket that is open. -/
inductive Frame where
  | list
  | object
  deriving DecidableEq

/-- What may come next inside a value that is passed over. -/
inductive Expected where
  | value
  | valueOrEnd
  | key
  | keyOrEnd
  | colon
  | commaOrEnd
  deriving DecidableEq

/-- How carefully a value is passed over. -/
structure Care where
  /-- Whether strings and numbers have to denote something. -/
  strict : Bool
  /-- How many brackets may be open at once, if there is a limit. -/
  limit : Option Nat

/-- Whether a token is acceptable as a whole value or as a key. -/
def Care.accepts (care : Care) : Token → Bool
  | .string s => !care.strict || s.isSome
  | .number n => !care.strict || (amount? n).isSome
  | _ => true

/-- Whether one more bracket may be opened. -/
def Care.deeper (care : Care) (stack : List Frame) : Bool :=
  match care.limit with
  | some limit => stack.length < limit
  | none => true

/-- Passes over the rest of a value with the given brackets open. -/
def skip (care : Care) : (stack : List Frame) → Expected → List Token → Except Problem (List Token)
  | _, _, [] => .error .malformed
  | stack, expected, token :: rest =>
    let closed : List Frame → Except Problem (List Token)
      | [] => .ok rest
      | stack => skip care stack .commaOrEnd rest
    match expected, token, stack with
    | .valueOrEnd, .closeBracket, .list :: outer => closed outer
    | .keyOrEnd, .closeBrace, .object :: outer => closed outer
    | .commaOrEnd, .closeBracket, .list :: outer => closed outer
    | .commaOrEnd, .closeBrace, .object :: outer => closed outer
    | .commaOrEnd, .comma, .list :: _ => skip care stack .value rest
    | .commaOrEnd, .comma, .object :: _ => skip care stack .key rest
    | .colon, .colon, _ => skip care stack .value rest
    | .key, .string _, _ | .keyOrEnd, .string _, _ =>
      if care.accepts token then skip care stack .colon rest else .error .malformed
    | .value, _, _ | .valueOrEnd, _, _ =>
      match token with
      | .openBracket =>
        if care.deeper stack then skip care (.list :: stack) .valueOrEnd rest else .error .malformed
      | .openBrace =>
        if care.deeper stack then skip care (.object :: stack) .keyOrEnd rest else .error .malformed
      | .null | .bool _ | .number _ | .string _ =>
        if care.accepts token then closed stack else .error .malformed
      | _ => .error .malformed
    | _, _, _ => .error .malformed

/-- Passes over a value of any shape. -/
def skipValue (care : Care) (tokens : List Token) : Except Problem (List Token) :=
  skip care [] .value tokens

/-! ### Scalars and maps -/

/-- Reads a scalar.  A list or an object is read to its end before it is refused. -/
def readScalar (limit : Option Nat) : List Token → Read Scalar
  | .null :: rest => .ok (.null, rest)
  | .bool b :: rest => .ok (.bool b, rest)
  | .string (some s) :: rest => .ok (.string s, rest)
  | .number n :: rest =>
    match number? n with
    | some value => .ok (value, rest)
    | none => .error .malformed
  | tokens =>
    match skipValue ⟨true, limit⟩ tokens with
    | .ok _ => .error .notScalar
    | .error e => .error e

/-- Reads the key and the colon of a member, after a comma unless it is the first. -/
def readKey (isFirst : Bool) (tokens : List Token) : Read String :=
  let member : List Token → Read String
    | .string (some key) :: rest => .ok (key, rest)
    | _ => .error .malformed
  if isFirst then member tokens
  else match tokens with
    | .comma :: rest => member rest
    | _ => .error .malformed

/-- Passes over a colon. -/
def readColon : List Token → Except Problem (List Token)
  | .colon :: rest => .ok rest
  | _ => .error .malformed

/-- Reads the members of an object of scalars up to its closing brace, with a comma before each but the
first.  Of two members with one key the later stays.  A scalar is a single token, so what follows it is
known before it is read. -/
def readMembers (limit : Option Nat) :
    (isFirst : Bool) → KeyMap Scalar → List Token → Except Problem (KeyMap Scalar × List Token)
  | _, entries, .closeBrace :: rest => .ok (entries, rest)
  | true, entries, .string (some key) :: .colon :: value :: rest =>
    match readScalar limit (value :: rest) with
    | .ok (value, _) => readMembers limit false (entries.insert key value) rest
    | .error e => .error e
  | false, entries, .comma :: .string (some key) :: .colon :: value :: rest =>
    match readScalar limit (value :: rest) with
    | .ok (value, _) => readMembers limit false (entries.insert key value) rest
    | .error e => .error e
  | _, _, _ => .error .malformed

/-- Reads an object of scalars. -/
def readMap (limit : Option Nat) : List Token → Read (KeyMap Scalar)
  | .openBrace :: rest => readMembers limit true KeyMap.empty rest
  | token :: _ => .error (wrong .map token)
  | [] => .error .malformed

/-- A value that is the whole text: nothing may follow it. -/
def whole {α : Type} (result : Read α) : Except Problem α :=
  match result with
  | .ok (value, []) => .ok value
  | .ok _ => .error .malformed
  | .error e => .error e

end VariantFold.Json
