/-
TOML documents.

A document is a row of lines.  A header opens a table, or a new element of a list of tables, and the
settings that follow go into it; it takes its place among the others when the next header closes it.  What
a header may open and what a dotted key may extend depends on how a table came about: tables that headers
only passed through may be opened later, unless a dotted key has extended them, only dotted keys may
extend tables that dotted keys made, and inline tables and arrays are final.

Lines are understood one after the other, once the whole document is taken apart into them.  So a text
that cannot be taken apart is malformed whatever else is wrong with it, and of all other errors the first
counts.
-/
import VariantFold.KeyMap
import VariantFold.Toml.Atom
import VariantFold.Toml.Expression

namespace VariantFold.Toml

/-- Why a text spells no table. -/
inductive ReadError where
  /-- It is no TOML document. -/
  | malformed
  /-- A key has too many parts. -/
  | longKey
  deriving DecidableEq, Repr

/-- A part of a document that is being read. -/
inductive Item where
  /-- A value, final. -/
  | value (v : Value)
  /-- A table.  It is `implied` until a header opens it, and `dotted` if a dotted key made or extended
  it. -/
  | table (implied dotted : Bool) (entries : List (String × Item))
  /-- A list of tables, the last of them open. -/
  | tables (elements : List (List (String × Item)))

/-- The entries of a table that is being read, in increasing order of their keys. -/
abbrev Items := List (String × Item)

/-! ### Tables -/

/-- Changes the table at the end of a path, passing through tables and the last elements of lists of
tables.  Tables that are missing on the way are implied. -/
def changeAt (change : Items → Option Items) : List String → Items → Option Items
  | [], items => change items
  | key :: path, items =>
    match findEntry key items with
    | none => (changeAt change path []).map fun inner =>
        insertEntry key (.table true false inner) items
    | some (.table implied dotted inner) => (changeAt change path inner).map fun inner =>
        insertEntry key (.table implied dotted inner) items
    | some (.tables elements) =>
      match elements.getLast? with
      | some last => (changeAt change path last).map fun last =>
          insertEntry key (.tables (elements.dropLast ++ [last])) items
      | none => none
    | some (.value _) => none

/-- The table at the end of a path, empty if it is missing. -/
def reach : List String → Items → Option Items
  | [], items => some items
  | key :: path, items =>
    match findEntry key items with
    | none => some []
    | some (.table _ _ inner) => reach path inner
    | some (.tables elements) => elements.getLast? >>= reach path
    | some (.value _) => none

/-- The entries that a table has when a header opens it: it must be new or implied. -/
def openTable (key : String) (items : Items) : Option Items :=
  match findEntry key items with
  | none => some []
  | some (.table true false inner) => some inner
  | some _ => none

/-- Puts a table that a header opened in its place. -/
def putTable (key : String) (inner items : Items) : Items :=
  insertEntry key (.table false false inner) items

/-- Adds an element to a list of tables, which may be new. -/
def addElement (key : String) (inner items : Items) : Option Items :=
  match findEntry key items with
  | none => some (insertEntry key (.tables [inner]) items)
  | some (.tables elements) => some (insertEntry key (.tables (elements ++ [inner])) items)
  | some _ => none

/-- Gives a key a value, unless it has one. -/
def addNew (key : String) (v : Value) (items : Items) : Option Items :=
  match findEntry key items with
  | none => some (insertEntry key (.value v) items)
  | some _ => none

/-- Gives a dotted key a value.  The tables on the way are new or implied, and belong to dotted keys from
then on.  The way may lead through a list of tables, but not end in one. -/
def addDotted (v : Value) : List String → Items → Option Items
  | [], _ => none
  | [key], items => addNew key v items
  | key :: next :: path, items =>
    match findEntry key items with
    | none => (addDotted v (next :: path) []).map fun inner =>
        insertEntry key (.table true true inner) items
    | some (.table true _ inner) => (addDotted v (next :: path) inner).map fun inner =>
        insertEntry key (.table true true inner) items
    | some (.tables elements) =>
      match path, elements.getLast? with
      | _ :: _, some last => (addDotted v (next :: path) last).map fun last =>
          insertEntry key (.tables (elements.dropLast ++ [last])) items
      | _, _ => none
    | some _ => none

mutual

/-- The value that a part of a document has at its end. -/
def Item.close : Item → Value
  | .value v => v
  | .table _ _ items => .table (closeItems items)
  | .tables elements => .array (closeElements elements)

/-- The entries that a table has at the end of a document. -/
def closeItems : List (String × Item) → Table
  | [] => []
  | (key, item) :: rest => (key, item.close) :: closeItems rest

/-- The elements that a list of tables has at the end of a document. -/
def closeElements : List (List (String × Item)) → List Value
  | [] => []
  | items :: rest => .table (closeItems items) :: closeElements rest

end

/-! ### Dates and times as tables -/

/-- The key of a table that stands for a date or a time. -/
def datetimeKey : String := "$__toml_private_datetime"

mutual

/-- A value with its dates and times in place of the tables that stand for them.  A table stands for one
if the key for it is its first: the text under this key has to be a date or a time, and what else is in
the table does not count. -/
def Value.resolve : Value → Option Value
  | .table [] => some (.table [])
  | .table ((key, v) :: rest) =>
    if key = datetimeKey then
      match v with
      | .string text => if isDatetime text.toList then some (.datetime text) else none
      | _ => none
    else
      match v.resolve, resolveEntries rest with
      | some v, some rest => some (.table ((key, v) :: rest))
      | _, _ => none
  | .array items => (resolveItems items).map .array
  | .string s => some (.string s)
  | .integer n => some (.integer n)
  | .float x => some (.float x)
  | .boolean b => some (.boolean b)
  | .datetime text => some (.datetime text)

/-- The entries of a table with dates and times in the place of tables. -/
def resolveEntries : List (String × Value) → Option Table
  | [] => some []
  | (key, v) :: rest =>
    match v.resolve, resolveEntries rest with
    | some v, some rest => some ((key, v) :: rest)
    | _, _ => none

/-- The items of an array with dates and times in the place of tables. -/
def resolveItems : List Value → Option (List Value)
  | [] => some []
  | v :: rest =>
    match v.resolve, resolveItems rest with
    | some v, some rest => some (v :: rest)
    | _, _ => none

end

/-! ### Values -/

/-- A result that a document has to have. -/
def orMalformed {α : Type} : Option α → Except ReadError α
  | some a => .ok a
  | none => .error .malformed

/-- The parts of a key.  Each of them has to be one, also those that are too many. -/
def readKey (words : List Lexeme) : Except ReadError (List String) := do
  let parts ← words.mapM fun word => orMalformed word.keyPart?
  if nestingLimit < parts.length then throw .longKey
  return parts

mutual

/-- The value that is written. -/
def Term.value : Term → Except ReadError Value
  | .scalar word => orMalformed word.value?
  | .array items => do return .array (← readItems items)
  | .table settings => do return .table (closeItems (← readSettings [] settings))

/-- The items of an array. -/
def readItems : List Term → Except ReadError (List Value)
  | [] => .ok []
  | item :: rest => do
    let v ← item.value
    return v :: (← readItems rest)

/-- Puts the settings of an inline table into a table. -/
def readSettings (items : Items) : List (List Lexeme × Term) → Except ReadError Items
  | [] => .ok items
  | (words, term) :: rest => do
    let key ← readKey words
    let v ← term.value
    readSettings (← orMalformed (addDotted v key items)) rest

end

/-! ### Lines -/

/-- What a header names: a table or an element, the path to where it belongs, and its key there. -/
structure Header where
  element : Bool
  path : List String
  key : String

/-- A document up to a line. -/
structure Draft where
  /-- The tables that are complete. -/
  items : Items := []
  /-- The header of the table that is open; none if it is that of the whole document. -/
  header : Option Header := none
  /-- The entries of the table that is open. -/
  current : Items := []

/-- The tables of a document with the open one in its place. -/
def Draft.close (draft : Draft) : Option Items :=
  match draft.header with
  | none => some draft.current
  | some ⟨true, path, key⟩ => changeAt (addElement key draft.current) path draft.items
  | some ⟨false, path, key⟩ =>
    changeAt (fun items => some (putTable key draft.current items)) path draft.items

/-- Opens what a header names. -/
def Draft.start (items : Items) (header : Header) : Option Draft :=
  if header.element then some ⟨items, some header, []⟩
  else do
    let current ← openTable header.key (← reach header.path items)
    return ⟨items, some header, current⟩

/-- Closes the open table and opens what a header names. -/
def Draft.next (draft : Draft) (element : Bool) (words : List Lexeme) : Except ReadError Draft := do
  let items ← orMalformed draft.close
  let path ← readKey words
  let key ← orMalformed path.getLast?
  orMalformed (Draft.start items ⟨element, path.dropLast, key⟩)

/-- Takes in a line. -/
def Draft.add (draft : Draft) : Expression → Except ReadError Draft
  | .table words => draft.next false words
  | .element words => draft.next true words
  | .setting words term => do
    let key ← readKey words
    let v ← term.value
    return { draft with current := ← orMalformed (addDotted v key draft.current) }

/-- The table that a document spells. -/
def read (text : String) : Except ReadError Table := do
  let draft ← (← orMalformed (expressions? text)).foldlM Draft.add {}
  orMalformed (resolveEntries (closeItems (← orMalformed draft.close)))

end VariantFold.Toml
