/-
The lines of a TOML document.

A line is a header, which speaks of a table, or a setting: a key, an equals sign and a value.  Here a
document is taken apart into its lines with the words in them as they are written.  That is possible if
brackets are closed, marks stand where they belong and comments hold no controls, and whether it is
possible does not depend on what any word means.  A part of a key may be missing, and so may a value at
the end of a line or of an inline table: no other part of the document is unclear without them.
-/
import VariantFold.Toml.Lexeme

namespace VariantFold.Toml

/-- A value as it is written. -/
inductive Term where
  /-- A value without brackets. -/
  | scalar (word : Lexeme)
  /-- The items of an array. -/
  | array (items : List Term)
  /-- The settings of an inline table. -/
  | table (settings : List (List Lexeme × Term))

/-- A line of a document, with keys as the words of their parts. -/
inductive Expression where
  /-- A header of a table. -/
  | table (key : List Lexeme)
  /-- A header of a new element in a list of tables. -/
  | element (key : List Lexeme)
  /-- A value for a key. -/
  | setting (key : List Lexeme) (value : Term)

/-! ### Between words -/

/-- What follows blanks, line ends and comments.  Controls may not stand in a comment. -/
def skipSpace : (comment : Bool) → List Char → Option (List Char)
  | _, [] => some []
  | _, '\r' :: '\n' :: rest => skipSpace false rest
  | true, c :: rest =>
    if c = '\n' then skipSpace false rest
    else if isPrintable c then skipSpace true rest
    else none
  | false, c :: rest =>
    if c = '#' then skipSpace true rest
    else if c = '\n' || isBlank c then skipSpace false rest
    else some (c :: rest)

/-- What follows the end of a line, which only blanks and a comment may come before. -/
def skipLineEnd (cs : List Char) : Option (List Char) :=
  let rest := match skipBlanks cs with
    | '#' :: comment => comment.dropWhile isPrintable
    | rest => rest
  match rest with
  | [] => some []
  | '\n' :: rest => some rest
  | '\r' :: '\n' :: rest => some rest
  | _ => none

/-! ### Keys and values -/

/-- Parts divided by dots, at most `limit` of them, with blanks around each. -/
def scanParts : (limit : Nat) → List Char → List Lexeme × List Char
  | 0, cs => ([], cs)
  | n + 1, cs =>
    let (part, rest) := (scanWord (skipBlanks cs)).getD (.missing, skipBlanks cs)
    match skipBlanks rest with
    | '.' :: rest =>
      let (parts, rest) := scanParts n rest
      (part :: parts, rest)
    | rest => ([part], rest)

/-- A key, of at least one part.  A dot stands between any two, which bounds their number. -/
def scanKey (cs : List Char) : List Lexeme × List Char := scanParts (cs.length + 1) cs

/-- How many brackets and braces may be open at once, and how many parts a key may have. -/
def nestingLimit : Nat := 80

mutual

/-- A value of any sort, with room for `depth` open brackets. -/
def scanTerm : (limit : Nat) → (depth : Nat) → List Char → Option (Term × List Char)
  | 0, _, _ => none
  | n + 1, depth, cs =>
    match cs, depth with
    | '[' :: rest, depth + 1 => do
      let (items, rest) ← scanItems n depth (← skipSpace false rest)
      return (.array items, rest)
    | '\x7b' :: rest, depth + 1 => do
      let (settings, rest) ← scanSettings n depth (← skipSpace false rest)
      return (.table settings, rest)
    | _, _ => do
      let (word, rest) ← scanScalar cs
      return (.scalar word, rest)

/-- The items of an array up to its closing bracket; a comma may follow the last. -/
def scanItems : (limit : Nat) → (depth : Nat) → List Char → Option (List Term × List Char)
  | 0, _, _ => none
  | _ + 1, _, ']' :: rest => some ([], rest)
  | n + 1, depth, cs => do
    let (item, rest) ← scanTerm n depth cs
    match ← skipSpace false rest with
    | ',' :: rest =>
      let (items, rest) ← scanItems n depth (← skipSpace false rest)
      return (item :: items, rest)
    | ']' :: rest => return ([item], rest)
    | _ => none

/-- The settings of an inline table up to its closing brace; a comma may follow the last.  Line ends and
comments may stand everywhere but in a key. -/
def scanSettings : (limit : Nat) → (depth : Nat) → List Char →
    Option (List (List Lexeme × Term) × List Char)
  | 0, _, _ => none
  | _ + 1, _, '\x7d' :: rest => some ([], rest)
  | n + 1, depth, cs => do
    let (key, rest) := scanKey cs
    match ← skipSpace false rest with
    | '\x7d' :: rest => return ([(key, .scalar .missing)], rest)
    | '=' :: rest =>
      match ← skipSpace false rest with
      | '\x7d' :: rest => return ([(key, .scalar .missing)], rest)
      | rest =>
        let (value, rest) ← scanTerm n depth rest
        match ← skipSpace false rest with
        | ',' :: rest =>
          let (settings, rest) ← scanSettings n depth (← skipSpace false rest)
          return ((key, value) :: settings, rest)
        | '\x7d' :: rest => return ([(key, value)], rest)
        | _ => none
    | _ => none

end

/-! ### Lines -/

/-- What follows the brackets that close a header.  If the last part of its key is missing, they may be
missing too, and what else is on the line does not count. -/
def closeHeader (key : List Lexeme) (closing : List Char → Option (List Char)) (cs : List Char) :
    Option (List Char) :=
  if cs.head? ≠ some ']' ∧ key.getLast? = some .missing then some (skipWords cs.length cs)
  else closing cs

/-- The value of a setting on a line of its own, which may be missing. -/
def scanLastTerm (cs : List Char) : Option (Term × List Char) :=
  if isLineOver cs then some (.scalar .missing, cs) else scanTerm cs.length nestingLimit cs

/-- A header or a setting at the front of a line. -/
def scanExpression (cs : List Char) : Option (Expression × List Char) :=
  match cs with
  | '[' :: '[' :: rest => do
    let (key, rest) := scanKey rest
    return (.element key, ← closeHeader key (fun cs => expect ']' cs >>= expect ']') rest)
  | '[' :: rest => do
    let (key, rest) := scanKey rest
    return (.table key, ← closeHeader key (expect ']') rest)
  | _ => do
    let (key, rest) := scanKey cs
    let (value, rest) ← scanLastTerm (skipBlanks (← expect '=' rest))
    return (.setting key value, rest)

/-- Takes lines apart, at most `limit` of them.  Lines without an expression do not count. -/
def scanExpressions : (limit : Nat) → List Char → Option (List Expression)
  | 0, cs => if cs = [] then some [] else none
  | _ + 1, [] => some []
  | n + 1, cs =>
    match skipLineEnd cs with
    | some rest => scanExpressions n rest
    | none => do
      let (expression, rest) ← scanExpression (skipBlanks cs)
      return expression :: (← scanExpressions n (← skipLineEnd rest))

/-- The lines of a document, if it can be taken apart.  A byte order mark at the front does not count. -/
def expressions? (text : String) : Option (List Expression) :=
  let cs := match text.toList with
    | '\ufeff' :: rest => rest
    | cs => cs
  scanExpressions cs.length cs

end VariantFold.Toml
