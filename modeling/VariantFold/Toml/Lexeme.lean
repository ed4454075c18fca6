/-
TOML words as they are written.

A document is cut into words before any of them is understood.  A string ends at its closing quotes; one
on a single line that is never closed ends with its line, and one over several lines with the document.
Every other word goes on up to a blank, a line end, a comment, or a mark that divides words.  Where a word
belongs and none is, a missing one is taken to stand there.  What a word means, and whether it means
anything, is settled later.
-/
namespace VariantFold.Toml

/-- How a string is quoted. -/
inductive Quote where
  /-- In double quotes, with escapes. -/
  | basic
  /-- In single quotes, without. -/
  | literal
  /-- In three double quotes, over several lines. -/
  | basicLines
  /-- In three single quotes, over several lines. -/
  | literalLines
  deriving DecidableEq, Repr

/-- A word of a document. -/
inductive Lexeme where
  /-- No word, where one belongs. -/
  | missing
  /-- A word without quotes. -/
  | bare (text : List Char)
  /-- A string and what stands between its quotes, unless it is never closed. -/
  | quoted (quote : Quote) (body : Option (List Char))
  deriving DecidableEq, Repr

/-- The blanks within a line. -/
def isBlank (c : Char) : Bool := c = ' ' || c = '\t'

/-- What follows the blanks at the front. -/
def skipBlanks (cs : List Char) : List Char := cs.dropWhile isBlank

/-- What follows a character that has to stand at the front. -/
def expect (c : Char) : List Char → Option (List Char)
  | d :: rest => if d = c then some rest else none
  | [] => none

/-- Whether a character may stand in a comment or a string on one line: no control but the tab. -/
def isPrintable (c : Char) : Bool := c = '\t' || (32 ≤ c.toNat && c.toNat ≠ 127)

/-- The characters that end a word without quotes. -/
def isDelimiter (c : Char) : Bool :=
  c ∈ ['.', '=', ',', '[', ']', '\x7b', '\x7d', ' ', '\t', '#', '\r', '\n']

/-- The characters that open a string. -/
def isQuote (c : Char) : Bool := c = '"' || c = '\''

/-! ### Strings -/

/-- Adds a character to a string whose end is found later. -/
def keep (c : Char) (found : Option (List Char) × List Char) : Option (List Char) × List Char :=
  (found.1.map (c :: ·), found.2)

/-- What stands before the closing quote of a basic string, and what follows it.  A backslash takes the
meaning from a quote. -/
def cutBasic : List Char → Option (List Char) × List Char
  | [] => (none, [])
  | '"' :: rest => (some [], rest)
  | '\n' :: rest => (none, '\n' :: rest)
  | '\\' :: '\\' :: rest => keep '\\' (keep '\\' (cutBasic rest))
  | '\\' :: '"' :: rest => keep '\\' (keep '"' (cutBasic rest))
  | c :: rest => keep c (cutBasic rest)

/-- What stands before the closing quote of a literal string, and what follows it. -/
def cutLiteral : List Char → Option (List Char) × List Char
  | [] => (none, [])
  | '\'' :: rest => (some [], rest)
  | '\n' :: rest => (none, '\n' :: rest)
  | c :: rest => keep c (cutLiteral rest)

/-- What stands before the closing quotes of a basic string over several lines, and what follows them.
One or two quotes right before them belong to the string. -/
def cutBasicLines : List Char → Option (List Char) × List Char
  | [] => (none, [])
  | '"' :: '"' :: '"' :: '"' :: '"' :: rest => (some ['"', '"'], rest)
  | '"' :: '"' :: '"' :: '"' :: rest => (some ['"'], rest)
  | '"' :: '"' :: '"' :: rest => (some [], rest)
  | '\\' :: '\\' :: rest => keep '\\' (keep '\\' (cutBasicLines rest))
  | '\\' :: '"' :: rest => keep '\\' (keep '"' (cutBasicLines rest))
  | c :: rest => keep c (cutBasicLines rest)

/-- What stands before the closing quotes of a literal string over several lines, and what follows them.
One or two quotes right before them belong to the string. -/
def cutLiteralLines : List Char → Option (List Char) × List Char
  | [] => (none, [])
  | '\'' :: '\'' :: '\'' :: '\'' :: '\'' :: rest => (some ['\'', '\''], rest)
  | '\'' :: '\'' :: '\'' :: '\'' :: rest => (some ['\''], rest)
  | '\'' :: '\'' :: '\'' :: rest => (some [], rest)
  | c :: rest => keep c (cutLiteralLines rest)

/-- A string with what stands before its end. -/
def quotedOfCut (quote : Quote) (found : Option (List Char) × List Char) : Lexeme × List Char :=
  (.quoted quote found.1, found.2)

/-- A string of any sort. -/
def scanQuoted : List Char → Option (Lexeme × List Char)
  | '"' :: '"' :: '"' :: rest => some (quotedOfCut .basicLines (cutBasicLines rest))
  | '"' :: rest => some (quotedOfCut .basic (cutBasic rest))
  | '\'' :: '\'' :: '\'' :: rest => some (quotedOfCut .literalLines (cutLiteralLines rest))
  | '\'' :: rest => some (quotedOfCut .literal (cutLiteral rest))
  | _ => none

/-! ### Words without quotes -/

/-- A string, or a word up to the next delimiter. -/
def scanWord (cs : List Char) : Option (Lexeme × List Char) :=
  match scanQuoted cs with
  | some found => some found
  | none =>
    match cs.takeWhile fun c => !isDelimiter c with
    | [] => none
    | word => some (.bare word, cs.dropWhile fun c => !isDelimiter c)

/-- Whether a word without quotes starts at the front. -/
def startsBare : List Char → Bool
  | [] => false
  | c :: _ => !isDelimiter c && !isQuote c

/-- Words without quotes, divided by dots and blanks, which spell one value together, as a date and a time
of day do, and what follows them.  A dot may stand first and last, a blank may not. -/
def cutWords : (start : Bool) → List Char → List Char × List Char
  | _, [] => ([], [])
  | start, c :: rest =>
    if c = '.' || (isBlank c && startsBare (skipBlanks rest)) then
      let (words, rest) := cutWords true rest
      (c :: words, rest)
    else if isDelimiter c || (start && isQuote c) then ([], c :: rest)
    else
      let (words, rest) := cutWords false rest
      (c :: words, rest)

/-- A value without brackets: a string, or words without quotes. -/
def scanScalar (cs : List Char) : Option (Lexeme × List Char) :=
  match scanQuoted cs with
  | some found => some found
  | none =>
    match cutWords true cs with
    | ([], _) => none
    | (words, rest) => some (.bare words, rest)

/-- Whether a line has no further words: it ends, or a comment follows. -/
def isLineOver : List Char → Bool
  | [] => true
  | c :: _ => c = '#' || c = '\n' || c = '\r'

/-- What follows the words and marks of a line, at most `limit` of them. -/
def skipWords : (limit : Nat) → List Char → List Char
  | 0, cs => cs
  | n + 1, cs =>
    if isLineOver cs then cs
    else match scanWord cs with
      | some (_, rest) => skipWords n rest
      | none => skipWords n cs.tail

end VariantFold.Toml
