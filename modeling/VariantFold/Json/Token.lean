/-
JSON text, cut into tokens.

Blanks separate tokens and are dropped.  What is no token ends the row of tokens with `bad`, so a
reader that stops before it never learns of it.  Numbers keep the parts they are written with, and a
string that breaks a pair of surrogate escapes is kept as a string without content: whether either is
acceptable depends on where it stands.
-/
import VariantFold.Decimal.Numeral

namespace VariantFold.Json

/-- A token of JSON text. -/
inductive Token where
  | openBrace
  | closeBrace
  | openBracket
  | closeBracket
  | comma
  | colon
  | null
  | bool (b : Bool)
  | number (n : Numeral)
  /-- A string, without content if a surrogate stands alone in it. -/
  | string (s : Option String)
  /-- What is no token. -/
  | bad
  deriving DecidableEq, Repr

/-- What a place in a string denotes. -/
inductive Piece where
  /-- A character, written as itself or by an escape letter. -/
  | char (c : Char)
  /-- A code unit, written by its number. -/
  | unit (n : Nat)
  deriving DecidableEq, Repr

/-- The value of a hexadecimal digit. -/
def hexValue? (c : Char) : Option Nat :=
  if '0' ≤ c ∧ c ≤ '9' then some (c.toNat - '0'.toNat)
  else if 'a' ≤ c ∧ c ≤ 'f' then some (c.toNat - 'a'.toNat + 10)
  else if 'A' ≤ c ∧ c ≤ 'F' then some (c.toNat - 'A'.toNat + 10)
  else none

/-- The value of four hexadecimal digits. -/
def hexUnit? (a b c d : Char) : Option Nat := do
  let a ← hexValue? a
  let b ← hexValue? b
  let c ← hexValue? c
  let d ← hexValue? d
  return ((a * 16 + b) * 16 + c) * 16 + d

/-- The character that an escape letter denotes. -/
def escaped? (c : Char) : Option Char :=
  if c = '"' then some '"'
  else if c = '\\' then some '\\'
  else if c = '/' then some '/'
  else if c = 'b' then some '\x08'
  else if c = 'f' then some '\x0c'
  else if c = 'n' then some '\n'
  else if c = 'r' then some '\r'
  else if c = 't' then some '\t'
  else none

/-- The pieces of a string up to its closing quote, and what follows. -/
def scanPieces : List Char → Option (List Piece × List Char)
  | [] => none
  | '"' :: rest => some ([], rest)
  | '\\' :: 'u' :: a :: b :: c :: d :: rest =>
    match hexUnit? a b c d, scanPieces rest with
    | some n, some (pieces, rest) => some (.unit n :: pieces, rest)
    | _, _ => none
  | '\\' :: c :: rest =>
    match escaped? c, scanPieces rest with
    | some c, some (pieces, rest) => some (.char c :: pieces, rest)
    | _, _ => none
  | c :: rest =>
    if c.toNat < 32 ∨ c = '\\' then none
    else match scanPieces rest with
      | some (pieces, rest) => some (.char c :: pieces, rest)
      | none => none

/-- Whether a code unit is the first of a surrogate pair. -/
def isHigh (n : Nat) : Bool := 0xd800 ≤ n && n < 0xdc00

/-- Whether a code unit is the second of a surrogate pair. -/
def isLow (n : Nat) : Bool := 0xdc00 ≤ n && n < 0xe000

/-- The characters that pieces denote; a surrogate needs its partner right after it. -/
def decodePieces : List Piece → Option (List Char)
  | [] => some []
  | .char c :: rest => (decodePieces rest).map (c :: ·)
  | .unit n :: .unit m :: rest =>
    if isHigh n then
      if isLow m then
        (decodePieces rest).map (Char.ofNat (0x10000 + (n - 0xd800) * 0x400 + (m - 0xdc00)) :: ·)
      else none
    else if isLow n then none
    else (decodePieces (.unit m :: rest)).map (Char.ofNat n :: ·)
  | .unit n :: rest =>
    if isHigh n || isLow n then none else (decodePieces rest).map (Char.ofNat n :: ·)

/-- The parts of a number and what follows: no leading zero, digits on both sides of a point, digits
in an exponent. -/
def scanNumber (cs : List Char) : Option (Numeral × List Char) :=
  let (negative, cs) : Bool × List Char :=
    match cs with
    | '-' :: rest => (true, rest)
    | _ => (false, cs)
  let (whole, rest) := spanDigits cs
  if whole = [] ∨ (whole.head? = some '0' ∧ whole.length ≠ 1) then none
  else
    let (fraction, rest) : Option (List Char) × List Char :=
      match rest with
      | '.' :: rest => let (digits, rest) := spanDigits rest; (some digits, rest)
      | _ => (none, rest)
    if fraction = some [] then none
    else match readExponent? rest with
      | some (exponent, rest) => some (⟨negative, whole, fraction, exponent⟩, rest)
      | none => none

/-- The token at the front of a text that does not start with a blank, and what follows. -/
def scanToken : List Char → Option (Token × List Char)
  | '\x7b' :: rest => some (.openBrace, rest)
  | '\x7d' :: rest => some (.closeBrace, rest)
  | '[' :: rest => some (.openBracket, rest)
  | ']' :: rest => some (.closeBracket, rest)
  | ',' :: rest => some (.comma, rest)
  | ':' :: rest => some (.colon, rest)
  | 'n' :: 'u' :: 'l' :: 'l' :: rest => some (.null, rest)
  | 't' :: 'r' :: 'u' :: 'e' :: rest => some (.bool true, rest)
  | 'f' :: 'a' :: 'l' :: 's' :: 'e' :: rest => some (.bool false, rest)
  | '"' :: rest =>
    match scanPieces rest with
    | some (pieces, rest) => some (.string ((decodePieces pieces).map String.ofList), rest)
    | none => none
  | cs =>
    match scanNumber cs with
    | some (n, rest) => some (.number n, rest)
    | none => none

/-- The four blanks that may stand between tokens. -/
def isSpace (c : Char) : Bool := c = ' ' || c = '\t' || c = '\n' || c = '\r'

/-- The tokens of a text, at most `limit` characters of it being looked at. -/
def scan : (limit : Nat) → List Char → List Token
  | 0, _ => []
  | _ + 1, [] => []
  | n + 1, c :: cs =>
    if isSpace c then scan n cs
    else match scanToken (c :: cs) with
      | some (token, rest) => token :: scan n rest
      | none => [.bad]

/-- The tokens of a text.  Every token takes at least one character. -/
def tokens (text : String) : List Token := scan text.toList.length text.toList

end VariantFold.Json
