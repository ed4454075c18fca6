/-
TOML strings and the parts of keys.

There are four sorts of strings: basic ones, with escapes, and literal ones, without, each on one line or
over several.  Here the text between the quotes is given the meaning that its sort has.  A part of a key is
a bare word or a string on one line.
-/
import VariantFold.Json.Token
import VariantFold.Toml.Lexeme

namespace VariantFold.Toml

/-! ### Escapes -/

/-- The character of a code point, unless it is none. -/
def charOf? (n : Nat) : Option Char := if n.isValidChar then some (Char.ofNat n) else none

/-- The value of a row of hexadecimal digits. -/
def hexNumber? (cs : List Char) : Option Nat :=
  cs.foldlM (fun n c => (Json.hexValue? c).map fun d => 16 * n + d) 0

/-- The character that an escape letter denotes. -/
def escaped? (c : Char) : Option Char :=
  if c = 'b' then some '\x08'
  else if c = 't' then some '\t'
  else if c = 'n' then some '\n'
  else if c = 'f' then some '\x0c'
  else if c = 'r' then some '\r'
  else if c = 'e' then some '\x1b'
  else if c = '"' then some '"'
  else if c = '\\' then some '\\'
  else none

/-- Adds a character to what is read later. -/
def push : Option Char → Option (List Char) → Option (List Char)
  | some c, some cs => some (c :: cs)
  | _, _ => none

/-! ### Strings -/

/-- The text of a basic string. -/
def decodeBasic : List Char → Option (List Char)
  | [] => some []
  | ['\\'] => none
  | '\\' :: 'x' :: a :: b :: rest => push (hexNumber? [a, b] >>= charOf?) (decodeBasic rest)
  | '\\' :: 'u' :: a :: b :: c :: d :: rest =>
    push (hexNumber? [a, b, c, d] >>= charOf?) (decodeBasic rest)
  | '\\' :: 'U' :: a :: b :: c :: d :: e :: f :: g :: h :: rest =>
    push (hexNumber? [a, b, c, d, e, f, g, h] >>= charOf?) (decodeBasic rest)
  | '\\' :: c :: rest => push (escaped? c) (decodeBasic rest)
  | c :: rest => if isPrintable c then push (some c) (decodeBasic rest) else none

/-- Where reading stands in a basic string over several lines. -/
inductive Gap where
  /-- In the text. -/
  | none
  /-- After a backslash at the end of a line, before the end of the line. -/
  | beforeNewline
  /-- After a backslash at the end of a line, past the end of the line. -/
  | afterNewline

/-- The text of a basic string over several lines. -/
def decodeBasicLines : Gap → List Char → Option (List Char)
  | .beforeNewline, [] => none
  | _, [] => some []
  | .beforeNewline, '\r' :: '\n' :: rest => decodeBasicLines .afterNewline rest
  | .beforeNewline, c :: rest =>
    if c = '\n' then decodeBasicLines .afterNewline rest
    else if isBlank c then decodeBasicLines .beforeNewline rest
    else none
  | .afterNewline, '\r' :: '\n' :: rest => decodeBasicLines .afterNewline rest
  | _, ['\\'] => none
  | _, '\\' :: 'x' :: a :: b :: rest => push (hexNumber? [a, b] >>= charOf?) (decodeBasicLines .none rest)
  | _, '\\' :: 'u' :: a :: b :: c :: d :: rest =>
    push (hexNumber? [a, b, c, d] >>= charOf?) (decodeBasicLines .none rest)
  | _, '\\' :: 'U' :: a :: b :: c :: d :: e :: f :: g :: h :: rest =>
    push (hexNumber? [a, b, c, d, e, f, g, h] >>= charOf?) (decodeBasicLines .none rest)
  | _, '\\' :: '\r' :: '\n' :: rest => decodeBasicLines .afterNewline rest
  | _, '\\' :: c :: rest =>
    if c = '\n' then decodeBasicLines .afterNewline rest
    else if isBlank c then decodeBasicLines .beforeNewline rest
    else push (escaped? c) (decodeBasicLines .none rest)
  | .none, '\r' :: '\n' :: rest => push (some '\r') (push (some '\n') (decodeBasicLines .none rest))
  | gap, c :: rest =>
    match gap with
    | .none =>
      if c = '\n' || isPrintable c then push (some c) (decodeBasicLines .none rest) else none
    | _ =>
      if c = '\n' || isBlank c then decodeBasicLines .afterNewline rest
      else if isPrintable c then push (some c) (decodeBasicLines .none rest)
      else none

/-- The text of a literal string over several lines. -/
def decodeLiteralLines : List Char → Option (List Char)
  | [] => some []
  | '\r' :: '\n' :: rest => push (some '\r') (push (some '\n') (decodeLiteralLines rest))
  | c :: rest => if c = '\n' || isPrintable c then push (some c) (decodeLiteralLines rest) else none

/-- A line end right after the opening quotes of a string over several lines does not count. -/
def skipFirstNewline : List Char → List Char
  | '\r' :: '\n' :: rest => rest
  | '\n' :: rest => rest
  | cs => cs

/-- The text that stands between quotes. -/
def Quote.decode : Quote → List Char → Option (List Char)
  | .basic, body => decodeBasic body
  | .literal, body => if body.all isPrintable then some body else none
  | .basicLines, body => decodeBasicLines .none (skipFirstNewline body)
  | .literalLines, body => decodeLiteralLines (skipFirstNewline body)

/-! ### Parts of keys -/

/-- The characters of bare words in keys. -/
def isBare (c : Char) : Bool := c.isAlphanum || c = '_' || c = '-'

/-- The part of a key that a word spells. -/
def Lexeme.keyPart? : Lexeme → Option String
  | .missing => none
  | .bare word => if word ≠ [] && word.all isBare then some (String.ofList word) else none
  | .quoted .basic (some body) => (Quote.basic.decode body).map String.ofList
  | .quoted .literal (some body) => (Quote.literal.decode body).map String.ofList
  | .quoted _ _ => none

end VariantFold.Toml
