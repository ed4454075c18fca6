/-
Written JSON text and its tokens.

Strings and numbers that are written are scanned as the tokens that denote them: every escape is read
as the character it was written for (`scanPieces_text`), and the digits of an integer are taken up to
what follows (`scanNumber_intText`).  `Spells cs ts` says that a text is cut into the tokens `ts`;
blanks make no difference, so a style makes none.
-/
import VariantFold.Json.Reader
import VariantFold.Proofs.ReadBack

namespace VariantFold.Json

/-! ### Strings -/

/-- A piece that denotes a character, whatever follows. -/
def Piece.Denotes (piece : Piece) (c : Char) : Prop :=
  ∀ pieces, decodePieces (piece :: pieces) = (decodePieces pieces).map (c :: ·)

lemma denotes_char (c : Char) : (Piece.char c).Denotes c := fun _ => by rw [decodePieces]

/-- Control characters are no surrogates. -/
lemma denotes_unit {c : Char} (h : c.toNat < 32) : (Piece.unit c.toNat).Denotes c := by
  have hhigh : isHigh c.toNat = false := by simp [isHigh]; omega
  have hlow : isLow c.toNat = false := by simp [isLow]; omega
  intro pieces
  rcases pieces with _ | ⟨piece, pieces⟩
  · simp [decodePieces, hhigh, hlow]
  · cases piece with
    | char d => simp [decodePieces, hhigh, hlow]
    | unit n => simp [decodePieces, hhigh, hlow]

lemma hexUnit?_hexEscape :
    ∀ n < 32, hexUnit? '0' '0' (Nat.digitChar (n / 16)) (Nat.digitChar (n % 16)) = some n := by
  decide

/-- Between quotes, the text `cs` is scanned as a piece that denotes the character `c`. -/
def StandsFor (cs : List Char) (c : Char) : Prop :=
  ∃ piece : Piece, piece.Denotes c ∧ ∀ rest,
    scanPieces (cs ++ rest) = (scanPieces rest).map fun found => (piece :: found.1, found.2)

/-- An escape letter. -/
lemma standsFor_letter {letter c : Char} (hu : letter ≠ 'u') (h : escaped? letter = some c) :
    StandsFor ['\\', letter] c := by
  refine ⟨.char c, denotes_char c, fun rest => ?_⟩
  rw [List.cons_append, List.singleton_append, scanPieces.eq_def]
  split
  · rename_i heq
    exact absurd heq (by simp)
  · rename_i heq
    exact absurd heq (by simp)
  · rename_i heq
    exact absurd (by simpa using congrArg (fun l => l.tail.head?) heq) hu
  · rename_i heq
    obtain ⟨rfl, rfl⟩ : letter = _ ∧ rest = _ := by simpa using heq
    rw [h]
    rcases scanPieces rest with _ | found <;> rfl
  · rename_i hslash heq
    obtain ⟨rfl, rfl⟩ := List.cons.inj heq
    exact absurd rfl (hslash letter rest rfl)

/-- The number of a control character. -/
lemma standsFor_hexEscape {c : Char} (h : c.toNat < 32) :
    StandsFor ('\\' :: 'u' :: hexEscape c.toNat) c := by
  refine ⟨.unit c.toNat, denotes_unit h, fun rest => ?_⟩
  change scanPieces ('\\' :: 'u' :: '0' :: '0' :: _ :: _ :: rest) = _
  rw [scanPieces, hexUnit?_hexEscape _ h]
  rcases scanPieces rest with _ | found <;> rfl

/-- A character that is written as it is. -/
lemma standsFor_self {c : Char} (hquote : c ≠ '"') (hslash : c ≠ '\\') (h : ¬ c.toNat < 32) :
    StandsFor [c] c := by
  refine ⟨.char c, denotes_char c, fun rest => ?_⟩
  rw [List.singleton_append, scanPieces.eq_def]
  split
  · rename_i heq
    exact absurd heq (by simp)
  · rename_i heq
    exact absurd (List.cons.inj heq).1 hquote
  · rename_i heq
    exact absurd (List.cons.inj heq).1 hslash
  · rename_i heq
    exact absurd (List.cons.inj heq).1 hslash
  · rename_i heq
    obtain ⟨rfl, rfl⟩ := List.cons.inj heq
    rw [if_neg (not_or.2 ⟨h, hslash⟩)]
    rcases scanPieces rest with _ | found <;> rfl

/-- What is written for a character stands for it. -/
lemma standsFor_escapeChar (c : Char) : StandsFor (escapeChar c) c := by
  rw [escapeChar]
  split_ifs with hquote hslash hnewline hreturn htab hback hfeed hcontrol
  · exact standsFor_letter (by decide) (by rw [hquote]; rfl)
  · exact standsFor_letter (by decide) (by rw [hslash]; rfl)
  · exact standsFor_letter (by decide) (by rw [hnewline]; rfl)
  · exact standsFor_letter (by decide) (by rw [hreturn]; rfl)
  · exact standsFor_letter (by decide) (by rw [htab]; rfl)
  · have hc : c = '\x08' := Char.toNat_inj.1 hback
    exact standsFor_letter (by decide) (by rw [hc]; rfl)
  · have hc : c = '\x0c' := Char.toNat_inj.1 hfeed
    exact standsFor_letter (by decide) (by rw [hc]; rfl)
  · exact standsFor_hexEscape hcontrol
  · exact standsFor_self hquote hslash hcontrol

/-- The text of a string is scanned up to its closing quote, as pieces that denote the string. -/
lemma scanPieces_text (cs rest : List Char) :
    ∃ pieces, scanPieces (cs.flatMap escapeChar ++ '"' :: rest) = some (pieces, rest) ∧
      decodePieces pieces = some cs := by
  induction cs with
  | nil => exact ⟨[], by rw [List.flatMap_nil, List.nil_append, scanPieces], by rw [decodePieces]⟩
  | cons c cs ih =>
    obtain ⟨pieces, hscan, hdecode⟩ := ih
    obtain ⟨piece, hpiece, hfirst⟩ := standsFor_escapeChar c
    refine ⟨piece :: pieces, ?_, ?_⟩
    · rw [List.flatMap_cons, List.append_assoc, hfirst, hscan]
      rfl
    · rw [hpiece, hdecode]
      rfl

/-! ### Numbers -/

/-- What follows a number: the end, a blank, or a mark of punctuation. -/
def EndsNumber (rest : List Char) : Prop :=
  ∀ c ∈ rest.head?, c.isDigit = false ∧ c ≠ '.' ∧ c ≠ 'e' ∧ c ≠ 'E'

/-- The digits of an integer make a numeral, whatever follows. -/
lemma scanNumber_intText (n : Int) {rest : List Char} (hrest : EndsNumber rest) :
    scanNumber ((intText n).toList ++ rest) =
      some (⟨n < 0, natDigits n.natAbs, none, none⟩, rest) := by
  have hdigits : ∀ c ∈ natDigits n.natAbs, c.isDigit = true := fun c => isDigit_of_mem_natDigits
  have hspan := spanDigits_append hdigits fun c hc => (hrest c hc).1
  have hnil := natDigits_ne_nil n.natAbs
  -- the checks on a numeral: digits, no zero in front, no exponent, no fraction
  have hzero : ¬ (natDigits n.natAbs = [] ∨
      ((natDigits n.natAbs).head? = some '0' ∧ (natDigits n.natAbs).length ≠ 1)) := by
    rintro (h | ⟨hhead, hlen⟩)
    · exact hnil h
    · by_cases hn : n.natAbs = 0
      · rw [hn] at hlen
        exact hlen rfl
      · exact head?_natDigits hn hhead
  have hexponent : readExponent? rest = some (none, rest) := by
    rcases rest with _ | ⟨c, rest⟩
    · rfl
    · obtain ⟨-, -, he, hE⟩ := hrest c rfl
      rw [readExponent?, if_neg (not_or.2 ⟨he, hE⟩)]
  have hpoint : ∀ tail, rest ≠ '.' :: tail := by
    rintro tail rfl
    exact (hrest '.' rfl).2.1 rfl
  -- without a sign of its own the number does not begin with one
  have hsign : ∀ tail, natDigits n.natAbs ++ rest ≠ '-' :: tail := by
    intro tail heq
    obtain ⟨c, cs, hcs⟩ := List.exists_cons_of_ne_nil hnil
    rw [hcs, List.cons_append] at heq
    have hc := hdigits c (by rw [hcs]; exact List.mem_cons_self)
    rw [(List.cons.inj heq).1] at hc
    exact absurd hc (by decide)
  rw [intText, String.toList_ofList]
  by_cases hn : n < 0
  · rw [if_pos hn, List.cons_append, scanNumber]
    simp only [hspan, if_neg hzero, hexponent]
    rw [if_neg (by simp), decide_eq_true hn]
  · rw [if_neg hn, scanNumber]
    · simp only [hspan, if_neg hzero, hexponent]
      rw [if_neg (by simp), decide_eq_false hn]
    · exact hsign

/-! ### Tokens -/

/-- A text is cut into tokens. -/
def Spells (cs : List Char) (ts : List Token) : Prop :=
  ∀ limit, cs.length ≤ limit → scan limit cs = ts

variable {cs rest : List Char} {first : Token} {ts : List Token} {c : Char}

lemma spells_nil : Spells [] [] := by
  intro limit _
  cases limit <;> rfl

lemma Spells.tokens_eq {s : String} (h : Spells s.toList ts) : tokens s = ts := h _ le_rfl

lemma Spells.blank (h : Spells cs ts) (hc : isSpace c = true) : Spells (c :: cs) ts := by
  intro limit hlimit
  obtain ⟨limit, rfl⟩ := Nat.exists_eq_succ_of_ne_zero (Nat.ne_zero_of_lt hlimit)
  rw [scan, if_pos hc, h limit (Nat.le_of_succ_le_succ hlimit)]

lemma Spells.blanks (h : Spells cs ts) (hrest : ∀ c ∈ rest, isSpace c = true) :
    Spells (rest ++ cs) ts := by
  induction rest with
  | nil => exact h
  | cons c rest ih =>
    exact (ih fun d hd => hrest d (List.mem_cons_of_mem c hd)).blank (hrest c List.mem_cons_self)

/-- A token in front of others. -/
lemma Spells.token (h : Spells rest ts) (hc : isSpace c = false)
    (hscan : scanToken (c :: cs) = some (first, rest)) (hlen : rest.length ≤ cs.length) :
    Spells (c :: cs) (first :: ts) := by
  intro limit hlimit
  obtain ⟨limit, rfl⟩ := Nat.exists_eq_succ_of_ne_zero (Nat.ne_zero_of_lt hlimit)
  rw [scan, if_neg (by simp [hc]), hscan]
  exact congrArg _ (h limit (hlen.trans (Nat.le_of_succ_le_succ hlimit)))

lemma Spells.openBrace (h : Spells cs ts) : Spells ('\x7b' :: cs) (.openBrace :: ts) :=
  h.token (by decide) rfl le_rfl

lemma Spells.closeBrace (h : Spells cs ts) : Spells ('\x7d' :: cs) (.closeBrace :: ts) :=
  h.token (by decide) rfl le_rfl

lemma Spells.openBracket (h : Spells cs ts) : Spells ('[' :: cs) (.openBracket :: ts) :=
  h.token (by decide) rfl le_rfl

lemma Spells.closeBracket (h : Spells cs ts) : Spells (']' :: cs) (.closeBracket :: ts) :=
  h.token (by decide) rfl le_rfl

lemma Spells.comma (h : Spells cs ts) : Spells (',' :: cs) (.comma :: ts) :=
  h.token (by decide) rfl le_rfl

lemma Spells.colon (h : Spells cs ts) : Spells (':' :: cs) (.colon :: ts) :=
  h.token (by decide) rfl le_rfl

/-- A string in front of other tokens. -/
lemma Spells.string (h : Spells cs ts) (s : String) :
    Spells (stringText s ++ cs) (.string (some s) :: ts) := by
  obtain ⟨pieces, hscan, hdecode⟩ := scanPieces_text s.toList cs
  have htext : stringText s ++ cs = '"' :: (s.toList.flatMap escapeChar ++ '"' :: cs) := by
    simp [stringText]
  rw [htext]
  refine h.token (by decide) ?_ (by simp; omega)
  rw [scanToken, hscan]
  simp only [hdecode, Option.map_some, String.ofList_toList]

/-- The token of a scalar that is not a floating point number. -/
def scalarToken : Scalar → Token
  | .null => .null
  | .bool b => .bool b
  | .int n => .number ⟨n.toInt < 0, natDigits n.toInt.natAbs, none, none⟩
  | .float _ => .bad
  | .string s => .string (some s)

/-- What starts with a sign or a digit starts with nothing else. -/
lemma ne_of_start (hc : c = '-' ∨ c.isDigit = true) {d : Char} (hd : d ≠ '-')
    (hdigit : d.isDigit = false) : c ≠ d := by
  rintro rfl
  rcases hc with hc | hc
  · exact hd hc
  · rw [hc] at hdigit
    exact absurd hdigit (by simp)

/-- A sign or a digit starts a number. -/
lemma scanToken_number (hc : c = '-' ∨ c.isDigit = true) {n : Numeral}
    (h : scanNumber (c :: cs) = some (n, rest)) : scanToken (c :: cs) = some (.number n, rest) := by
  rw [scanToken.eq_def]
  split
  case h_11 => rw [h]
  -- all other tokens begin with a character that is neither
  all_goals
    rename_i heq
    exact absurd (List.cons.inj heq).1 (ne_of_start hc (by decide) (by decide))

/-- The text of an integer starts with a sign or a digit. -/
lemma intText_eq_cons (n : Int) :
    ∃ c cs, (intText n).toList = c :: cs ∧ (c = '-' ∨ c.isDigit = true) := by
  rw [intText, String.toList_ofList]
  split
  · exact ⟨'-', _, rfl, Or.inl rfl⟩
  · obtain ⟨c, cs, hcs⟩ := List.exists_cons_of_ne_nil (natDigits_ne_nil n.natAbs)
    refine ⟨c, cs, hcs, Or.inr (isDigit_of_mem_natDigits (n := n.natAbs) ?_)⟩
    rw [hcs]
    exact List.mem_cons_self

lemma isSpace_eq_false (hc : c = '-' ∨ c.isDigit = true) : isSpace c = false := by
  have hne : c ≠ ' ' ∧ c ≠ '\t' ∧ c ≠ '\n' ∧ c ≠ '\r' := by
    refine ⟨?_, ?_, ?_, ?_⟩ <;> exact ne_of_start hc (by decide) (by decide)
  simp [isSpace, hne]

lemma Spells.int (h : Spells cs ts) (n : Int64) (hcs : EndsNumber cs) :
    Spells ((intText n.toInt).toList ++ cs) (scalarToken (.int n) :: ts) := by
  have hscan := scanNumber_intText n.toInt hcs
  obtain ⟨c, digits, htext, hc⟩ := intText_eq_cons n.toInt
  rw [htext, List.cons_append] at hscan ⊢
  refine h.token (isSpace_eq_false hc) (scanToken_number hc hscan) ?_
  rw [List.length_append]
  exact Nat.le_add_left _ _

/-- A scalar in front of other tokens. -/
lemma Spells.scalar (h : Spells cs ts) {value : Scalar} (hvalue : value.isExact = true)
    (hcs : EndsNumber cs) : Spells (scalarText value ++ cs) (scalarToken value :: ts) := by
  cases value with
  | null =>
    show Spells ('n' :: 'u' :: 'l' :: 'l' :: cs) (.null :: ts)
    exact h.token (by decide) (by rw [scanToken]) (by simp only [List.length_cons]; omega)
  | bool b =>
    cases b with
    | false =>
      show Spells ('f' :: 'a' :: 'l' :: 's' :: 'e' :: cs) (.bool false :: ts)
      exact h.token (by decide) (by rw [scanToken]) (by simp only [List.length_cons]; omega)
    | true =>
      show Spells ('t' :: 'r' :: 'u' :: 'e' :: cs) (.bool true :: ts)
      exact h.token (by decide) (by rw [scanToken]) (by simp only [List.length_cons]; omega)
  | int n => exact h.int n hcs
  | float x => exact absurd hvalue (by simp [Scalar.isExact])
  | string s => exact h.string s

/-- The numeral of a 64-bit integer denotes the integer. -/
lemma number?_int (n : Int64) :
    number? ⟨n.toInt < 0, natDigits n.toInt.natAbs, none, none⟩ = some (.int n) := by
  have hlow := n.minValue_le_toInt
  have hhigh := n.toInt_le
  have hmax : Int64.maxValue.toInt = 9223372036854775807 := by decide
  have hvalue : (Numeral.mk (n.toInt < 0) (natDigits n.toInt.natAbs) none none).toInt = n.toInt := by
    rw [Numeral.toInt]
    dsimp only
    rw [digitsValue_natDigits]
    split
    · rename_i hn
      have hn := of_decide_eq_true hn
      omega
    · rename_i hn
      have hn := of_decide_eq_false (Bool.eq_false_iff.2 hn)
      omega
  have hfits : n.toInt.toNat < UInt64.size := by
    have hsize : UInt64.size = 18446744073709551616 := rfl
    omega
  have hamount : amount? ⟨n.toInt < 0, natDigits n.toInt.natAbs, none, none⟩ =
      some (.integer n.toInt) := by
    rw [amount?, hvalue]
    refine if_pos ⟨rfl, ?_, hlow, hfits⟩
    rintro ⟨hn, hzero⟩
    have hn := of_decide_eq_true hn
    omega
  rw [number?, hamount]
  simp only [int64?_toInt, Option.map_some, Option.getD_some]

/-- The token of a scalar is read as the scalar. -/
lemma readScalar_scalarToken {value : Scalar} (hvalue : value.isExact = true) (limit : Option Nat)
    (ts : List Token) : readScalar limit (scalarToken value :: ts) = .ok (value, ts) := by
  cases value with
  | null => rfl
  | bool b => rfl
  | int n => rw [scalarToken, readScalar, number?_int]
  | float x => exact absurd hvalue (by simp [Scalar.isExact])
  | string s => rfl

end VariantFold.Json
