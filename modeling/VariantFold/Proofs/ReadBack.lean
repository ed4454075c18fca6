/-
Texts that are read back.

What is written can be read again: the fields of a text give the text when they are joined, the text of
an integer gives the integer, and the literal of a scalar gives the scalar, floating point numbers left
out.
-/
import VariantFold.CallSite
import VariantFold.Proofs.NewNodes

namespace VariantFold

/-! ### Fields -/

namespace Text

variable {sep : Char} {cs ds : List Char}

lemma pieces_append (sep : Char) (cs ds : List Char) :
    pieces sep (cs ++ sep :: ds) = pieces sep cs ++ pieces sep ds := by
  induction cs with
  | nil => simp [pieces]
  | cons c cs ih =>
    rw [List.cons_append, pieces, pieces, ih]
    split
    · rfl
    · rcases hpieces : pieces sep cs with _ | ⟨first, others⟩
      · exact absurd hpieces (pieces_ne_nil sep cs)
      · rfl

lemma pieces_of_not_mem (h : sep ∉ cs) : pieces sep cs = [cs] := by
  induction cs with
  | nil => rfl
  | cons c cs ih =>
    obtain ⟨hc, hcs⟩ := not_or.1 (mt List.mem_cons.2 h)
    rw [pieces, if_neg (Ne.symm hc), ih hcs]

lemma intercalate_pieces (sep : Char) (cs : List Char) :
    [sep].intercalate (pieces sep cs) = cs := by
  induction cs with
  | nil => rfl
  | cons c cs ih =>
    rw [pieces]
    split
    · rename_i hc
      rw [List.intercalate_cons_of_ne_nil (pieces_ne_nil sep cs), ih, hc]
      rfl
    · rcases hpieces : pieces sep cs with _ | ⟨first, others⟩
      · exact absurd hpieces (pieces_ne_nil sep cs)
      · rw [hpieces] at ih
        rw [List.intercalate_cons_cons_left, ih]

/-- The fields of a text, joined again. -/
lemma intercalate_fields (s : String) : ".".intercalate (fields '.' s) = s := by
  refine String.toList_injective ?_
  rw [String.toList_intercalate, fields, List.map_map]
  have hmap : (pieces '.' s.toList).map (String.toList ∘ String.ofList) = pieces '.' s.toList := by
    simp
  rw [hmap]
  exact intercalate_pieces '.' s.toList

/-- A text without a separator is one more field. -/
lemma fields_append (s s' : String) (h : '.' ∉ s'.toList) :
    fields '.' (s ++ "." ++ s') = fields '.' s ++ [s'] := by
  have hlist : (s ++ "." ++ s').toList = s.toList ++ '.' :: s'.toList := by simp
  rw [fields, hlist, pieces_append, pieces_of_not_mem h, List.map_append, fields]
  simp

end Text

lemma Method.ofName?_name (m : Method) : Method.ofName? m.name = some m := by
  cases m <;> decide

/-- The parts of what is called to ask for a variant. -/
lemma Method.fields_callee (space : String) (m : Method) :
    Text.fields '.' (space ++ "." ++ m.name) = Text.fields '.' space ++ [m.name] :=
  Text.fields_append space m.name (by cases m <;> decide)

/-! ### Numbers -/

lemma digitsValue_natDigits (n : Nat) : digitsValue (natDigits n) = n :=
  Nat.ofDigitChars_ten_toDigits

lemma isDigit_of_mem_natDigits {n : Nat} {c : Char} (h : c ∈ natDigits n) : c.isDigit = true :=
  Nat.isDigit_of_mem_toDigits (by decide) (by decide) h

lemma natDigits_ne_nil (n : Nat) : natDigits n ≠ [] := Nat.toDigits_ne_nil

lemma digitChar_ne_zero : ∀ n < 10, n ≠ 0 → Nat.digitChar n ≠ '0' := by decide

/-- A number that is not zero has no zero in front. -/
lemma head?_natDigits {n : Nat} (hn : n ≠ 0) : (natDigits n).head? ≠ some '0' := by
  induction n using Nat.strong_induction_on with
  | _ n ih =>
    by_cases hlt : n < 10
    · rw [natDigits, Nat.toDigits_of_lt_base hlt, List.head?_cons]
      exact fun h => digitChar_ne_zero n hlt hn (Option.some_injective _ h)
    · -- all but the last digit are the digits of a smaller number
      have hparts : natDigits n = natDigits (n / 10) ++ natDigits (n % 10) := by
        rw [natDigits, natDigits, natDigits, Nat.toDigits_append_toDigits (by decide) (by omega)
          (Nat.mod_lt n (by decide)), Nat.div_add_mod]
      rw [hparts, List.head?_append_of_ne_nil _ (natDigits_ne_nil _)]
      exact ih (n / 10) (by omega) (by omega)

lemma head_isDigit {digits : List Char} (hne : digits ≠ []) (hdigits : ∀ c ∈ digits, c.isDigit = true)
    (rest : List Char) : ∃ c ∈ (digits ++ rest).head?, c.isDigit = true := by
  obtain ⟨c, cs, rfl⟩ := List.exists_cons_of_ne_nil hne
  exact ⟨c, rfl, hdigits c List.mem_cons_self⟩

/-- Digits have no sign in front. -/
lemma spanSign_of_isDigit {cs : List Char} (h : ∃ c ∈ cs.head?, c.isDigit = true) :
    spanSign cs = (false, cs) := by
  obtain ⟨c, hc, hdigit⟩ := h
  rw [spanSign.eq_def]
  split
  · rw [← Option.some_injective _ hc] at hdigit
    exact absurd hdigit (by decide)
  · rw [← Option.some_injective _ hc] at hdigit
    exact absurd hdigit (by decide)
  · rfl

lemma spanSign_natDigits (n : Nat) : spanSign (natDigits n) = (false, natDigits n) := by
  have h := head_isDigit (natDigits_ne_nil n) (fun c => isDigit_of_mem_natDigits) []
  rw [List.append_nil] at h
  exact spanSign_of_isDigit h

/-- Digits end where no digit follows. -/
lemma spanDigits_append {digits rest : List Char} (hdigits : ∀ c ∈ digits, c.isDigit = true)
    (hrest : ∀ c ∈ rest.head?, c.isDigit = false) : spanDigits (digits ++ rest) = (digits, rest) := by
  have htake : rest.takeWhile Char.isDigit = [] ∧ rest.dropWhile Char.isDigit = rest := by
    rcases rest with _ | ⟨c, rest⟩
    · exact ⟨rfl, rfl⟩
    · have hc := hrest c rfl
      exact ⟨List.takeWhile_cons_of_neg (by simp [hc]), List.dropWhile_cons_of_neg (by simp [hc])⟩
  rw [spanDigits, List.takeWhile_append_of_pos hdigits, List.dropWhile_append_of_pos hdigits,
    htake.1, htake.2, List.append_nil]

lemma readInt?_intText (n : Int) : readInt? (intText n).toList = some n := by
  have hdigits : natDigits n.natAbs ≠ [] ∧ (natDigits n.natAbs).all Char.isDigit = true :=
    ⟨natDigits_ne_nil _, List.all_eq_true.2 fun _ => isDigit_of_mem_natDigits⟩
  rw [intText, String.toList_ofList, readInt?]
  by_cases hn : n < 0
  · rw [if_pos hn, spanSign]
    dsimp only
    rw [if_pos hdigits, if_pos rfl, digitsValue_natDigits]
    exact congrArg some (by omega)
  · rw [if_neg hn, spanSign_natDigits]
    dsimp only
    rw [if_pos hdigits, if_neg (by simp), digitsValue_natDigits]
    exact congrArg some (by omega)

lemma int64?_toInt (n : Int64) : int64? n.toInt = some n := by
  rw [int64?, if_pos ⟨n.minValue_le_toInt, n.toInt_le⟩, Int64.ofInt_toInt]

/-- The text of an integer is read as the integer. -/
lemma readInt64?_intText (n : Int64) : readInt64? (intText n.toInt) = some n := by
  rw [readInt64?, readInt?_intText]
  exact int64?_toInt n

/-! ### Literals -/

/-- Whether the literal of a scalar is exact: floating point numbers are left out. -/
def Scalar.isExact : Scalar → Bool
  | .float _ => false
  | _ => true

lemma ConstantType.ofName?_name (type : ConstantType) : ofName? type.name = some type := by
  cases type <;> decide

namespace Node

variable {n : Node} {type : ConstantType} {text : String} {value : Scalar}

/-- What the attributes of a constant say, with or without a detail. -/
structure IsLiteral (n : Node) (type : ConstantType) (text : String) : Prop where
  kind_eq : n.kind = .constant
  type_eq : n.str? Attr.constantType = some type.name
  text_eq : n.str? Attr.value = some text

lemma IsLiteral.of_attributes (hkind : n.kind = .constant) (has : n.attributes = type.attributes text) :
    n.IsLiteral type text := by
  refine ⟨hkind, ?_, ?_⟩ <;>
    simp [str?, get?, has, ConstantType.attributes, KeyMap.get?_insert, Attr.constantType, Attr.value,
      Scalar.str?]

lemma IsLiteral.of_detail {detail : String} (hkind : n.kind = .constant)
    (has : n.attributes = (type.attributes text).insert Attr.detail (.string detail)) :
    n.IsLiteral type text ∧ n.str? Attr.detail = some detail := by
  refine ⟨⟨hkind, ?_, ?_⟩, ?_⟩ <;>
    simp [str?, get?, has, ConstantType.attributes, KeyMap.get?_insert, Attr.constantType, Attr.value,
      Attr.detail, Scalar.str?]

lemma IsLiteral.constantType?_eq (h : n.IsLiteral type text) : n.constantType? = some type := by
  rw [constantType?, isConstant, if_pos (decide_eq_true h.kind_eq), h.type_eq]
  exact type.ofName?_name

lemma IsLiteral.literalText_eq (h : n.IsLiteral type text) : n.literalText = text := by
  rw [literalText, h.text_eq]
  rfl

/-- The literal of a string is a string literal with that text. -/
lemma isStringLiteral_literal {s : String} (hkind : n.kind = .constant)
    (has : n.attributes = (Scalar.string s).literalAttributes) :
    n.isStringLiteral = true ∧ n.literalText = s := by
  obtain ⟨h, -⟩ := IsLiteral.of_detail hkind has
  exact ⟨decide_eq_true h.constantType?_eq, h.literalText_eq⟩

/-- The other attributes do not show a source line. -/
lemma str?_withLine {as : Attributes} {line : Option Int64} {attr : String}
    (has : n.attributes = as.withLine line) (hattr : Attr.line ≠ attr) :
    n.str? attr = ({ n with attributes := as } : Node).str? attr := by
  cases line with
  | none => rw [str?, str?, get?, get?, has, Attributes.withLine]
  | some line =>
    rw [str?, str?, get?, get?, has, Attributes.withLine, KeyMap.get?_insert, if_neg hattr]

/-- A source line makes no difference. -/
lemma IsLiteral.withLine {as : Attributes} {line : Option Int64}
    (h : ({ n with attributes := as } : Node).IsLiteral type text)
    (has : n.attributes = as.withLine line) : n.IsLiteral type text :=
  ⟨h.kind_eq, (str?_withLine has (by decide)).trans h.type_eq,
    (str?_withLine has (by decide)).trans h.text_eq⟩

/-- The literal of a scalar is a string literal only for a string, and then has its text. -/
lemma exists_isLiteral (hkind : n.kind = .constant) (has : n.attributes = value.literalAttributes) :
    ∃ type text, n.IsLiteral type text ∧ (type = .string → value = .string text) := by
  cases value with
  | null => exact ⟨_, _, IsLiteral.of_attributes hkind has, by simp⟩
  | bool b => exact ⟨_, _, IsLiteral.of_attributes hkind has, by simp⟩
  | int k => exact ⟨_, _, (IsLiteral.of_detail hkind has).1, by simp⟩
  | float x => exact ⟨_, _, (IsLiteral.of_detail hkind has).1, by simp⟩
  | string s => exact ⟨_, s, (IsLiteral.of_detail hkind has).1, fun _ => rfl⟩

lemma eq_string_of_isStringLiteral {line : Option Int64} (hkind : n.kind = .constant)
    (has : n.attributes = value.literalAttributes.withLine line) (hlit : n.isStringLiteral = true) :
    value = .string n.literalText := by
  obtain ⟨type, text, h, hstring⟩ :=
    exists_isLiteral (n := { n with attributes := value.literalAttributes }) hkind rfl
  have h' := h.withLine has
  rw [isStringLiteral, h'.constantType?_eq, decide_eq_true_eq, Option.some_inj] at hlit
  rw [h'.literalText_eq, hstring hlit]

/-- The literal of a scalar denotes the scalar. -/
lemma decode?_literal (hkind : n.kind = .constant) (has : n.attributes = value.literalAttributes)
    (hexact : value.isExact = true) : n.decode? = some value := by
  cases value with
  | null =>
    have h := IsLiteral.of_attributes hkind has
    rw [decode?, h.constantType?_eq]
  | bool b =>
    have h := IsLiteral.of_attributes hkind has
    rw [decode?, h.constantType?_eq, h.text_eq]
    cases b <;> rfl
  | int k =>
    obtain ⟨h, hdetail⟩ := IsLiteral.of_detail hkind has
    rw [decode?, h.constantType?_eq, h.text_eq, hdetail]
    change decodeNumber? (some intDetail) (intText k.toInt) = _
    rw [decodeNumber?, if_pos rfl, readInt64?_intText]
    rfl
  | float x => exact absurd hexact (by simp [Scalar.isExact])
  | string s =>
    obtain ⟨h, -⟩ := IsLiteral.of_detail hkind has
    rw [decode?, h.constantType?_eq, h.literalText_eq]

/-- So does a literal with a source line. -/
lemma decode?_literal_withLine {line : Option Int64} (hkind : n.kind = .constant)
    (has : n.attributes = value.literalAttributes.withLine line) (hexact : value.isExact = true) :
    n.decode? = some value := by
  have hplain : ({ n with attributes := value.literalAttributes } : Node).decode? = some value :=
    decode?_literal hkind rfl hexact
  rw [← hplain]
  exact decode?_congr rfl (str?_withLine has (by decide)) (str?_withLine has (by decide))
    (str?_withLine has (by decide))

/-- The source line of a literal is the one that it was given. -/
lemma line?_literal {line : Option Int64}
    (has : n.attributes = value.literalAttributes.withLine line) : n.line? = line := by
  cases line with
  | none =>
    rw [line?, get?, has, Attributes.withLine]
    cases value <;>
      simp [Scalar.literalAttributes, ConstantType.attributes, KeyMap.get?_insert, Attr.line,
        Attr.constantType, Attr.value, Attr.detail]
  | some line =>
    rw [line?, get?, has, Attributes.withLine, KeyMap.get?_insert, if_pos rfl]
    rfl

end Node

end VariantFold
