/-
Settings that are written with JSON.

A setting is cut at its first equals sign, so a key without one is read back whatever follows it.  The value
is read as JSON first, and only what is no JSON scalar is taken as it stands.  So the JSON text of a scalar is
always read as the scalar: a string in quotes is never taken with its quotes, and a string whose text spells
something else, such as `true`, can still be given.  A text that is a JSON scalar is never read as itself, since
a string is shorter than any text that spells it (`Json.length_lt_of_readScalar`).

The main result is `readAssignment_json`.
-/
import VariantFold.Proofs.JsonTokens
import VariantFold.Variants.Basic

namespace VariantFold

/-! ### Cutting at a separator -/

/-- The first separator is the one that follows a text without any. -/
lemma Text.cutFirst_append {sep : Char} {before : String} (h : sep ∉ before.toList) (after : String) :
    cutFirst sep (before ++ String.singleton sep ++ after) = some (before, after) := by
  have htext : (before ++ String.singleton sep ++ after).toList =
      before.toList ++ sep :: after.toList := by simp
  have hall : ∀ c ∈ before.toList, (decide (c ≠ sep)) = true := by
    intro c hc
    exact decide_eq_true fun heq => h (heq ▸ hc)
  rw [cutFirst, htext, if_pos (by simp), List.takeWhile_append_of_pos hall,
    List.dropWhile_append_of_pos hall, List.takeWhile_cons_of_neg (by simp),
    List.dropWhile_cons_of_neg (by simp), List.append_nil, List.drop_one, List.tail_cons,
    String.ofList_toList, String.ofList_toList]

/-! ### Texts and the strings that they spell -/

namespace Json

/-- Every piece takes a character, and so does the closing quote. -/
lemma length_scanPieces {cs rest : List Char} {pieces : List Piece}
    (h : scanPieces cs = some (pieces, rest)) : pieces.length + rest.length < cs.length := by
  fun_induction scanPieces cs generalizing pieces rest with
  | case1 => exact absurd h (by simp)
  | case2 tail =>
    obtain ⟨rfl, rfl⟩ := Prod.mk.inj (Option.some_injective _ h)
    simp
  | case3 a b c d tail n more after hscan hn ih =>
    obtain ⟨rfl, rfl⟩ := Prod.mk.inj (Option.some_injective _ h)
    have hlt := ih hscan
    simp only [List.length_cons]
    omega
  | case4 => exact absurd h (by simp)
  | case5 c tail _ d more after hscan hd ih =>
    obtain ⟨rfl, rfl⟩ := Prod.mk.inj (Option.some_injective _ h)
    have hlt := ih hscan
    simp only [List.length_cons]
    omega
  | case6 => exact absurd h (by simp)
  | case7 => exact absurd h (by simp)
  | case8 c tail _ _ _ hc more after hscan ih =>
    obtain ⟨rfl, rfl⟩ := Prod.mk.inj (Option.some_injective _ h)
    have hlt := ih hscan
    simp only [List.length_cons]
    omega
  | case9 => exact absurd h (by simp)

/-- A character takes a piece or two. -/
lemma length_decodePieces {pieces : List Piece} {cs : List Char}
    (h : decodePieces pieces = some cs) : cs.length ≤ pieces.length := by
  fun_induction decodePieces pieces generalizing cs with
  | case1 =>
    obtain rfl := Option.some_injective _ h
    simp
  | case2 c rest ih =>
    obtain ⟨cs, hcs, rfl⟩ := Option.map_eq_some_iff.1 h
    simpa using ih hcs
  | case3 n m rest _ _ ih =>
    obtain ⟨cs, hcs, rfl⟩ := Option.map_eq_some_iff.1 h
    have hle := ih hcs
    simp only [List.length_cons]
    omega
  | case4 => exact absurd h (by simp)
  | case5 => exact absurd h (by simp)
  | case6 n m rest _ _ ih =>
    obtain ⟨cs, hcs, rfl⟩ := Option.map_eq_some_iff.1 h
    simpa using ih hcs
  | case7 => exact absurd h (by simp)
  | case8 n rest _ _ ih =>
    obtain ⟨cs, hcs, rfl⟩ := Option.map_eq_some_iff.1 h
    simpa using ih hcs

/-- The quotes are not part of the string. -/
lemma length_lt_of_scanToken {cs rest : List Char} {s : String}
    (h : scanToken cs = some (.string (some s), rest)) : s.length < cs.length := by
  rw [scanToken.eq_def] at h
  split at h
  case h_10 tail =>
    split at h
    · rename_i pieces after hscan
      obtain ⟨htoken, rfl⟩ := Prod.mk.inj (Option.some_injective _ h)
      obtain ⟨cs, hdecode, rfl⟩ := Option.map_eq_some_iff.1 (Token.string.inj htoken)
      have hle := length_decodePieces hdecode
      have hlt := length_scanPieces hscan
      rw [String.length_ofList, List.length_cons]
      omega
    · exact absurd h (by simp)
  case h_11 =>
    split at h
    · exact absurd (Prod.mk.inj (Option.some_injective _ h)).1 (by simp)
    · exact absurd h (by simp)
  -- all other tokens are no strings
  all_goals exact absurd (Prod.mk.inj (Option.some_injective _ h)).1 (by simp)

lemma length_lt_of_scan {limit : Nat} {cs : List Char} {s : String} {ts : List Token}
    (h : scan limit cs = .string (some s) :: ts) : s.length < cs.length := by
  induction limit generalizing cs with
  | zero => exact absurd h (by simp [scan])
  | succ limit ih =>
    rcases cs with _ | ⟨c, cs⟩
    · exact absurd h (by simp [scan])
    · rw [scan] at h
      split at h
      · exact (ih h).trans (Nat.lt_succ_self cs.length)
      · split at h
        · rename_i token rest hscan
          rw [(List.cons.inj h).1] at hscan
          exact length_lt_of_scanToken hscan
        · exact absurd (List.cons.inj h).1 (by simp)

/-- Only the token of a string is read as a string. -/
lemma readScalar_eq_string {limit : Option Nat} {ts rest : List Token} {s : String}
    (h : readScalar limit ts = .ok (.string s, rest)) : ts = .string (some s) :: rest := by
  rw [readScalar.eq_def] at h
  split at h
  · exact absurd (Prod.mk.inj (Except.ok.inj h)).1 (by simp)
  · exact absurd (Prod.mk.inj (Except.ok.inj h)).1 (by simp)
  · obtain ⟨hs, rfl⟩ := Prod.mk.inj (Except.ok.inj h)
    rw [Scalar.string.inj hs]
  · rename_i n tail
    split at h
    · rename_i value hvalue
      rw [(Prod.mk.inj (Except.ok.inj h)).1] at hvalue
      rw [number?] at hvalue
      split at hvalue
      · rename_i i _
        cases hint : int64? i with
        | none => exact absurd hvalue (by simp [hint])
        | some j => exact absurd hvalue (by simp [hint])
      · exact absurd hvalue (by simp)
      · exact absurd hvalue (by simp)
    · exact absurd h (by simp)
  · split at h
    · exact absurd h (by simp)
    · exact absurd h (by simp)

/-- A string is shorter than a text that spells it. -/
lemma length_lt_of_readScalar {limit : Option Nat} {text s : String}
    (h : whole (readScalar limit (tokens text)) = .ok (.string s)) : s.length < text.length := by
  rw [whole.eq_def] at h
  split at h
  · rename_i value hread
    rw [Except.ok.inj h] at hread
    have hlt := length_lt_of_scan (readScalar_eq_string hread)
    rwa [String.length_toList] at hlt
  · exact absurd h (by simp)
  · exact absurd h (by simp)

end Json

/-! ### Values -/

/-- The JSON text of a scalar. -/
def Scalar.jsonText (v : Scalar) : String := String.ofList (Json.scalarText v)

namespace Variants

variable {key : String} {v : Scalar}

/-- A JSON text is read as what it was written for, and is not taken as it stands. -/
lemma assignedValue_jsonText (hv : v.isExact = true) : assignedValue v.jsonText = v := by
  have htokens : Json.tokens v.jsonText = [Json.scalarToken v] := by
    refine Json.Spells.tokens_eq ?_
    rw [Scalar.jsonText, String.toList_ofList, ← List.append_nil (Json.scalarText v)]
    exact Json.spells_nil.scalar hv (by simp [Json.EndsNumber])
  rw [assignedValue, htokens, Json.readScalar_scalarToken hv]
  rfl

lemma readAssignment_append (hkey : key ≠ "") (hequals : '=' ∉ key.toList) (text : String) :
    readAssignment (key ++ "=" ++ text) = .ok (key, assignedValue text) := by
  have hcut : Text.cutFirst '=' (key ++ "=" ++ text) = some (key, text) :=
    Text.cutFirst_append hequals text
  rw [readAssignment, hcut]
  exact if_neg hkey

/-- A text is taken as it stands exactly if it is no JSON scalar. -/
lemma assignedValue_eq_string_iff (text : String) : assignedValue text = .string text ↔
    ∀ v, Json.whole (Json.readScalar (some nestingLimit) (Json.tokens text)) ≠ .ok v := by
  rw [assignedValue]
  cases hread : Json.whole (Json.readScalar (some nestingLimit) (Json.tokens text)) with
  | error e => simp
  | ok v =>
    have hne : v ≠ .string text := by
      rintro rfl
      exact absurd (Json.length_lt_of_readScalar hread) (Nat.lt_irrefl text.length)
    simp [hne]

/-- A setting of a key with the JSON text of a scalar for its value gives the key the scalar.  In particular
each string can be given to a key by its JSON text; the string itself in its place does not do, exactly if it is
read as a JSON scalar. -/
theorem readAssignment_json (hkey : key ≠ "") (hequals : '=' ∉ key.toList) :
    (∀ v : Scalar, v.isExact = true → readAssignment (key ++ "=" ++ v.jsonText) = .ok (key, v)) ∧
    ∀ s : String,
      readAssignment (key ++ "=" ++ (Scalar.string s).jsonText) = .ok (key, .string s) ∧
      (readAssignment (key ++ "=" ++ s) ≠ .ok (key, .string s) ↔
        ∃ v, Json.whole (Json.readScalar (some nestingLimit) (Json.tokens s)) = .ok v) := by
  have hread : ∀ v : Scalar, v.isExact = true →
      readAssignment (key ++ "=" ++ v.jsonText) = .ok (key, v) := by
    intro v hv
    rw [readAssignment_append hkey hequals, assignedValue_jsonText hv]
  refine ⟨hread, fun s => ⟨hread (.string s) rfl, ?_⟩⟩
  have hbare : readAssignment (key ++ "=" ++ s) = .ok (key, .string s) ↔
      assignedValue s = .string s := by
    rw [readAssignment_append hkey hequals]
    simp
  rw [ne_eq, hbare, assignedValue_eq_string_iff]
  push Not
  rfl

/-- A string with an equals sign and quotes, the least integer, and a string that looks like a truth value. -/
theorem readAssignment_json_quotes :
    "qx.mode" ≠ "" ∧ '=' ∉ "qx.mode".toList ∧
    readAssignment "qx.mode=\"a=\\\"b\\\"\"" = .ok ("qx.mode", .string "a=\"b\"") ∧
    readAssignment "qx.mode=-9223372036854775808" = .ok ("qx.mode", .int Int64.minValue) ∧
    readAssignment "qx.mode=true" ≠ .ok ("qx.mode", .string "true") ∧
    readAssignment "qx.mode=\"true\"" = .ok ("qx.mode", .string "true") := by
  have hkey : "qx.mode" ≠ "" := by decide
  have hequals : '=' ∉ "qx.mode".toList := by decide
  obtain ⟨hread, hstring⟩ := readAssignment_json hkey hequals
  refine ⟨hkey, hequals, hread (.string "a=\"b\"") rfl, hread (.int Int64.minValue) rfl, ?_,
    (hstring "true").1⟩
  exact (hstring "true").2.2 ⟨.bool true, by decide +kernel⟩

end Variants

end VariantFold
