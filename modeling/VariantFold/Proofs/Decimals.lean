/-
Decimals and the texts that are written for them.

A decimal denotes a number (`Decimal.value`), which does not depend on the zeros at its end.  A layout may
write it in plain form or with an exponent, and with more or fewer zeros; the text is read as a numeral that
denotes the same number (`Layout.readsAs_body`).
-/
import Mathlib
import VariantFold.Decimal.Layout
import VariantFold.Proofs.ReadBack

namespace VariantFold

/-! ### Digits -/

lemma digitsValue_append (l l' : List Char) :
    digitsValue (l ++ l') = 10 ^ l'.length * digitsValue l + digitsValue l' :=
  (Nat.ofDigitChars_append 0).trans Nat.ofDigitChars_eq_ofDigitChars_zero

lemma length_zeros (n : ℕ) : (Layout.zeros n).length = n := List.length_replicate

lemma digitsValue_zeros (n : ℕ) : digitsValue (Layout.zeros n) = 0 :=
  Nat.ofDigitChars_replicate_zero

lemma digitsValue_append_zeros (l : List Char) (n : ℕ) :
    digitsValue (l ++ Layout.zeros n) = 10 ^ n * digitsValue l := by
  rw [digitsValue_append, digitsValue_zeros, length_zeros, Nat.add_zero]

lemma digitsValue_zeros_append (n : ℕ) (l : List Char) :
    digitsValue (Layout.zeros n ++ l) = digitsValue l := by
  rw [digitsValue_append, digitsValue_zeros, Nat.mul_zero, Nat.zero_add]

lemma isDigit_of_mem_zeros {n : ℕ} {c : Char} (hc : c ∈ Layout.zeros n) : c.isDigit = true := by
  rw [List.eq_of_mem_replicate hc]
  rfl

lemma toLower_of_isDigit {c : Char} (hc : c.isDigit = true) : c.toLower = c := by
  have hle : c.val ≤ '9'.val := (by simpa [Char.isDigit] using hc : _ ∧ _).2
  rw [Char.toLower, dif_neg fun h => absurd (UInt32.le_trans h.1 hle) (by decide)]

/-- The number of digits tells the next power of ten. -/
lemma natDigits_bounds {n : ℕ} (hn : n ≠ 0) :
    (10 : ℚ) ^ (((natDigits n).length : ℤ) - 1) ≤ n ∧ (n : ℚ) < 10 ^ ((natDigits n).length : ℤ) := by
  have hpos : 0 < (natDigits n).length := Nat.length_toDigits_pos
  have hbound {k : ℕ} (hk : 0 < k) : (natDigits n).length ≤ k ↔ n < 10 ^ k :=
    Nat.length_toDigits_le_iff (by decide) hk
  constructor
  · obtain ⟨k, hk⟩ : ∃ k, (natDigits n).length = k + 1 := ⟨_, (Nat.sub_add_cancel hpos).symm⟩
    have hle : 10 ^ k ≤ n := by
      rcases Nat.eq_zero_or_pos k with rfl | hkpos
      · exact Nat.one_le_iff_ne_zero.2 hn
      · exact not_lt.1 fun hlt => absurd ((hbound hkpos).2 hlt) (by omega)
    rw [hk, Nat.cast_succ, add_sub_cancel_right, zpow_natCast]
    exact_mod_cast hle
  · rw [zpow_natCast]
    exact_mod_cast (hbound hpos).1 le_rfl

namespace Decimal

/-- The number that a decimal denotes. -/
def value (d : Decimal) : ℚ := digitsValue d.digits * 10 ^ (d.exponent + 1 - d.digits.length)

/-- There are digits, and nothing else. -/
structure IsProper (d : Decimal) : Prop where
  ne_nil : d.digits ≠ []
  isDigit : ∀ c ∈ d.digits, c.isDigit = true

/-- Zeros at the end are left out, and no others. -/
lemma exists_ofScaled (n : ℕ) (scale : ℤ) : ∃ digits k, digits.getLast? ≠ some '0' ∧
    natDigits n = digits ++ Layout.zeros k ∧
    ofScaled n scale = ⟨if digits = [] then ['0'] else digits, scale + (digits.length + k) - 1⟩ := by
  have hsplit : natDigits n = ((natDigits n).reverse.dropWhile (· = '0')).reverse ++
      ((natDigits n).reverse.takeWhile (· = '0')).reverse := by
    rw [← List.reverse_append, List.takeWhile_append_dropWhile, List.reverse_reverse]
  have hzeros : ((natDigits n).reverse.takeWhile (· = '0')).reverse =
      Layout.zeros ((natDigits n).reverse.takeWhile (· = '0')).length := by
    rw [Layout.zeros, List.eq_replicate_iff]
    refine ⟨List.length_reverse, fun c hc => ?_⟩
    simpa using List.mem_takeWhile_imp (List.mem_reverse.1 hc)
  rw [hzeros] at hsplit
  have hlast : ((natDigits n).reverse.dropWhile (· = '0')).reverse.getLast? ≠ some '0' := by
    rw [List.getLast?_reverse]
    intro hhead
    have hnot := List.head?_dropWhile_not (fun c => decide (c = '0')) (natDigits n).reverse
    rw [hhead] at hnot
    simp at hnot
  refine ⟨_, _, hlast, hsplit, ?_⟩
  have hlen := congrArg List.length hsplit
  rw [List.length_append, length_zeros] at hlen
  rw [ofScaled, hlen, Nat.cast_add]

lemma isProper_ofScaled (n : ℕ) (scale : ℤ) : (ofScaled n scale).IsProper := by
  obtain ⟨digits, k, -, hn, heq⟩ := exists_ofScaled n scale
  rw [heq]
  refine ⟨?_, fun c hc => ?_⟩
  · dsimp only
    split_ifs with hnil
    · simp
    · exact hnil
  · dsimp only at hc
    split_ifs at hc with hnil
    · rw [List.mem_singleton.1 hc]
      rfl
    · exact isDigit_of_mem_natDigits (hn ▸ List.mem_append_left _ hc)

lemma value_ofScaled (n : ℕ) (scale : ℤ) : (ofScaled n scale).value = n * 10 ^ scale := by
  obtain ⟨digits, k, -, hn, heq⟩ := exists_ofScaled n scale
  have hvalue : n = 10 ^ k * digitsValue digits := by
    rw [← digitsValue_natDigits n, hn, digitsValue_append_zeros]
  rw [heq, value]
  dsimp only
  split_ifs with hnil
  · have hzero : n = 0 := by rw [hvalue, hnil]; rfl
    have hdigit : digitsValue ['0'] = 0 := rfl
    rw [hzero, hdigit, Nat.cast_zero, zero_mul, zero_mul]
  · have hexponent : scale + ((digits.length : ℤ) + k) - 1 + 1 - digits.length = scale + k := by ring
    rw [hexponent, zpow_add₀ (by norm_num), zpow_natCast, hvalue]
    push_cast
    ring

end Decimal

/-! ### Numerals -/

/-- The number that a numeral denotes, but for its sign. -/
def Numeral.value (n : Numeral) : ℚ :=
  digitsValue (n.whole ++ n.fraction.getD []) * 10 ^ (n.exponent.getD 0 - (n.fraction.getD []).length)

lemma readExponent?_text (exponent : ℤ) (plus : Bool) :
    readExponent? ('e' :: ((if exponent < 0 then ['-'] else if plus then ['+'] else []) ++
      natDigits exponent.natAbs)) = some (some exponent, []) := by
  have hspan : spanDigits (natDigits exponent.natAbs) = (natDigits exponent.natAbs, []) := by
    have h : spanDigits (natDigits exponent.natAbs ++ []) = (natDigits exponent.natAbs, []) :=
      spanDigits_append (fun c => isDigit_of_mem_natDigits) (by simp)
    rwa [List.append_nil] at h
  have hnil := natDigits_ne_nil exponent.natAbs
  have hsign : spanSign ((if exponent < 0 then ['-'] else if plus then ['+'] else []) ++
      natDigits exponent.natAbs) = (decide (exponent < 0), natDigits exponent.natAbs) := by
    split_ifs with hneg hplus
    · rw [decide_eq_true hneg]
      rfl
    · rw [decide_eq_false hneg]
      rfl
    · rw [decide_eq_false hneg]
      exact spanSign_natDigits _
  rw [readExponent?, if_pos (Or.inl rfl), hsign]
  dsimp only
  rw [hspan]
  dsimp only
  rw [if_neg hnil, digitsValue_natDigits]
  congr 3
  simp only [decide_eq_true_eq]
  split_ifs <;> omega

lemma spanSign_signed {cs : List Char} (hcs : ∃ c ∈ cs.head?, c.isDigit = true) (negative : Bool) :
    spanSign (if negative then '-' :: cs else cs) = (negative, cs) := by
  cases negative with
  | false => exact spanSign_of_isDigit hcs
  | true => rfl

/-- A text without a sign that is read as the number `v`. -/
structure ReadsAs (cs : List Char) (v : ℚ) : Prop where
  starts : ∃ c ∈ cs.head?, c.isDigit = true
  reads : ∀ negative, ∃ n, readDecimal? negative cs = some n ∧ n.negative = negative ∧ n.value = v

/-- What follows the digits of a number: nothing, or an exponent. -/
structure IsTail (tail : List Char) (exponent : Option ℤ) : Prop where
  reads : readExponent? tail = some (exponent, [])
  isDigit_eq : ∀ c ∈ tail.head?, c.isDigit = false
  ne_point : ∀ c ∈ tail.head?, c ≠ '.'

lemma isTail_nil : IsTail [] none := ⟨rfl, by simp, by simp⟩

lemma isTail_exponent (exponent : ℤ) (plus : Bool) :
    IsTail ('e' :: ((if exponent < 0 then ['-'] else if plus then ['+'] else []) ++
      natDigits exponent.natAbs)) (some exponent) :=
  ⟨readExponent?_text exponent plus, by simp, by simp⟩

section Parts

variable {whole fraction tail cs : List Char} {exponent : Option ℤ} {v : ℚ}

/-- Digits without a point. -/
lemma readDecimal?_whole (htail : IsTail tail exponent) (hne : whole ≠ [])
    (hwhole : ∀ c ∈ whole, c.isDigit = true) (negative : Bool) :
    readDecimal? negative (whole ++ tail) = some ⟨negative, whole, none, exponent⟩ := by
  rw [readDecimal?, spanDigits_append hwhole htail.isDigit_eq]
  dsimp only
  split
  · exact absurd rfl (htail.ne_point '.' rfl)
  · dsimp only
    rw [if_neg fun h => hne h.1, htail.reads]

/-- Digits with a point. -/
lemma readDecimal?_point (htail : IsTail tail exponent) (hne : whole ≠ [])
    (hwhole : ∀ c ∈ whole, c.isDigit = true) (hfraction : ∀ c ∈ fraction, c.isDigit = true)
    (negative : Bool) : readDecimal? negative (whole ++ '.' :: (fraction ++ tail)) =
      some ⟨negative, whole, some fraction, exponent⟩ := by
  rw [readDecimal?, spanDigits_append hwhole (by simp)]
  dsimp only
  split
  · rename_i rest heq
    obtain ⟨-, rfl⟩ := List.cons.inj heq
    rw [spanDigits_append hfraction htail.isDigit_eq]
    dsimp only
    rw [if_neg fun h => hne h.1, htail.reads]
  · rename_i h
    exact absurd rfl (h _)

lemma readsAs_whole (htail : IsTail tail exponent) (hcs : cs = whole ++ tail)
    (hv : v = digitsValue whole * 10 ^ exponent.getD 0) (hne : whole ≠ [])
    (hwhole : ∀ c ∈ whole, c.isDigit = true) : ReadsAs cs v := by
  subst hcs
  refine ⟨head_isDigit hne hwhole _,
    fun negative => ⟨_, readDecimal?_whole htail hne hwhole negative, rfl, ?_⟩⟩
  rw [hv, Numeral.value]
  simp

lemma readsAs_point (htail : IsTail tail exponent) (hcs : cs = whole ++ '.' :: (fraction ++ tail))
    (hv : v = digitsValue (whole ++ fraction) * 10 ^ (exponent.getD 0 - fraction.length))
    (hne : whole ≠ []) (hwhole : ∀ c ∈ whole, c.isDigit = true)
    (hfraction : ∀ c ∈ fraction, c.isDigit = true) : ReadsAs cs v := by
  subst hcs
  exact ⟨head_isDigit hne hwhole _,
    fun negative => ⟨_, readDecimal?_point htail hne hwhole hfraction negative, rfl, hv.symm⟩⟩

end Parts

/-! ### Layouts -/

namespace Layout

variable {d : Decimal}

/-- A number less than one in plain form: zeros between the point and the digits. -/
lemma readsAs_small (hd : d.IsProper) (hneg : d.exponent < 0) :
    ReadsAs ('0' :: '.' :: (zeros (-d.exponent - 1).toNat ++ d.digits)) d.value := by
  have hcs : '0' :: '.' :: (zeros (-d.exponent - 1).toNat ++ d.digits) =
      zeros 1 ++ '.' :: ((zeros (-d.exponent - 1).toNat ++ d.digits) ++ []) := by
    rw [List.append_nil]
    rfl
  refine readsAs_point isTail_nil hcs ?_ (by simp [zeros]) (fun c => isDigit_of_mem_zeros) ?_
  · rw [digitsValue_zeros_append, digitsValue_zeros_append, Decimal.value, List.length_append,
      length_zeros, Option.getD_none]
    congr 2
    omega
  · exact List.forall_mem_append.2 ⟨fun c => isDigit_of_mem_zeros, hd.isDigit⟩

/-- A whole number in plain form: zeros after the digits. -/
lemma readsAs_large (hd : d.IsProper) (point : Bool) (hnonneg : 0 ≤ d.exponent)
    (hlen : d.digits.length ≤ d.exponent.toNat + 1) :
    ReadsAs (d.digits ++ zeros (d.exponent.toNat + 1 - d.digits.length) ++
      (if point then ['.', '0'] else [])) d.value := by
  have hne : d.digits ++ zeros (d.exponent.toNat + 1 - d.digits.length) ≠ [] :=
    List.append_ne_nil_of_left_ne_nil hd.ne_nil _
  have hdigits : ∀ c ∈ d.digits ++ zeros (d.exponent.toNat + 1 - d.digits.length),
      c.isDigit = true :=
    List.forall_mem_append.2 ⟨hd.isDigit, fun c => isDigit_of_mem_zeros⟩
  have hvalue : d.value = digitsValue (d.digits ++ zeros (d.exponent.toNat + 1 - d.digits.length)) := by
    have hexponent : d.exponent + 1 - d.digits.length =
        ((d.exponent.toNat + 1 - d.digits.length : ℕ) : ℤ) := by omega
    rw [digitsValue_append_zeros, Decimal.value, hexponent, zpow_natCast]
    push_cast
    ring
  cases point with
  | false => exact readsAs_whole isTail_nil rfl (by simp [hvalue]) hne hdigits
  | true =>
    have hcs : d.digits ++ zeros (d.exponent.toNat + 1 - d.digits.length) ++ ['.', '0'] =
        d.digits ++ zeros (d.exponent.toNat + 1 - d.digits.length) ++ '.' :: (zeros 1 ++ []) := rfl
    refine readsAs_point isTail_nil hcs ?_ hne hdigits (fun c => isDigit_of_mem_zeros)
    rw [hvalue, digitsValue_append_zeros _ 1, length_zeros, Option.getD_none, Nat.cast_one, zero_sub,
      zpow_neg_one]
    push_cast
    ring

/-- A number in plain form with the point between its digits. -/
lemma readsAs_between (hd : d.IsProper) (hnonneg : 0 ≤ d.exponent)
    (hlen : d.exponent.toNat + 1 < d.digits.length) :
    ReadsAs (d.digits.take (d.exponent.toNat + 1) ++ '.' :: d.digits.drop (d.exponent.toNat + 1))
      d.value := by
  have hcs : d.digits.take (d.exponent.toNat + 1) ++ '.' :: d.digits.drop (d.exponent.toNat + 1) =
      d.digits.take (d.exponent.toNat + 1) ++ '.' :: (d.digits.drop (d.exponent.toNat + 1) ++ []) := by
    rw [List.append_nil]
  refine readsAs_point isTail_nil hcs ?_ ?_ (fun c hc => hd.isDigit c (List.mem_of_mem_take hc))
    fun c hc => hd.isDigit c (List.mem_of_mem_drop hc)
  · rw [List.take_append_drop, Decimal.value, List.length_drop, Option.getD_none]
    congr 2
    omega
  · rw [← List.length_pos_iff, List.length_take]
    omega

/-- Digits with an exponent. -/
lemma readsAs_scientific (layout : Layout) (hd : d.IsProper) : ReadsAs (layout.scientific d) d.value := by
  have htail := isTail_exponent d.exponent layout.plusSign
  have hpos := List.length_pos_iff.2 hd.ne_nil
  have hne : d.digits.take 1 ≠ [] := by
    rw [← List.length_pos_iff, List.length_take]
    omega
  have htake : ∀ c ∈ d.digits.take 1, c.isDigit = true :=
    fun c hc => hd.isDigit c (List.mem_of_mem_take hc)
  rw [scientific]
  by_cases hnil : d.digits.drop 1 = []
  · have hlen : d.digits.length = 1 := by
      have := congrArg List.length hnil
      rw [List.length_drop, List.length_nil] at this
      omega
    refine readsAs_whole htail (by simp [hnil]) ?_ hne htake
    rw [List.take_of_length_le hlen.le, Decimal.value, hlen]
    simp
  · refine readsAs_point htail (by rw [if_neg hnil, List.append_assoc]; rfl) ?_ hne htake
      fun c hc => hd.isDigit c (List.mem_of_mem_drop hc)
    rw [List.take_append_drop, Decimal.value, List.length_drop, Option.getD_some]
    congr 2
    omega

/-- Every layout writes the value of the decimal. -/
lemma readsAs_body (layout : Layout) (hd : d.IsProper) :
    ReadsAs (if layout.least ≤ d.exponent ∧ d.exponent ≤ layout.greatest then layout.plain d
      else layout.scientific d) d.value := by
  by_cases hplain : layout.least ≤ d.exponent ∧ d.exponent ≤ layout.greatest
  · rw [if_pos hplain, plain]
    by_cases hneg : d.exponent < 0
    · rw [if_pos hneg]
      exact readsAs_small hd hneg
    · rw [if_neg hneg]
      by_cases hlen : d.digits.length ≤ d.exponent.toNat + 1
      · rw [if_pos hlen]
        exact readsAs_large hd layout.wholePoint (not_lt.1 hneg) hlen
      · rw [if_neg hlen]
        exact readsAs_between hd (not_lt.1 hneg) (not_le.1 hlen)
  · rw [if_neg hplain]
    exact layout.readsAs_scientific hd

end Layout

namespace ReadsAs

variable {cs : List Char} {v : ℚ}

/-- A number is none of the words that are read as doubles. -/
lemma ne_word (h : ReadsAs cs v) {word : String} (hword : ∀ c ∈ word.toList.head?, c.isDigit = false) :
    String.ofList (cs.map Char.toLower) ≠ word := by
  rintro rfl
  obtain ⟨c, hc, hdigit⟩ := h.starts
  have hhead : c.toLower ∈ (String.ofList (cs.map Char.toLower)).toList.head? := by
    rw [String.toList_ofList, List.head?_map]
    exact Option.mem_map_of_mem Char.toLower hc
  rw [toLower_of_isDigit hdigit] at hhead
  exact absurd hdigit (by rw [hword c hhead]; simp)

/-- With a sign, the text is read as the double nearest to the number. -/
lemma readFloat?_signed (h : ReadsAs cs v) (negative : Bool) :
    ∃ (significand : ℕ) (scale : ℤ), (significand : ℚ) * 10 ^ scale = v ∧
      readFloat? (String.ofList (if negative then '-' :: cs else cs)) =
        some (nearestFloat negative significand scale) := by
  obtain ⟨n, hn, rfl, rfl⟩ := h.reads negative
  refine ⟨_, _, rfl, ?_⟩
  rw [readFloat?, String.toList_ofList, spanSign_signed h.starts]
  dsimp only
  rw [if_neg (not_or.2 ⟨h.ne_word (by simp), h.ne_word (by simp)⟩), if_neg (h.ne_word (by simp)), hn]
  rfl

end ReadsAs

/-- The text of a decimal is read as the double nearest to it. -/
lemma readFloat?_write (layout : Layout) (negative : Bool) {d : Decimal} (hd : d.IsProper) :
    ∃ (significand : ℕ) (scale : ℤ), (significand : ℚ) * 10 ^ scale = d.value ∧
      readFloat? (String.ofList (layout.write negative d)) =
        some (nearestFloat negative significand scale) :=
  (layout.readsAs_body hd).readFloat?_signed negative

end VariantFold
