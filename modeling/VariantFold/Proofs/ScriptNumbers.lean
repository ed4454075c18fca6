/-
The text of a number in a script.

A decimal in normal form has no zero in front of its digits and none after them, so the number that it
denotes tells both its exponent and its digits.  A script writes it in one of four ways, as a numeral
that is cut out of the digits and zeros (`Decimal.LaidOut`).  All of them are tidy, denote the number of the
decimal, and are read back part by part, so that no text is written for two decimals.
-/
import Mathlib
import VariantFold.Scalar
import VariantFold.Proofs.FloatText

namespace VariantFold

open Scalar

/-! ### Rows of digits -/

lemma digitsValue_concat (l : List Char) (c : Char) :
    digitsValue (l ++ [c]) = 10 * digitsValue l + (c.toNat - 48) := by
  rw [digitsValue, List.foldl_append]
  rfl

lemma toNat_bounds_of_isDigit {c : Char} (hc : c.isDigit = true) : 48 ≤ c.toNat ∧ c.toNat ≤ 57 := by
  have hvals : '0'.val ≤ c.val ∧ c.val ≤ '9'.val := by simpa [Char.isDigit] using hc
  exact ⟨UInt32.le_iff_toNat_le.1 hvals.1, UInt32.le_iff_toNat_le.1 hvals.2⟩

lemma digitsValue_lt {l : List Char} (hl : ∀ c ∈ l, c.isDigit = true) :
    digitsValue l < 10 ^ l.length := by
  induction l using List.reverseRecOn with
  | nil => decide
  | append_singleton l c ih =>
    obtain ⟨hinit, hc⟩ := List.forall_mem_append.1 hl
    have hlt := ih hinit
    have hbounds := toNat_bounds_of_isDigit (hc c (List.mem_singleton_self c))
    rw [digitsValue_concat, List.length_append, List.length_singleton, pow_succ]
    omega

/-- Of rows of one length, no two denote the same number. -/
lemma eq_of_digitsValue_eq {l l' : List Char} (hl : ∀ c ∈ l, c.isDigit = true)
    (hl' : ∀ c ∈ l', c.isDigit = true) (hlen : l.length = l'.length)
    (h : digitsValue l = digitsValue l') : l = l' := by
  induction l using List.reverseRecOn generalizing l' with
  | nil => exact (List.length_eq_zero_iff.1 hlen.symm).symm
  | append_singleton l c ih =>
    obtain rfl | ⟨m, c', rfl⟩ := l'.eq_nil_or_concat'
    · simp at hlen
    obtain ⟨hinit, hc⟩ := List.forall_mem_append.1 hl
    obtain ⟨hinit', hc'⟩ := List.forall_mem_append.1 hl'
    have hbounds := toNat_bounds_of_isDigit (hc c (List.mem_singleton_self c))
    have hbounds' := toNat_bounds_of_isDigit (hc' c' (List.mem_singleton_self c'))
    rw [digitsValue_concat, digitsValue_concat] at h
    have hlast : c = c' := Char.toNat_inj.1 (by omega)
    rw [ih hinit hinit' (by simpa using hlen) (by omega), hlast]

/-! ### Decimals in normal form -/

namespace Decimal

/-- The first digit is not zero, and neither is the last of several. -/
structure IsNormal (d : Decimal) : Prop extends d.IsProper where
  head_ne : d.digits.head? ≠ some '0'
  last_ne : 1 < d.digits.length → d.digits.getLast? ≠ some '0'

namespace IsNormal

variable {d d' : Decimal}

lemma length_pos (hd : d.IsNormal) : 0 < d.digits.length := List.length_pos_iff.2 hd.ne_nil

lemma getLast?_ne (hd : d.IsNormal) : d.digits.getLast? ≠ some '0' := by
  rcases Nat.lt_or_ge 1 d.digits.length with hlen | hlen
  · exact hd.last_ne hlen
  · obtain ⟨c, hc⟩ := List.length_eq_one_iff.1 (Nat.le_antisymm hlen hd.length_pos)
    have hhead := hd.head_ne
    rw [hc] at hhead ⊢
    exact hhead

lemma pow_le_digitsValue (hd : d.IsNormal) : 10 ^ (d.digits.length - 1) ≤ digitsValue d.digits := by
  obtain ⟨c, rest, hdigits⟩ := List.exists_cons_of_ne_nil hd.ne_nil
  have hc := toNat_bounds_of_isDigit (hd.isDigit c (hdigits ▸ List.mem_cons_self))
  have hne : c.toNat ≠ 48 := by
    intro h
    have hzero : c = '0' := Char.toNat_inj.1 h
    exact hd.head_ne (by rw [hdigits, hzero, List.head?_cons])
  have hfirst : digitsValue [c] = c.toNat - 48 := (digitsValue_concat [] c).trans (Nat.zero_add _)
  calc 10 ^ (d.digits.length - 1) = 10 ^ rest.length * 1 := by
        rw [hdigits, List.length_cons, Nat.add_sub_cancel, Nat.mul_one]
    _ ≤ 10 ^ rest.length * digitsValue [c] := Nat.mul_le_mul_left _ (by omega)
    _ ≤ 10 ^ rest.length * digitsValue [c] + digitsValue rest := Nat.le_add_right _ _
    _ = digitsValue d.digits := by
        rw [hdigits, ← digitsValue_append]
        rfl

/-- The exponent is that of the first digit of the number. -/
lemma value_bounds (hd : d.IsNormal) :
    (10 : ℚ) ^ d.exponent ≤ d.value ∧ d.value < 10 ^ (d.exponent + 1) := by
  have hpos := hd.length_pos
  rw [value]
  constructor
  · calc (10 : ℚ) ^ d.exponent
        = (10 ^ (d.digits.length - 1) : ℕ) * 10 ^ (d.exponent + 1 - d.digits.length) := by
          rw [Nat.cast_pow, Nat.cast_ofNat, ← zpow_natCast, ← zpow_add₀ (by norm_num)]
          congr 1
          omega
      _ ≤ digitsValue d.digits * 10 ^ (d.exponent + 1 - d.digits.length) := by
          gcongr
          exact hd.pow_le_digitsValue
  · calc (digitsValue d.digits : ℚ) * 10 ^ (d.exponent + 1 - d.digits.length)
        < (10 ^ d.digits.length : ℕ) * 10 ^ (d.exponent + 1 - d.digits.length) := by
          gcongr
          exact digitsValue_lt hd.isDigit
      _ = 10 ^ (d.exponent + 1) := by
          rw [Nat.cast_pow, Nat.cast_ofNat, ← zpow_natCast, ← zpow_add₀ (by norm_num)]
          congr 1
          omega

lemma zpow_le_value_iff (hd : d.IsNormal) (k : ℤ) : (10 : ℚ) ^ k ≤ d.value ↔ k ≤ d.exponent := by
  obtain ⟨hle, hlt⟩ := hd.value_bounds
  constructor
  · intro h
    have hpow : (10 : ℚ) ^ k < 10 ^ (d.exponent + 1) := h.trans_lt hlt
    have := (zpow_lt_zpow_iff_right₀ (by norm_num)).1 hpow
    omega
  · intro h
    exact (zpow_le_zpow_right₀ (by norm_num) h).trans hle

lemma lt_exponent_iff (hd : d.IsNormal) (k : ℤ) : k < d.exponent ↔ (10 : ℚ) ^ (k + 1) ≤ d.value := by
  rw [hd.zpow_le_value_iff, Int.add_one_le_iff]

lemma exponent_lt_iff (hd : d.IsNormal) (k : ℤ) : d.exponent < k ↔ d.value < (10 : ℚ) ^ k := by
  rw [← not_le, ← not_le, hd.zpow_le_value_iff]

lemma exponent_eq (hd : d.IsNormal) (hd' : d'.IsNormal) (h : d.value = d'.value) :
    d.exponent = d'.exponent := by
  apply le_antisymm
  · rw [← hd'.zpow_le_value_iff, ← h]
    exact hd.value_bounds.1
  · rw [← hd.zpow_le_value_iff, h]
    exact hd'.value_bounds.1

/-- Of two decimals for one number, the longer one ends in zeros. -/
lemma digits_eq_append (hd : d.IsNormal) (hd' : d'.IsNormal) (h : d.value = d'.value)
    (hle : d.digits.length ≤ d'.digits.length) :
    d'.digits = d.digits ++ Layout.zeros (d'.digits.length - d.digits.length) := by
  have hexponent := hd.exponent_eq hd' h
  refine (eq_of_digitsValue_eq (List.forall_mem_append.2
    ⟨hd.isDigit, fun c => isDigit_of_mem_zeros⟩) hd'.isDigit ?_ ?_).symm
  · rw [List.length_append, length_zeros]
    omega
  · have hshift : d.exponent + 1 - d.digits.length = ((d'.digits.length - d.digits.length : ℕ) : ℤ) +
        (d'.exponent + 1 - d'.digits.length) := by omega
    rw [value, value, hshift, zpow_add₀ (by norm_num), ← mul_assoc] at h
    have hvalue := mul_right_cancel₀ (zpow_ne_zero _ (by norm_num)) h
    rw [digitsValue_append_zeros, Nat.mul_comm]
    rw [zpow_natCast] at hvalue
    exact_mod_cast hvalue

/-- A number has one decimal in normal form. -/
lemma eq_of_value_eq (hd : d.IsNormal) (hd' : d'.IsNormal) (h : d.value = d'.value) : d = d' := by
  wlog hle : d.digits.length ≤ d'.digits.length generalizing d d'
  · exact (this hd' hd h.symm (le_of_not_ge hle)).symm
  have hdigits := hd.digits_eq_append hd' h hle
  rcases hle.eq_or_lt with hlen | hlen
  · rw [hlen, Nat.sub_self, Layout.zeros, List.replicate_zero, List.append_nil] at hdigits
    obtain ⟨digits, exponent⟩ := d
    obtain ⟨digits', exponent'⟩ := d'
    obtain rfl : digits' = digits := hdigits
    obtain rfl : exponent = exponent' := hd.exponent_eq hd' h
    rfl
  · obtain ⟨k, hk⟩ := Nat.exists_eq_succ_of_ne_zero (Nat.sub_ne_zero_of_lt hlen)
    refine absurd ?_ hd'.getLast?_ne
    rw [hdigits, hk, Layout.zeros, List.replicate_succ', ← List.append_assoc, List.getLast?_concat]

end IsNormal

/-- Whole numbers times powers of ten are put into normal form. -/
lemma isNormal_ofScaled {n : ℕ} (hn : n ≠ 0) (scale : ℤ) : (ofScaled n scale).IsNormal := by
  obtain ⟨digits, k, hlast, hsplit, heq⟩ := exists_ofScaled n scale
  have hne : digits ≠ [] := by
    rintro rfl
    rw [List.nil_append] at hsplit
    exact hn (by rw [← digitsValue_natDigits n, hsplit, digitsValue_zeros])
  have hdigits : (ofScaled n scale).digits = digits := by
    rw [heq]
    exact if_neg hne
  refine ⟨isProper_ofScaled n scale, fun hhead => head?_natDigits hn ?_, fun _ => hdigits ▸ hlast⟩
  rwa [hsplit, List.head?_append_of_ne_nil _ hne, ← hdigits]

end Decimal

/-! ### Numerals -/

namespace Numeral

/-- The text of a numeral without its sign.  An exponent is written with a sign of its own. -/
def body (n : Numeral) : List Char :=
  n.whole ++ ((n.fraction.elim [] fun fraction => '.' :: fraction) ++
    n.exponent.elim [] fun exponent =>
      'e' :: ((if exponent < 0 then ['-'] else ['+']) ++ natDigits exponent.natAbs))

/-- The text of a numeral. -/
def text (n : Numeral) : List Char := if n.negative then '-' :: n.body else n.body

/-- No zero stands in front of other digits, and a fraction is there for its last digit. -/
structure IsTidy (n : Numeral) : Prop where
  whole_ne : n.whole ≠ []
  whole_isDigit : ∀ c ∈ n.whole, c.isDigit = true
  whole_eq : n.whole.head? = some '0' → n.whole = ['0']
  fraction_ne : ∀ fraction ∈ n.fraction, fraction ≠ []
  fraction_isDigit : ∀ fraction ∈ n.fraction, ∀ c ∈ fraction, c.isDigit = true
  fraction_last : ∀ fraction ∈ n.fraction, fraction.getLast? ≠ some '0'

end Numeral

/-- Reads a decimal numeral with an optional sign. -/
def readNumeral? (cs : List Char) : Option Numeral := readDecimal? (spanSign cs).1 (spanSign cs).2

namespace Numeral

lemma isTail_exponentText (exponent : Option ℤ) :
    IsTail (exponent.elim [] fun exponent =>
      'e' :: ((if exponent < 0 then ['-'] else ['+']) ++ natDigits exponent.natAbs)) exponent := by
  cases exponent with
  | none => exact isTail_nil
  | some exponent => exact isTail_exponent exponent true

/-- A numeral is read back from its text, part by part. -/
lemma IsTidy.readNumeral?_text {n : Numeral} (hn : n.IsTidy) : readNumeral? n.text = some n := by
  have hstarts : ∃ c ∈ n.body.head?, c.isDigit = true := head_isDigit hn.whole_ne hn.whole_isDigit _
  have htail := isTail_exponentText n.exponent
  rw [readNumeral?, text, spanSign_signed hstarts]
  obtain ⟨negative, whole, fraction, exponent⟩ := n
  cases fraction with
  | none => exact readDecimal?_whole htail hn.whole_ne hn.whole_isDigit negative
  | some fraction =>
    exact readDecimal?_point htail hn.whole_ne hn.whole_isDigit (hn.fraction_isDigit fraction rfl) negative

end Numeral

/-! ### The four forms -/

namespace Decimal

/-- The numerals that a script writes for a decimal: where the digits are cut, and how many zeros are put
in front of them or after them. -/
inductive LaidOut (d : Decimal) (negative : Bool) : Numeral → Prop
  /-- All digits stand before the point, and zeros up to it. -/
  | whole {k : ℕ} (hk : (d.digits.length : ℤ) + k = d.exponent + 1) (hle : d.exponent ≤ 20) :
      LaidOut d negative ⟨negative, d.digits ++ Layout.zeros k, none, none⟩
  /-- The point stands between the digits. -/
  | point {whole fraction : List Char} (hdigits : d.digits = whole ++ fraction)
      (hwhole : (whole.length : ℤ) = d.exponent + 1) (hpos : whole ≠ []) (hne : fraction ≠ [])
      (hle : d.exponent ≤ 20) : LaidOut d negative ⟨negative, whole, some fraction, none⟩
  /-- All digits stand after the point, and zeros up to them. -/
  | small {k : ℕ} (hk : d.exponent + 1 + k = 0) (hge : -6 ≤ d.exponent) :
      LaidOut d negative ⟨negative, ['0'], some (Layout.zeros k ++ d.digits), none⟩
  /-- The point, if any, stands after the first digit, and an exponent at the end. -/
  | scientific {first : Char} {fraction : Option (List Char)}
      (hdigits : d.digits = first :: fraction.getD []) (hne : fraction ≠ some [])
      (hexponent : d.exponent < -6 ∨ 20 < d.exponent) :
      LaidOut d negative ⟨negative, [first], fraction, some d.exponent⟩

namespace LaidOut

variable {d : Decimal} {negative : Bool} {n : Numeral}

lemma negative_eq (h : d.LaidOut negative n) : n.negative = negative := by
  cases h <;> rfl

lemma isSome_exponent_iff (h : d.LaidOut negative n) :
    n.exponent.isSome = true ↔ 20 < d.exponent ∨ d.exponent < -6 := by
  cases h with
  | whole hk hle => exact iff_of_false Bool.false_ne_true (by omega)
  | point hdigits hwhole hpos hne hle => exact iff_of_false Bool.false_ne_true (by omega)
  | small hk hge => exact iff_of_false Bool.false_ne_true (by omega)
  | scientific hdigits hne hexponent => exact iff_of_true rfl hexponent.symm

/-- A zero in front would be one of the decimal, and so would one at the end of the fraction. -/
lemma isTidy (h : d.LaidOut negative n) (hd : d.IsNormal) : n.IsTidy := by
  have hhead := hd.head_ne
  have hlast := hd.getLast?_ne
  cases h with
  | @whole k hk hle =>
    refine ⟨List.append_ne_nil_of_left_ne_nil hd.ne_nil _,
      List.forall_mem_append.2 ⟨hd.isDigit, fun c => isDigit_of_mem_zeros⟩, fun hzero => ?_,
      by simp, by simp, by simp⟩
    rw [List.head?_append_of_ne_nil _ hd.ne_nil] at hzero
    exact absurd hzero hhead
  | @point whole fraction hdigits hwhole hpos hne hle =>
    obtain ⟨hwholes, hfractions⟩ := List.forall_mem_append.1 (hdigits ▸ hd.isDigit)
    rw [hdigits, List.head?_append_of_ne_nil _ hpos] at hhead
    rw [hdigits, List.getLast?_append_of_ne_nil _ hne] at hlast
    exact ⟨hpos, hwholes, fun hzero => absurd hzero hhead, by simpa using hne, by simpa using hfractions,
      by simpa using hlast⟩
  | @small k hk hge =>
    refine ⟨by simp, by simp, fun _ => rfl, ?_, ?_, ?_⟩ <;> rintro _ ⟨⟩
    · exact List.append_ne_nil_of_right_ne_nil _ hd.ne_nil
    · exact List.forall_mem_append.2 ⟨fun c => isDigit_of_mem_zeros, hd.isDigit⟩
    · rwa [List.getLast?_append_of_ne_nil _ hd.ne_nil]
  | @scientific first fraction hdigits hne hexponent =>
    obtain ⟨hfirst, hrest⟩ := List.forall_mem_cons.1 (hdigits ▸ hd.isDigit)
    rw [hdigits, List.head?_cons] at hhead
    refine ⟨by simp, by simpa using hfirst, fun hzero => absurd hzero hhead, ?_, ?_, ?_⟩ <;>
      rintro rest ⟨⟩
    · rintro rfl
      exact hne rfl
    · exact hrest
    · rw [hdigits, Option.getD_some, List.getLast?_cons_of_ne_nil (by rintro rfl; exact hne rfl)] at hlast
      exact hlast

/-- The number is read from the text, and so is the numeral. -/
lemma value_eq (h : d.LaidOut negative n) (hd : d.IsNormal)
    (htext : scriptLayout.write negative d = n.text) : n.value = d.value := by
  have hbody := scriptLayout.readsAs_body hd.toIsProper
  obtain ⟨n', hread, -, hvalue⟩ := hbody.reads negative
  have hback := (h.isTidy hd).readNumeral?_text
  rw [← htext, readNumeral?, Layout.write, spanSign_signed hbody.starts] at hback
  obtain rfl : n' = n := Option.some_injective _ (hread.symm.trans hback)
  exact hvalue

end LaidOut

variable {d : Decimal}

lemma exists_laidOut_plain (hd : d.IsProper) (negative : Bool) (hge : -6 ≤ d.exponent)
    (hle : d.exponent ≤ 20) : ∃ n, d.LaidOut negative n ∧ scriptLayout.plain d = n.body := by
  have hlen := List.length_pos_iff.2 hd.ne_nil
  rw [Layout.plain]
  by_cases hneg : d.exponent < 0
  · refine ⟨_, .small (k := (-d.exponent - 1).toNat) (by omega) hge, ?_⟩
    rw [if_pos hneg, Numeral.body]
    simp
  rw [if_neg hneg]
  by_cases hall : d.digits.length ≤ d.exponent.toNat + 1
  · refine ⟨_, .whole (k := d.exponent.toNat + 1 - d.digits.length) (by omega) hle, ?_⟩
    rw [if_pos hall, Numeral.body]
    simp [scriptLayout]
  · refine ⟨_, .point (List.take_append_drop (d.exponent.toNat + 1) d.digits).symm ?_ ?_ ?_ hle, ?_⟩
    · rw [List.length_take]
      omega
    · rw [← List.length_pos_iff, List.length_take]
      omega
    · rw [← List.length_pos_iff, List.length_drop]
      omega
    · rw [if_neg hall, Numeral.body]
      simp

lemma exists_laidOut_scientific (hd : d.IsProper) (negative : Bool)
    (hexponent : d.exponent < -6 ∨ 20 < d.exponent) :
    ∃ n, d.LaidOut negative n ∧ scriptLayout.scientific d = n.body := by
  obtain ⟨first, rest, hdigits⟩ := List.exists_cons_of_ne_nil hd.ne_nil
  rw [Layout.scientific, hdigits]
  cases rest with
  | nil =>
    have hform : d.LaidOut negative ⟨negative, [first], none, some d.exponent⟩ :=
      .scientific hdigits (by simp) hexponent
    exact ⟨_, hform, rfl⟩
  | cons c rest =>
    have hform : d.LaidOut negative ⟨negative, [first], some (c :: rest), some d.exponent⟩ :=
      .scientific hdigits (by simp) hexponent
    exact ⟨_, hform, rfl⟩

/-- What a script writes has one of the four forms. -/
lemma exists_laidOut (hd : d.IsProper) (negative : Bool) :
    ∃ n, d.LaidOut negative n ∧ scriptLayout.write negative d = n.text := by
  obtain ⟨n, hn, hbody⟩ : ∃ n, d.LaidOut negative n ∧
      (if scriptLayout.least ≤ d.exponent ∧ d.exponent ≤ scriptLayout.greatest then scriptLayout.plain d
        else scriptLayout.scientific d) = n.body := by
    split_ifs with hplain
    · exact exists_laidOut_plain hd negative hplain.1 hplain.2
    · refine exists_laidOut_scientific hd negative ?_
      change ¬(-6 ≤ d.exponent ∧ d.exponent ≤ 20) at hplain
      omega
  refine ⟨n, hn, ?_⟩
  rw [Layout.write, hbody, Numeral.text, hn.negative_eq]

end Decimal

/-! ### Doubles -/

namespace Dyadic

/-- The digits that are written for a double are in normal form. -/
lemma isNormal_shortest {d : Dyadic} (hd : d.IsDouble) (hm : d.mantissa ≠ 0) (tie : Tie) :
    (d.shortest tie).IsNormal := by
  obtain ⟨n, scale, hshortest, hnear⟩ := exists_shortest hd hm tie
  rw [hshortest]
  exact Decimal.isNormal_ofScaled (hnear.ne_zero hd hm) scale

lemma mantissa_ofFloat_ne_zero {x : Float} (hx : x.isFinite = true) (hzero : (x == 0) = false) :
    (ofFloat x).mantissa ≠ 0 := by
  intro hm
  have hbits := (isDouble_ofFloat hx).bits_eq_zero hm
  have hpos : (0 : Float) = floatOfMagnitude false 0 := rfl
  have heq : (x == 0) = true := by
    rw [← floatOfMagnitude_ofFloat x, hbits, hpos, floatOfMagnitude_beq_iff (by decide) (by decide)]
    exact ⟨rfl, Or.inr rfl⟩
  exact absurd (heq.symm.trans hzero) (by simp)

end Dyadic

/-- A script writes a finite double by the decimal of its digits. -/
lemma scriptFloat_eq {x : Float} (hx : x.isFinite = true) (hzero : (x == 0) = false) :
    scriptFloat x =
      String.ofList (scriptLayout.write (signBit x) ((Dyadic.ofFloat x).shortest .up)) := by
  have hnot : ¬(x.isNaN = true ∨ x.isInf = true) := by
    rw [← isFinite_eq_false_iff, hx]
    simp
  obtain ⟨hnan, hinf⟩ := not_or.1 hnot
  rw [scriptFloat, if_neg hnan, if_neg (by rw [hzero]; simp), if_neg hinf]
  rfl

/-! ### Texts of decimals -/

/-- The text that a script gets for a decimal in normal form is a tidy numeral, in one of the four forms,
for the same number, with an exponent exactly for numbers from `10 ^ 21` on and for those below `10 ^ -6`.
Different decimals or signs have different texts.  The digits of every finite double other than zero
are in normal form, and its text is that of these digits. -/
theorem scriptText_numeral :
    (∀ (negative : Bool) (d : Decimal), d.IsNormal →
      ∃ n, d.LaidOut negative n ∧ scriptLayout.write negative d = n.text ∧
        readNumeral? (scriptLayout.write negative d) = some n ∧ n.negative = negative ∧
        n.value = d.value ∧ n.IsTidy ∧
        (n.exponent.isSome = true ↔ 10 ^ 21 ≤ d.value ∨ d.value < 1 / 10 ^ 6)) ∧
    (∀ (negative negative' : Bool) (d d' : Decimal), d.IsNormal → d'.IsNormal →
      scriptLayout.write negative d = scriptLayout.write negative' d' →
        negative = negative' ∧ d = d') ∧
    ∀ x : Float, x.isFinite = true → (x == 0) = false →
      ((Dyadic.ofFloat x).shortest .up).IsNormal ∧
      scriptFloat x =
        String.ofList (scriptLayout.write (signBit x) ((Dyadic.ofFloat x).shortest .up)) := by
  refine ⟨fun negative d hd => ?_, fun negative negative' d d' hd hd' heq => ?_, fun x hx hzero => ?_⟩
  · obtain ⟨n, hn, htext⟩ := Decimal.exists_laidOut hd.toIsProper negative
    have htidy := hn.isTidy hd
    refine ⟨n, hn, htext, ?_, hn.negative_eq, hn.value_eq hd htext, htidy, ?_⟩
    · rw [htext, htidy.readNumeral?_text]
    · rw [hn.isSome_exponent_iff, hd.lt_exponent_iff, hd.exponent_lt_iff]
      norm_num
  · obtain ⟨n, hn, htext⟩ := Decimal.exists_laidOut hd.toIsProper negative
    obtain ⟨n', hn', htext'⟩ := Decimal.exists_laidOut hd'.toIsProper negative'
    have hsame : n = n' := by
      have hread := (hn.isTidy hd).readNumeral?_text
      rw [← htext, heq, htext', (hn'.isTidy hd').readNumeral?_text] at hread
      exact (Option.some_injective _ hread).symm
    subst hsame
    exact ⟨hn.negative_eq.symm.trans hn'.negative_eq,
      hd.eq_of_value_eq hd' ((hn.value_eq hd htext).symm.trans (hn'.value_eq hd' htext'))⟩
  · exact ⟨Dyadic.isNormal_shortest (Dyadic.isDouble_ofFloat hx)
      (Dyadic.mantissa_ofFloat_ne_zero hx hzero) .up, scriptFloat_eq hx hzero⟩

/-- On the two sides of the limit for small numbers, and for a tenth. -/
theorem scriptText_numeral_small :
    (∃ n, readNumeral? "-1.5e-7".toList = some n ∧ n.IsTidy ∧ n.exponent.isSome = true ∧
      n.value = (⟨['1', '5'], -7⟩ : Decimal).value) ∧
    (∃ n, readNumeral? "-0.0000015".toList = some n ∧ n.IsTidy ∧ n.exponent.isSome = false ∧
      n.value = (⟨['1', '5'], -6⟩ : Decimal).value) ∧
    scriptLayout.write true ⟨['1', '5'], -7⟩ ≠ scriptLayout.write true ⟨['1', '5'], -6⟩ ∧
    scriptFloat 0.1 = "0.1" := by
  have hnormal (exponent : ℤ) : (⟨['1', '5'], exponent⟩ : Decimal).IsNormal :=
    ⟨⟨by simp, by simp⟩, by simp, by simp⟩
  obtain ⟨hreads, hinj, hfloat⟩ := scriptText_numeral
  refine ⟨?_, ?_, fun heq => ?_, ?_⟩
  · obtain ⟨n, -, -, hread, -, hvalue, htidy, -⟩ := hreads true _ (hnormal (-7))
    have hsome : (readNumeral? "-1.5e-7".toList).bind Numeral.exponent = some (-7) := by decide +kernel
    have htext : scriptLayout.write true ⟨['1', '5'], -7⟩ = "-1.5e-7".toList := by decide +kernel
    rw [← htext, hread, Option.bind_some] at hsome
    exact ⟨n, htext ▸ hread, htidy, by rw [hsome]; rfl, hvalue⟩
  · obtain ⟨n, -, -, hread, -, hvalue, htidy, -⟩ := hreads true _ (hnormal (-6))
    have hnone : (readNumeral? "-0.0000015".toList).bind Numeral.exponent = none := by decide +kernel
    have htext : scriptLayout.write true ⟨['1', '5'], -6⟩ = "-0.0000015".toList := by decide +kernel
    rw [← htext, hread, Option.bind_some] at hnone
    exact ⟨n, htext ▸ hread, htidy, by rw [hnone]; rfl, hvalue⟩
  · exact absurd (hinj true true _ _ (hnormal (-7)) (hnormal (-6)) heq).2 (by decide)
  · rw [(hfloat 0.1 (by decide +kernel) (by decide +kernel)).2]
    decide +kernel

end VariantFold
