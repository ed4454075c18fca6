/-
Rounding to the nearest double.

A number is counted in units of the last place of the mantissa, a power of two, and rounded to a whole
number of them (`exists_nearestBits`).  The sum that gives the bits takes care of a mantissa that rounding
carries to the next power of two.  So rounding does not cross a power of two (`le_nearestBits`,
`nearestBits_le`), and a double is what every number of its neighbourhood is rounded to
(`Dyadic.Near.nearestBits_eq`).
-/
import VariantFold.Proofs.Doubles

namespace VariantFold

/-! ### Whole numbers -/

/-- The number `m` is `x` rounded to the nearest whole number, a tie going to the even one. -/
structure RoundsTo (x : ℚ) (m : ℕ) : Prop where
  le : (m : ℚ) ≤ x + 1 / 2
  ge : x ≤ m + 1 / 2
  odd : m % 2 = 1 → (m : ℚ) < x + 1 / 2 ∧ x < m + 1 / 2

lemma RoundsTo.le_other {x : ℚ} {m m' : ℕ} (h : RoundsTo x m) (h' : RoundsTo x m') : m ≤ m' := by
  by_contra hlt
  have hle : (m : ℚ) ≤ m' + 1 := by linarith [h.le, h'.ge]
  obtain rfl : m = m' + 1 := le_antisymm (by exact_mod_cast hle) (by omega)
  -- of two neighbours one is odd, and it does not take the tie
  rcases Nat.mod_two_eq_zero_or_one m' with heven | hodd
  · have hlt' := (h.odd (by omega)).1
    push_cast at hlt'
    linarith [h'.ge]
  · have hle' := h.le
    push_cast at hle'
    linarith [(h'.odd hodd).2]

/-- Only one number is the nearest. -/
lemma RoundsTo.unique {x : ℚ} {m m' : ℕ} (h : RoundsTo x m) (h' : RoundsTo x m') : m = m' :=
  le_antisymm (h.le_other h') (h'.le_other h)

lemma RoundsTo.le_of_le {x : ℚ} {m k : ℕ} (h : RoundsTo x m) (hk : (k : ℚ) ≤ x) : k ≤ m := by
  have hlt : (k : ℚ) < (m + 1 : ℕ) := by
    push_cast
    linarith [h.ge]
  exact Nat.lt_succ_iff.1 (by exact_mod_cast hlt)

lemma RoundsTo.le_of_ge {x : ℚ} {m k : ℕ} (h : RoundsTo x m) (hk : x ≤ k) : m ≤ k := by
  have hlt : (m : ℚ) < (k + 1 : ℕ) := by
    push_cast
    linarith [h.le]
  exact Nat.lt_succ_iff.1 (by exact_mod_cast hlt)

lemma two_pow_mul_zpow (n : ℕ) (e : ℤ) : (2 : ℚ) ^ n * 2 ^ e = 2 ^ (e + n) := by
  rw [add_comm, zpow_add₀ two_ne_zero, zpow_natCast]

@[push_cast] lemma cast_natPow (b k : ℕ) : ((Nat.pow b k : ℕ) : ℚ) = (b : ℚ) ^ k := Nat.cast_pow b k

/-- What is counted in units of `2 ^ e` keeps its place among the powers of two. -/
lemma RoundsTo.pow_le {v : ℚ} {e : ℤ} {m n : ℕ} (h : RoundsTo (v / 2 ^ e) m)
    (hv : (2 : ℚ) ^ (e + n) ≤ v) : Nat.pow 2 n ≤ m := by
  refine h.le_of_le ?_
  rw [le_div_iff₀ (by positivity), cast_natPow, Nat.cast_ofNat, two_pow_mul_zpow]
  exact hv

lemma RoundsTo.le_pow {v : ℚ} {e : ℤ} {m n : ℕ} (h : RoundsTo (v / 2 ^ e) m)
    (hv : v ≤ 2 ^ (e + n)) : m ≤ Nat.pow 2 n := by
  refine h.le_of_ge ?_
  rw [div_le_iff₀ (by positivity), cast_natPow, Nat.cast_ofNat, two_pow_mul_zpow]
  exact hv

/-- A quotient rounded to the nearest whole number. -/
def roundQuotient (n d : ℕ) : ℕ :=
  if 2 * (n % d) < d then n / d
  else if d < 2 * (n % d) then n / d + 1
  else n / d + n / d % 2

lemma roundsTo_div {n d m : ℕ} (hd : 0 < d) (hle : 2 * (m * d) ≤ 2 * n + d)
    (hge : 2 * n ≤ 2 * (m * d) + d)
    (hodd : m % 2 = 1 → 2 * (m * d) < 2 * n + d ∧ 2 * n < 2 * (m * d) + d) :
    RoundsTo ((n : ℚ) / d) m := by
  have hd' : (0 : ℚ) < d := Nat.cast_pos.2 hd
  have hlt {a b : ℕ} (h : a < b) : (a : ℚ) / d < b / d := by gcongr
  have hmono {a b : ℕ} (h : a ≤ b) : (a : ℚ) / d ≤ b / d := by gcongr
  have hm : ((2 * (m * d) : ℕ) : ℚ) / d = 2 * m := by
    push_cast
    field_simp
  have hn : ((2 * n + d : ℕ) : ℚ) / d = 2 * (n / d) + 1 := by
    push_cast
    field_simp
  have hm' : ((2 * (m * d) + d : ℕ) : ℚ) / d = 2 * m + 1 := by
    push_cast
    field_simp
  have hn' : ((2 * n : ℕ) : ℚ) / d = 2 * (n / d) := by
    push_cast
    ring
  refine ⟨?_, ?_, fun h => ⟨?_, ?_⟩⟩
  · linarith [hmono hle]
  · linarith [hmono hge]
  · linarith [hlt (hodd h).1]
  · linarith [hlt (hodd h).2]

lemma roundsTo_roundQuotient (n : ℕ) {d : ℕ} (hd : 0 < d) :
    RoundsTo ((n : ℚ) / d) (roundQuotient n d) := by
  have hn : n / d * d + n % d = n := Nat.div_add_mod' n d
  have hlt : n % d < d := Nat.mod_lt n hd
  rw [roundQuotient]
  split_ifs with hlow hhigh
  · exact roundsTo_div hd (by omega) (by omega) (by omega)
  · have hsucc : (n / d + 1) * d = n / d * d + d := Nat.succ_mul _ _
    exact roundsTo_div hd (by omega) (by omega) (by omega)
  · rcases Nat.mod_two_eq_zero_or_one (n / d) with he | ho
    · rw [he, Nat.add_zero]
      exact roundsTo_div hd (by omega) (by omega) (by omega)
    · have hsucc : (n / d + 1) * d = n / d * d + d := Nat.succ_mul _ _
      rw [ho]
      exact roundsTo_div hd (by omega) (by omega) (by omega)

/-! ### The unit of the mantissa -/

/-- Powers with whole exponents, written without division. -/
lemma zpow_toNat {b : ℚ} (hb : b ≠ 0) (e : ℤ) : b ^ e = b ^ e.toNat / b ^ (-e).toNat := by
  rw [← zpow_natCast, ← zpow_natCast, ← zpow_sub₀ hb]
  congr 1
  omega

/-- The quotient of two numbers, counted in units of `b ^ e`. -/
lemma quotient_eq {b : ℕ} (hb : b ≠ 0) (num den : ℕ) (e : ℤ) :
    ((num * Nat.pow b (-e).toNat : ℕ) : ℚ) / ((den * Nat.pow b e.toNat : ℕ) : ℚ) =
      num / den / (b : ℚ) ^ e := by
  rw [zpow_toNat (Nat.cast_ne_zero.2 hb), div_div_eq_mul_div, mul_div_assoc, ← mul_div_mul_comm]
  push_cast
  rfl

/-- The last bit of the mantissa of a double near to `v` counts `2 ^ e`. -/
structure IsLastPlace (v : ℚ) (e : ℤ) : Prop where
  le : -1074 ≤ e
  lt : v < 2 ^ (e + 53)
  full : e = -1074 ∨ 2 ^ (e + 52) ≤ v

/-- The number of bits tells the next power of two. -/
lemma log2_bounds {n : ℕ} (hn : n ≠ 0) :
    (2 : ℚ) ^ (Nat.log2 n : ℤ) ≤ n ∧ (n : ℚ) < 2 ^ ((Nat.log2 n : ℤ) + 1) := by
  have hle : (2 ^ Nat.log2 n : ℕ) ≤ n := Nat.log2_self_le hn
  have hlt : n < 2 ^ (Nat.log2 n + 1) := Nat.lt_log2_self
  constructor
  · rw [zpow_natCast]
    exact_mod_cast hle
  · have : (n : ℚ) < 2 ^ (Nat.log2 n + 1) := by exact_mod_cast hlt
    exact_mod_cast this

variable {num den : ℕ}

/-- The numbers of bits tell a quotient up to a factor of four. -/
lemma log2_div_bounds (hnum : num ≠ 0) (hden : den ≠ 0) :
    (2 : ℚ) ^ ((Nat.log2 num : ℤ) - (Nat.log2 den : ℤ) - 1) ≤ num / den ∧
      (num : ℚ) / den < 2 ^ ((Nat.log2 num : ℤ) - (Nat.log2 den : ℤ) + 1) := by
  obtain ⟨hnum₁, hnum₂⟩ := log2_bounds hnum
  obtain ⟨hden₁, hden₂⟩ := log2_bounds hden
  generalize (Nat.log2 num : ℤ) = ln at *
  generalize (Nat.log2 den : ℤ) = ld at *
  have hpos : (0 : ℚ) < den := by positivity
  constructor
  · rw [le_div_iff₀ hpos]
    calc (2 : ℚ) ^ (ln - ld - 1) * den ≤ 2 ^ (ln - ld - 1) * 2 ^ (ld + 1) := by gcongr
      _ = 2 ^ ln := by
          rw [← zpow_add₀ two_ne_zero]
          congr 1
          ring
      _ ≤ num := hnum₁
  · rw [div_lt_iff₀ hpos]
    calc (num : ℚ) < 2 ^ (ln + 1) := hnum₂
      _ = 2 ^ (ln - ld + 1) * 2 ^ ld := by
          rw [← zpow_add₀ two_ne_zero]
          congr 1
          ring
      _ ≤ 2 ^ (ln - ld + 1) * den := by gcongr

/-- Whether a quotient in units of `2 ^ e` has room in a mantissa. -/
lemma quotient_lt_iff (num : ℕ) (hden : den ≠ 0) (e : ℤ) :
    num * Nat.pow 2 (-e).toNat / (den * Nat.pow 2 e.toNat) < Nat.pow 2 53 ↔
      (num : ℚ) / den < 2 ^ (e + 53) := by
  have hunit : 0 < den * Nat.pow 2 e.toNat :=
    Nat.mul_pos (Nat.pos_of_ne_zero hden) (Nat.pow_pos two_pos)
  rw [Nat.div_lt_iff_lt_mul hunit, ← Nat.cast_lt (α := ℚ), Nat.cast_mul (Nat.pow 2 53),
    ← div_lt_iff₀ (Nat.cast_pos.2 hunit), quotient_eq two_ne_zero, cast_natPow, Nat.cast_ofNat,
    div_lt_iff₀ (by positivity), two_pow_mul_zpow, Nat.cast_ofNat]

/-- The power of two that `nearestBits` counts in. -/
def lastPlace (num den : ℕ) : ℤ :=
  let least := max ((Nat.log2 num : ℤ) - (Nat.log2 den : ℤ) - 53) (-1074)
  if num * Nat.pow 2 (-least).toNat / (den * Nat.pow 2 least.toNat) < Nat.pow 2 53 then least
  else least + 1

lemma isLastPlace_lastPlace (hnum : num ≠ 0) (hden : den ≠ 0) :
    IsLastPlace ((num : ℚ) / den) (lastPlace num den) := by
  obtain ⟨hlow, hhigh⟩ := log2_div_bounds hnum hden
  rw [lastPlace]
  generalize (Nat.log2 num : ℤ) - (Nat.log2 den : ℤ) = guess at *
  have hlast : (num : ℚ) / den < 2 ^ (max (guess - 53) (-1074) + 54) :=
    hhigh.trans_le (zpow_le_zpow_right₀ one_le_two (by omega))
  have hfull : max (guess - 53) (-1074) = -1074 ∨
      (2 : ℚ) ^ (max (guess - 53) (-1074) + 52) ≤ num / den := by
    rcases le_total (guess - 53) (-1074) with h | h
    · exact Or.inl (max_eq_right h)
    · refine Or.inr (le_trans (le_of_eq ?_) hlow)
      rw [max_eq_left h]
      congr 1
      ring
  have hle : -1074 ≤ max (guess - 53) (-1074) := le_max_right _ _
  generalize max (guess - 53) (-1074) = least at *
  split_ifs with h
  · exact ⟨hle, (quotient_lt_iff num hden least).1 h, hfull⟩
  · refine ⟨by omega, ?_, Or.inr ?_⟩
    · rwa [add_assoc]
    · rw [add_assoc]
      exact not_lt.1 (mt (quotient_lt_iff num hden least).2 h)

/-- The quotient in units of `2 ^ e`, rounded. -/
def roundedAt (num den : ℕ) (e : ℤ) : ℕ :=
  roundQuotient (num * Nat.pow 2 (-e).toNat) (den * Nat.pow 2 e.toNat)

lemma roundsTo_roundedAt (num : ℕ) (hden : den ≠ 0) (e : ℤ) :
    RoundsTo ((num : ℚ) / den / 2 ^ e) (roundedAt num den e) := by
  rw [← Nat.cast_ofNat (R := ℚ), ← quotient_eq two_ne_zero]
  exact roundsTo_roundQuotient _ (Nat.mul_pos (Nat.pos_of_ne_zero hden) (Nat.pow_pos two_pos))

/-- The nearest double counts in units of the last place; `m` is the mantissa or, where rounding reached
the next power of two, the mantissa and a carry, which is why the bits are a sum. -/
lemma exists_nearestBits (hnum : num ≠ 0) (hden : den ≠ 0) :
    ∃ e m, IsLastPlace ((num : ℚ) / den) e ∧ RoundsTo ((num : ℚ) / den / 2 ^ e) m ∧
      nearestBits num den = min ((e + 1074).toNat * Nat.pow 2 52 + m) (2047 * Nat.pow 2 52) := by
  have hplace := isLastPlace_lastPlace hnum hden
  have hrounds := roundsTo_roundedAt num hden (lastPlace num den)
  have hbits : nearestBits num den = min
      (if roundedAt num den (lastPlace num den) < Nat.pow 2 52
        then roundedAt num den (lastPlace num den)
        else (lastPlace num den + 1074).toNat * Nat.pow 2 52 +
          roundedAt num den (lastPlace num den)) (2047 * Nat.pow 2 52) := by
    rw [nearestBits, if_neg hnum]
    rfl
  refine ⟨_, _, hplace, hrounds, hbits.trans ?_⟩
  split_ifs with hm
  · -- a mantissa that is not full is found at the least exponent only
    have he : lastPlace num den = -1074 := by
      exact hplace.full.resolve_right fun hfull => absurd hm (not_lt.2 (hrounds.pow_le hfull))
    rw [he]
    simp
  · rfl

/-- Numbers from a power of two on have at least its bits, short of the infinite. -/
lemma le_nearestBits (hnum : num ≠ 0) (hden : den ≠ 0) {k : ℤ} (hk : -1022 ≤ k)
    (hv : (2 : ℚ) ^ k ≤ num / den) :
    min ((k + 1023).toNat * Nat.pow 2 52) (2047 * Nat.pow 2 52) ≤ nearestBits num den := by
  obtain ⟨e, m, hplace, hrounds, hbits⟩ := exists_nearestBits hnum hden
  have he : k < e + 53 := (zpow_lt_zpow_iff_right₀ one_lt_two).1 (hv.trans_lt hplace.lt)
  have hm : Nat.pow 2 52 ≤ m := by
    refine hrounds.pow_le ?_
    rcases hplace.full with rfl | hfull
    · obtain rfl : k = -1022 := by omega
      exact hv
    · exact hfull
  rw [hbits]
  refine min_le_min_right _ ?_
  calc (k + 1023).toNat * Nat.pow 2 52
      ≤ ((e + 1074).toNat + 1) * Nat.pow 2 52 := Nat.mul_le_mul_right _ (by omega)
    _ = (e + 1074).toNat * Nat.pow 2 52 + Nat.pow 2 52 := Nat.succ_mul _ _
    _ ≤ (e + 1074).toNat * Nat.pow 2 52 + m := Nat.add_le_add_left hm _

/-- Numbers up to a power of two have at most its bits. -/
lemma nearestBits_le (hnum : num ≠ 0) (hden : den ≠ 0) {k : ℤ} (hk : -1022 ≤ k)
    (hv : (num / den : ℚ) ≤ 2 ^ k) :
    nearestBits num den ≤ (k + 1023).toNat * Nat.pow 2 52 := by
  obtain ⟨e, m, hplace, hrounds, hbits⟩ := exists_nearestBits hnum hden
  have he : e + 52 ≤ k := by
    rcases hplace.full with rfl | hfull
    · exact hk
    · exact (zpow_le_zpow_iff_right₀ one_lt_two).1 (hfull.trans hv)
  rw [hbits]
  refine (min_le_left _ _).trans ?_
  rcases he.eq_or_lt with rfl | hlt
  · have hm : m ≤ Nat.pow 2 52 := hrounds.le_pow hv
    calc (e + 1074).toNat * Nat.pow 2 52 + m
        ≤ (e + 1074).toNat * Nat.pow 2 52 + Nat.pow 2 52 := Nat.add_le_add_left hm _
      _ = ((e + 1074).toNat + 1) * Nat.pow 2 52 := (Nat.succ_mul _ _).symm
      _ ≤ (e + 52 + 1023).toNat * Nat.pow 2 52 := Nat.mul_le_mul_right _ (by omega)
  · have hm : m ≤ 2 * Nat.pow 2 52 := hrounds.le_pow (n := 53) hplace.lt.le
    calc (e + 1074).toNat * Nat.pow 2 52 + m
        ≤ (e + 1074).toNat * Nat.pow 2 52 + 2 * Nat.pow 2 52 := Nat.add_le_add_left hm _
      _ = ((e + 1074).toNat + 2) * Nat.pow 2 52 := (Nat.add_mul _ _ _).symm
      _ ≤ (k + 1023).toNat * Nat.pow 2 52 := Nat.mul_le_mul_right _ (by have := hplace.le; omega)

/-! ### The neighbourhood of a double -/

namespace Dyadic

variable {d : Dyadic} {v : ℚ}

/-- How far down the neighbourhood reaches, in quarters of the last place. -/
def below (d : Dyadic) : ℕ := if d.mantissa = Nat.pow 2 52 ∧ d.exponent > -1074 then 1 else 2

/-- The number is nearer to `d` than to any other double, or as near and `d` is even. -/
structure Near (d : Dyadic) (v : ℚ) : Prop where
  le : ((d.mantissa : ℚ) - d.below / 4) * 2 ^ d.exponent ≤ v
  ge : v ≤ ((d.mantissa : ℚ) + 1 / 2) * 2 ^ d.exponent
  odd : d.mantissa % 2 = 1 → ((d.mantissa : ℚ) - d.below / 4) * 2 ^ d.exponent < v ∧
    v < ((d.mantissa : ℚ) + 1 / 2) * 2 ^ d.exponent

lemma below_le (d : Dyadic) : (d.below : ℚ) ≤ 2 := by
  rw [below]
  split <;> norm_num

/-- Where the last place is that of the double, the double is what the number is rounded to. -/
lemma Near.roundsTo (h : d.Near v) : RoundsTo (v / 2 ^ d.exponent) d.mantissa := by
  have hpow : (0 : ℚ) < 2 ^ d.exponent := by positivity
  have hbelow := d.below_le
  refine ⟨?_, ?_, fun hodd => ⟨?_, ?_⟩⟩
  · linarith [(le_div_iff₀ hpow).2 h.le]
  · exact (div_le_iff₀ hpow).2 h.ge
  · linarith [(lt_div_iff₀ hpow).2 (h.odd hodd).1]
  · exact (div_lt_iff₀ hpow).2 (h.odd hodd).2

/-- The last place is at most that of the double, since the neighbourhood ends before the next power of
two. -/
lemma Near.lastPlace_le (hd : d.IsDouble) (h : d.Near v) {e : ℤ} (hplace : IsLastPlace v e) :
    e ≤ d.exponent := by
  rcases hplace.full with rfl | hfull
  · exact hd.le_exponent
  have hm : (d.mantissa : ℚ) + 1 ≤ 2 ^ 53 := by exact_mod_cast hd.mantissa_lt
  have hlt : (2 : ℚ) ^ (e + 52) < 2 ^ (d.exponent + 53) :=
    calc (2 : ℚ) ^ (e + 52) ≤ v := hfull
      _ ≤ (d.mantissa + 1 / 2) * 2 ^ d.exponent := h.ge
      _ < 2 ^ 53 * 2 ^ d.exponent := by gcongr; linarith
      _ = 2 ^ (d.exponent + 53) := two_pow_mul_zpow 53 _
  have := (zpow_lt_zpow_iff_right₀ one_lt_two).1 hlt
  omega

/-- It is smaller only for numbers below a power of two, which are rounded up to it. -/
lemma Near.lastPlace_lt (hd : d.IsDouble) (h : d.Near v) {e : ℤ} (hplace : IsLastPlace v e)
    (he : e < d.exponent) :
    d.mantissa = Nat.pow 2 52 ∧ e = d.exponent - 1 ∧ RoundsTo (v / 2 ^ e) (Nat.pow 2 53) := by
  have hpow : (0 : ℚ) < 2 ^ d.exponent := by positivity
  have hplace₀ := hplace.le
  have hfull : Nat.pow 2 52 ≤ d.mantissa := hd.full.resolve_right (by omega)
  have hlo : (d.mantissa : ℚ) - d.below / 4 ≤ v / 2 ^ d.exponent := (le_div_iff₀ hpow).2 h.le
  have hhi : v / 2 ^ d.exponent < 2 ^ 52 := by
    rw [div_lt_iff₀ hpow]
    calc v < 2 ^ (e + 53) := hplace.lt
      _ ≤ 2 ^ (d.exponent + 52) := zpow_le_zpow_right₀ one_le_two (by omega)
      _ = 2 ^ 52 * 2 ^ d.exponent := (two_pow_mul_zpow 52 _).symm
  have hm : d.mantissa = Nat.pow 2 52 := by
    refine le_antisymm ?_ hfull
    have hlt : (d.mantissa : ℚ) < (Nat.pow 2 52 + 1 : ℕ) := by
      have := d.below_le
      push_cast
      linarith
    exact Nat.lt_succ_iff.1 (by exact_mod_cast hlt)
  have hbelow : d.below = 1 := if_pos ⟨hm, by omega⟩
  rw [hm, hbelow] at hlo
  push_cast at hlo
  have he' : e = d.exponent - 1 := by
    have hlt : (2 : ℚ) ^ (d.exponent + 51) < 2 ^ (e + 53) :=
      calc (2 : ℚ) ^ (d.exponent + 51) = 2 ^ 51 * 2 ^ d.exponent := (two_pow_mul_zpow 51 _).symm
        _ < v / 2 ^ d.exponent * 2 ^ d.exponent := by gcongr; linarith
        _ = v := div_mul_cancel₀ v hpow.ne'
        _ < 2 ^ (e + 53) := hplace.lt
    have := (zpow_lt_zpow_iff_right₀ one_lt_two).1 hlt
    omega
  have hdouble : v / 2 ^ (d.exponent - 1) = 2 * (v / 2 ^ d.exponent) := by
    rw [zpow_sub_one₀ two_ne_zero]
    field_simp
  refine ⟨hm, he', ?_⟩
  rw [he', hdouble]
  refine ⟨?_, ?_, fun hodd => absurd hodd (by decide)⟩
  · push_cast
    linarith
  · push_cast
    linarith

/-- A double is what every number of its neighbourhood is rounded to. -/
lemma Near.nearestBits_eq (hd : d.IsDouble) (h : d.Near ((num : ℚ) / den)) (hnum : num ≠ 0)
    (hden : den ≠ 0) : nearestBits num den = d.bits := by
  obtain ⟨e, m, hplace, hrounds, hbits⟩ := exists_nearestBits hnum hden
  suffices hsum : (e + 1074).toNat * Nat.pow 2 52 + m = d.bits by
    rw [hbits, hsum, min_eq_left hd.bits_lt.le]
  rcases (h.lastPlace_le hd hplace).eq_or_lt with rfl | he
  · rw [hrounds.unique h.roundsTo, bits]
  · obtain ⟨hm, rfl, hcarry⟩ := h.lastPlace_lt hd hplace he
    have hle := hplace.le
    rw [hrounds.unique hcarry, bits, hm]
    simp only [Nat.pow_eq] at *
    omega

end Dyadic

end VariantFold
