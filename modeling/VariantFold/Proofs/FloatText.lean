/-
The text of a double is read as the double.

The digits that are written for a double denote a number of its neighbourhood: the search only accepts
such digits, and with seventeen of them it always ends, since the step of their grid is less than the
neighbourhood is wide (`Dyadic.exists_shortest`).  Every number of the neighbourhood is rounded to the
double, so whatever the layout is, the text is read as the double (`readFloat?_float`).
-/
import VariantFold.Proofs.Decimals
import VariantFold.Proofs.Rounding

namespace VariantFold

namespace Dyadic

variable {d : Dyadic} {n : ℕ} {scale : ℤ} {tie : Tie}

/-! ### The neighbourhood in exact arithmetic -/

lemma denominator_pos (d : Dyadic) : (0 : ℚ) < d.interval.denominator :=
  Nat.cast_pos.2 (Nat.pow_pos two_pos)

/-- The ends and the middle of a neighbourhood are counted in quarters of the last place. -/
lemma quarters_div (d : Dyadic) (q : ℕ) :
    ((q * Nat.pow 2 (d.exponent - 2).toNat : ℕ) : ℚ) / d.interval.denominator =
      q / 4 * 2 ^ d.exponent := by
  have hfour : (2 : ℚ) ^ d.exponent = 4 * 2 ^ (d.exponent - 2) := by
    rw [zpow_sub₀ two_ne_zero]
    norm_num
    ring
  rw [hfour, zpow_toNat two_ne_zero (d.exponent - 2), interval, neg_sub]
  push_cast
  ring

lemma centre_div (d : Dyadic) :
    (d.interval.centre : ℚ) / d.interval.denominator = d.mantissa * 2 ^ d.exponent := by
  rw [show d.interval.centre = 4 * d.mantissa * Nat.pow 2 (d.exponent - 2).toNat from rfl, quarters_div]
  push_cast
  ring

lemma upper_div (d : Dyadic) : (d.interval.upper : ℚ) / d.interval.denominator =
    ((d.mantissa : ℚ) + 1 / 2) * 2 ^ d.exponent := by
  rw [show d.interval.upper = (4 * d.mantissa + 2) * Nat.pow 2 (d.exponent - 2).toNat from rfl,
    quarters_div]
  push_cast
  ring

lemma lower_div (hm : d.mantissa ≠ 0) : (d.interval.lower : ℚ) / d.interval.denominator =
    ((d.mantissa : ℚ) - d.below / 4) * 2 ^ d.exponent := by
  have hle : d.below ≤ 4 * d.mantissa := by
    have hbelow : d.below ≤ 2 := by exact_mod_cast d.below_le
    omega
  rw [show d.interval.lower = (4 * d.mantissa - d.below) * Nat.pow 2 (d.exponent - 2).toNat from rfl,
    quarters_div, Nat.cast_sub hle]
  push_cast
  ring

/-- Both sides of a test are multiplied by the denominators. -/
lemma end_le_iff (d : Dyadic) (a n : ℕ) (scale : ℤ) :
    a * Nat.pow 10 (-scale).toNat ≤ n * Nat.pow 10 scale.toNat * d.interval.denominator ↔
      (a : ℚ) / d.interval.denominator ≤ n * 10 ^ scale := by
  rw [div_le_iff₀ d.denominator_pos, zpow_toNat (by norm_num), ← mul_div_assoc, div_mul_eq_mul_div,
    le_div_iff₀ (by positivity)]
  exact_mod_cast Iff.rfl

lemma le_end_iff (d : Dyadic) (a n : ℕ) (scale : ℤ) :
    n * Nat.pow 10 scale.toNat * d.interval.denominator ≤ a * Nat.pow 10 (-scale).toNat ↔
      n * 10 ^ scale ≤ (a : ℚ) / d.interval.denominator := by
  rw [le_div_iff₀ d.denominator_pos, zpow_toNat (by norm_num), ← mul_div_assoc, div_mul_eq_mul_div,
    div_le_iff₀ (by positivity)]
  exact_mod_cast Iff.rfl

/-- The search tests whether a decimal is in the neighbourhood. -/
lemma holds_iff (hm : d.mantissa ≠ 0) :
    d.interval.holds n scale = true ↔ d.Near (n * 10 ^ scale) := by
  have hlower := d.end_le_iff d.interval.lower n scale
  have hupper := d.le_end_iff d.interval.upper n scale
  have hlower' := not_congr (d.le_end_iff d.interval.lower n scale)
  have hupper' := not_congr (d.end_le_iff d.interval.upper n scale)
  rw [not_le, not_le] at hlower' hupper'
  rw [lower_div hm] at hlower hlower'
  rw [upper_div] at hupper hupper'
  have hclosed : d.interval.closed = decide (d.mantissa % 2 = 0) := rfl
  rw [Interval.holds, hclosed]
  by_cases heven : d.mantissa % 2 = 0
  · rw [if_pos (decide_eq_true heven), decide_eq_true_iff, hlower, hupper]
    exact ⟨fun h => ⟨h.1, h.2, fun hodd => absurd hodd (by omega)⟩, fun h => ⟨h.le, h.ge⟩⟩
  · rw [if_neg (by simpa using heven), decide_eq_true_iff, hlower', hupper']
    exact ⟨fun h => ⟨h.1.le, h.2.le, fun _ => h⟩, fun h => h.odd (by omega)⟩

/-- What is nearer than a part in `2 ^ 54` is in the neighbourhood. -/
lemma near_of_close (hd : d.IsDouble) {y : ℚ}
    (hy : |y - d.mantissa * 2 ^ d.exponent| < d.mantissa * 2 ^ d.exponent / 2 ^ 54) : d.Near y := by
  have hpow : (0 : ℚ) < 2 ^ d.exponent := by positivity
  have hm : (d.mantissa : ℚ) < 2 ^ 53 := by exact_mod_cast hd.mantissa_lt
  have hbelow : (d.mantissa : ℚ) ≤ d.below / 4 * 2 ^ 54 := by
    rw [below]
    split_ifs with h
    · rw [h.1]
      norm_num
    · push_cast
      linarith
  obtain ⟨hlo, hhi⟩ := abs_lt.1 hy
  have hlower : ((d.mantissa : ℚ) - d.below / 4) * 2 ^ d.exponent < y := by
    have : d.mantissa * 2 ^ d.exponent / 2 ^ 54 ≤ d.below / 4 * (2 : ℚ) ^ d.exponent := by
      rw [div_le_iff₀ (by positivity)]
      nlinarith
    linarith
  have hupper : y < ((d.mantissa : ℚ) + 1 / 2) * 2 ^ d.exponent := by
    have : d.mantissa * 2 ^ d.exponent / 2 ^ 54 ≤ 1 / 2 * (2 : ℚ) ^ d.exponent := by
      rw [div_le_iff₀ (by positivity)]
      nlinarith
    linarith
  exact ⟨hlower.le, hupper.le, fun _ => ⟨hlower, hupper⟩⟩

/-! ### The search -/

namespace Interval

/-- The last decimal on a grid that is not greater than the number. -/
def low (i : Interval) (scale : ℤ) : ℕ :=
  i.centre * Nat.pow 10 (-scale).toNat / (i.denominator * Nat.pow 10 scale.toNat)

/-- If both decimals next to the number pass, one of them is taken. -/
lemma onGrid_both {i : Interval} {scale : ℤ} (tie : Tie) (hlow : i.holds (i.low scale) scale = true)
    (hhigh : i.holds (i.low scale + 1) scale = true) :
    i.onGrid tie scale = some (i.low scale) ∨ i.onGrid tie scale = some (i.low scale + 1) := by
  rw [low] at *
  simp only [onGrid, hlow, hhigh]
  cases tie <;> dsimp only <;> split_ifs <;> simp

/-- The decimals next to the number are tested, and one that passes is taken. -/
lemma onGrid_cases (i : Interval) (tie : Tie) (scale : ℤ) :
    (∃ n, i.onGrid tie scale = some n ∧ i.holds n scale = true) ∨
      i.holds (i.low scale) scale = false ∧ i.holds (i.low scale + 1) scale = false := by
  cases hlow : i.holds (i.low scale) scale with
  | false =>
    cases hhigh : i.holds (i.low scale + 1) scale with
    | false => exact Or.inr ⟨rfl, rfl⟩
    | true =>
      refine Or.inl ⟨i.low scale + 1, ?_, hhigh⟩
      rw [low] at *
      simp only [onGrid, hlow, hhigh]
  | true =>
    refine Or.inl ?_
    cases hhigh : i.holds (i.low scale + 1) scale with
    | false =>
      refine ⟨i.low scale, ?_, hlow⟩
      rw [low] at *
      simp only [onGrid, hlow, hhigh]
    | true =>
      rcases onGrid_both tie hlow hhigh with h | h
      · exact ⟨_, h, hlow⟩
      · exact ⟨_, h, hhigh⟩

lemma holds_of_onGrid {i : Interval} {tie : Tie} {scale : ℤ} {n : ℕ}
    (h : i.onGrid tie scale = some n) : i.holds n scale = true := by
  rcases i.onGrid_cases tie scale with ⟨n', hn', hholds⟩ | ⟨hlow, hhigh⟩
  · rw [Option.some_injective _ (h.symm.trans hn')]
    exact hholds
  · rw [low] at hlow hhigh
    simp only [onGrid, hlow, hhigh] at h
    exact absurd h (by simp)

end Interval

/-- The decimal before the number, and the next one after it. -/
lemma low_bounds (d : Dyadic) (scale : ℤ) :
    (d.interval.low scale : ℚ) * 10 ^ scale ≤ d.mantissa * 2 ^ d.exponent ∧
      d.mantissa * 2 ^ d.exponent < ((d.interval.low scale + 1 : ℕ) : ℚ) * 10 ^ scale := by
  have hstep : (0 : ℚ) < 10 ^ scale := by positivity
  have hunit : 0 < d.interval.denominator * Nat.pow 10 scale.toNat :=
    Nat.mul_pos (Nat.cast_pos.1 d.denominator_pos) (Nat.pow_pos (by norm_num))
  have hquotient := quotient_eq (b := 10) (by norm_num) d.interval.centre d.interval.denominator scale
  rw [centre_div, Nat.cast_ofNat] at hquotient
  rw [← le_div_iff₀ hstep, ← div_lt_iff₀ hstep, ← hquotient, le_div_iff₀ (Nat.cast_pos.2 hunit),
    div_lt_iff₀ (Nat.cast_pos.2 hunit)]
  constructor
  · exact_mod_cast Nat.div_mul_le_self _ _
  · exact_mod_cast Nat.lt_mul_of_div_lt (Nat.lt_succ_self _) hunit

/-- The first digit counts a power of ten that is not greater than the number. -/
lemma Interval.ten_zpow_leading_le {i : Interval} (hcentre : i.centre ≠ 0)
    (hdenominator : i.denominator ≠ 0) : (10 : ℚ) ^ i.leading ≤ i.centre / i.denominator := by
  have hpos : (0 : ℚ) < i.denominator := Nat.cast_pos.2 (Nat.pos_of_ne_zero hdenominator)
  obtain ⟨hlow, -⟩ := natDigits_bounds hcentre
  obtain ⟨-, hhigh⟩ := natDigits_bounds hdenominator
  rw [leading]
  generalize hguess : ((natDigits i.centre).length : ℤ) - (natDigits i.denominator).length = guess
  split_ifs with hlt
  · rw [le_div_iff₀ hpos]
    calc (10 : ℚ) ^ (guess - 1) * i.denominator
        ≤ 10 ^ (guess - 1) * 10 ^ ((natDigits i.denominator).length : ℤ) := by gcongr
      _ = 10 ^ (((natDigits i.centre).length : ℤ) - 1) := by
          rw [← zpow_add₀ (by norm_num), ← hguess]
          congr 1
          ring
      _ ≤ i.centre := hlow
  · have hunit : 0 < i.denominator * Nat.pow 10 guess.toNat :=
      Nat.mul_pos (Nat.pos_of_ne_zero hdenominator) (Nat.pow_pos (by norm_num))
    have hquotient := quotient_eq (b := 10) (by norm_num) i.centre i.denominator guess
    rw [Nat.cast_ofNat] at hquotient
    rw [← one_le_div (by positivity), ← hquotient, one_le_div (Nat.cast_pos.2 hunit)]
    exact Nat.cast_le.2 (not_lt.1 hlt)

/-- With seventeen digits one of the two decimals next to the number is in the neighbourhood: half the step
of their grid is at most a part in `2 * 10 ^ 16`. -/
lemma holds_seventeen (hd : d.IsDouble) (hm : d.mantissa ≠ 0) (hscale : scale = d.interval.leading - 16) :
    d.interval.holds (d.interval.low scale) scale = true ∨
      d.interval.holds (d.interval.low scale + 1) scale = true := by
  have hcentre : d.interval.centre ≠ 0 :=
    Nat.mul_ne_zero (Nat.mul_ne_zero (by decide) hm) (Nat.pow_pos two_pos).ne'
  have hleading := Interval.ten_zpow_leading_le hcentre (Nat.cast_pos.1 d.denominator_pos).ne'
  rw [centre_div] at hleading
  have hstep : (10 : ℚ) ^ scale * 10 ^ 16 ≤ d.mantissa * 2 ^ d.exponent := by
    refine le_trans (le_of_eq ?_) hleading
    rw [hscale, zpow_sub₀ (by norm_num)]
    norm_num
  have hpos : (0 : ℚ) < d.mantissa * 2 ^ d.exponent := by
    have : (0 : ℚ) < d.mantissa := Nat.cast_pos.2 (Nat.pos_of_ne_zero hm)
    positivity
  obtain ⟨hlow, hhigh⟩ := d.low_bounds scale
  push_cast at hhigh
  rw [holds_iff hm, holds_iff hm]
  rcases le_total (d.mantissa * 2 ^ d.exponent - d.interval.low scale * 10 ^ scale : ℚ) (10 ^ scale / 2)
    with hnear | hnear
  · refine Or.inl (near_of_close hd ?_)
    rw [abs_lt]
    constructor <;> linarith
  · refine Or.inr (near_of_close hd ?_)
    push_cast
    rw [abs_lt]
    constructor <;> linarith

/-- The digits that are written for a double denote a number of its neighbourhood. -/
lemma exists_shortest (hd : d.IsDouble) (hm : d.mantissa ≠ 0) (tie : Tie) :
    ∃ n scale, d.shortest tie = Decimal.ofScaled n scale ∧ d.Near (n * 10 ^ scale) := by
  obtain ⟨f, hf⟩ : ∃ f : ℕ → Option Decimal, f = fun k : ℕ =>
      (d.interval.onGrid tie (d.interval.leading - k)).map fun n =>
        Decimal.ofScaled n (d.interval.leading - k) := ⟨_, rfl⟩
  have hshortest : d.shortest tie = ((List.range 17).findSome? f).getD ⟨['0'], 0⟩ := by
    rw [shortest, if_neg hm, hf]
  -- the search ends at the latest with seventeen digits
  have hsome : ((List.range 17).findSome? f).isSome = true := by
    refine List.findSome?_isSome_iff.2 ⟨16, by simp, ?_⟩
    rw [hf]
    rcases d.interval.onGrid_cases tie (d.interval.leading - (16 : ℕ)) with ⟨n, hn, -⟩ | ⟨hlow, hhigh⟩
    · dsimp only
      rw [hn]
      rfl
    · rcases holds_seventeen hd hm rfl with h | h
      · exact absurd (hlow.symm.trans h) (by simp)
      · exact absurd (hhigh.symm.trans h) (by simp)
  obtain ⟨decimal, hdecimal⟩ := Option.isSome_iff_exists.1 hsome
  obtain ⟨k, -, hk⟩ := List.exists_of_findSome?_eq_some hdecimal
  rw [hf] at hk
  obtain ⟨n, hn, rfl⟩ := Option.map_eq_some_iff.1 hk
  refine ⟨n, d.interval.leading - k, ?_, (holds_iff hm).1 (Interval.holds_of_onGrid hn)⟩
  rw [hshortest, hdecimal, Option.getD_some]

/-! ### Reading -/

lemma two_zpow_le_ten_zpow (k : ℕ) : (2 : ℚ) ^ ((3 * k : ℕ) : ℤ) ≤ 10 ^ (k : ℤ) := by
  rw [zpow_natCast, zpow_natCast, pow_mul]
  exact pow_le_pow_left₀ (by norm_num) (by norm_num) k

/-- The neighbourhoods of the doubles lie far inside of what is recognised as too small or too large. -/
lemma Near.bounds {v : ℚ} (hd : d.IsDouble) (hm : d.mantissa ≠ 0) (h : d.Near v) :
    (10 : ℚ) ^ (-400 : ℤ) < v ∧ v < 10 ^ (400 : ℤ) := by
  have hpow : (0 : ℚ) < 2 ^ d.exponent := by positivity
  have hone : (1 : ℚ) ≤ d.mantissa := Nat.one_le_cast.2 (Nat.one_le_iff_ne_zero.2 hm)
  have hlt : (d.mantissa : ℚ) + 1 ≤ 2 ^ 53 := by exact_mod_cast hd.mantissa_lt
  have hbelow := d.below_le
  constructor
  · calc (10 : ℚ) ^ (-400 : ℤ) < 10 ^ (-((359 : ℕ) : ℤ)) :=
          zpow_lt_zpow_right₀ (by norm_num) (by norm_num)
      _ ≤ 2 ^ (-((3 * 359 : ℕ) : ℤ)) := by
          rw [zpow_neg, zpow_neg]
          exact inv_anti₀ (zpow_pos two_pos _) (two_zpow_le_ten_zpow 359)
      _ ≤ 2 ^ (d.exponent - 1) := zpow_le_zpow_right₀ one_le_two (by have := hd.le_exponent; omega)
      _ = 1 / 2 * 2 ^ d.exponent := by
          rw [zpow_sub_one₀ two_ne_zero]
          ring
      _ ≤ (d.mantissa - d.below / 4) * 2 ^ d.exponent := by gcongr; linarith
      _ ≤ v := h.le
  · calc v ≤ (d.mantissa + 1 / 2) * 2 ^ d.exponent := h.ge
      _ ≤ 2 ^ 53 * 2 ^ d.exponent := by gcongr; linarith
      _ = 2 ^ (d.exponent + 53) := two_pow_mul_zpow 53 _
      _ ≤ 2 ^ ((3 * 342 : ℕ) : ℤ) :=
          zpow_le_zpow_right₀ one_le_two (by have := hd.exponent_le; omega)
      _ ≤ 10 ^ ((342 : ℕ) : ℤ) := two_zpow_le_ten_zpow 342
      _ < 10 ^ (400 : ℤ) := zpow_lt_zpow_right₀ (by norm_num) (by norm_num)

lemma Near.ne_zero (hd : d.IsDouble) (hm : d.mantissa ≠ 0) (h : d.Near (n * 10 ^ scale)) : n ≠ 0 := by
  rintro rfl
  have hlow := (h.bounds hd hm).1
  rw [Nat.cast_zero, zero_mul] at hlow
  exact absurd hlow (not_lt.2 (by positivity))

/-- Any decimal of the neighbourhood of a double is read as the double. -/
lemma Near.nearestFloat_eq (hd : d.IsDouble) (hm : d.mantissa ≠ 0) (h : d.Near (n * 10 ^ scale))
    (negative : Bool) : nearestFloat negative n scale = floatOfMagnitude negative d.bits := by
  obtain ⟨hlow, hhigh⟩ := h.bounds hd hm
  have hn := h.ne_zero hd hm
  obtain ⟨hfirst, hnext⟩ := natDigits_bounds hn
  have hlt : -400 < scale + (natDigits n).length := by
    have : (10 : ℚ) ^ (-400 : ℤ) < 10 ^ (scale + (natDigits n).length) :=
      calc (10 : ℚ) ^ (-400 : ℤ) < n * 10 ^ scale := hlow
        _ < 10 ^ ((natDigits n).length : ℤ) * 10 ^ scale := by gcongr
        _ = 10 ^ (scale + (natDigits n).length) := by rw [← zpow_add₀ (by norm_num), add_comm]
    exact (zpow_lt_zpow_iff_right₀ (by norm_num)).1 this
  have hgt : scale + (natDigits n).length - 1 < 400 := by
    have : (10 : ℚ) ^ (scale + (natDigits n).length - 1) < 10 ^ (400 : ℤ) :=
      calc (10 : ℚ) ^ (scale + (natDigits n).length - 1)
          = 10 ^ (((natDigits n).length : ℤ) - 1) * 10 ^ scale := by
            rw [← zpow_add₀ (by norm_num)]
            congr 1
            ring
        _ ≤ n * 10 ^ scale := by gcongr
        _ < 10 ^ (400 : ℤ) := hhigh
    exact (zpow_lt_zpow_iff_right₀ (by norm_num)).1 this
  rw [nearestFloat, if_neg (not_or.2 ⟨hn, by omega⟩), if_neg (by omega)]
  have hquotient : ((n * Nat.pow 10 scale.toNat : ℕ) : ℚ) / (Nat.pow 10 (-scale).toNat : ℕ) =
      n * 10 ^ scale := by
    rw [zpow_toNat (by norm_num)]
    push_cast
    ring
  rw [← hquotient] at h
  rw [h.nearestBits_eq hd (Nat.mul_ne_zero hn (Nat.pow_pos (by norm_num)).ne')
    (Nat.pow_pos (by norm_num)).ne']

end Dyadic

/-- The text of a finite double, whatever its layout, is read as the double. -/
lemma readFloat?_float (layout : Layout) {x : Float} (hx : x.isFinite = true) :
    readFloat? (layout.float x) = some x := by
  have hd := Dyadic.isDouble_ofFloat hx
  rw [Layout.float]
  by_cases hm : (Dyadic.ofFloat x).mantissa = 0
  · have hshortest : (Dyadic.ofFloat x).shortest layout.tie = ⟨['0'], 0⟩ := by
      rw [Dyadic.shortest, if_pos hm]
    obtain ⟨significand, scale, hvalue, hread⟩ :=
      readFloat?_write layout (signBit x) (d := ⟨['0'], 0⟩) ⟨by simp, by simp⟩
    have hzero : significand = 0 := by
      have hdigit : digitsValue ['0'] = 0 := rfl
      rw [Decimal.value, hdigit, Nat.cast_zero, zero_mul] at hvalue
      exact Nat.cast_eq_zero.1 ((mul_eq_zero.1 hvalue).resolve_right (by positivity))
    have hbits := hd.bits_eq_zero hm
    rw [hshortest, hread, hzero, nearestFloat, if_pos (Or.inl rfl), ← hbits, floatOfMagnitude_ofFloat]
  · obtain ⟨n, scale, hshortest, hnear⟩ := Dyadic.exists_shortest hd hm layout.tie
    obtain ⟨significand, scale', hvalue, hread⟩ :=
      readFloat?_write layout (signBit x) (Decimal.isProper_ofScaled n scale)
    rw [Decimal.value_ofScaled] at hvalue
    rw [hshortest, hread, Dyadic.Near.nearestFloat_eq hd hm (hvalue ▸ hnear), floatOfMagnitude_ofFloat]

end VariantFold
