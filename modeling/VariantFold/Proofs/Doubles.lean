/-
The bits of doubles.

A finite double is a sign and a magnitude, a number `mantissa · 2 ^ exponent` with a mantissa of at most 53
bits.  The bits of a double are those of its sign and of its magnitude (`toNat_toBits_floatOfMagnitude`), so
doubles are compared by signs and magnitudes (`floatOfMagnitude_beq_iff`), and every finite double is made of
a sign and a magnitude (`floatOfMagnitude_ofFloat`).
-/
import Mathlib
import VariantFold.Decimal.Nearest
import VariantFold.Decimal.Shortest

namespace VariantFold

open Float.Model (Format UnpackedFloat)
open Float.Model.UnpackedFloat (isNaNBits pack_unpack unpackExponent)

lemma isFinite_eq_false_iff (x : Float) : x.isFinite = false ↔ x.isNaN = true ∨ x.isInf = true := by
  change x.toModel.unpack.isFinite = false ↔
    x.toModel.unpack.isNaN = true ∨ x.toModel.unpack.isInf = true
  cases x.toModel.unpack <;>
    simp [UnpackedFloat.isFinite, UnpackedFloat.isNaN, UnpackedFloat.isInf]

/-! ### Signs and magnitudes -/

variable {negative negative' : Bool} {n n' : ℕ}

/-- The bits of a sign and a magnitude. -/
def signedBits (negative : Bool) (n : ℕ) : ℕ := if negative then Nat.pow 2 63 + n else n

lemma signedBits_inj (hn : n < 2047 * Nat.pow 2 52) (hn' : n' < 2047 * Nat.pow 2 52) :
    signedBits negative n = signedBits negative' n' ↔ negative = negative' ∧ n = n' := by
  simp only [Nat.pow_eq] at hn hn'
  cases negative <;> cases negative' <;> simp [signedBits] <;> omega

lemma toNat_unpackExponent (w : BitVec Format.binary64.numBits) :
    (unpackExponent w).toNat = w.toNat / Nat.pow 2 52 % Nat.pow 2 11 := by
  simp [unpackExponent, Nat.shiftRight_eq_div_pow]

/-- The exponent of what is not a number has all bits set. -/
lemma isNaNBits_eq_false {w : BitVec Format.binary64.numBits}
    (hw : w.toNat / Nat.pow 2 52 % Nat.pow 2 11 ≠ 2047) : isNaNBits w = false := by
  refine decide_eq_false fun h => hw ?_
  rw [← toNat_unpackExponent, h.1]
  rfl

/-- Short of the infinite, the bits of a double are those that it is made of. -/
lemma toNat_toBits_floatOfMagnitude (negative : Bool) (hn : n < 2047 * Nat.pow 2 52) :
    (floatOfMagnitude negative n).toBits.toNat = signedBits negative n := by
  have hword : (UInt64.ofNat (signedBits negative n)).toNat = signedBits negative n := by
    rw [UInt64.toNat_ofNat', Nat.mod_eq_of_lt]
    simp only [signedBits, Nat.pow_eq] at *
    split <;> omega
  obtain ⟨w, hw⟩ : ∃ w : BitVec Format.binary64.numBits,
      w = (UInt64.ofNat (signedBits negative n)).toBitVec := ⟨_, rfl⟩
  have htoNat : w.toNat = signedBits negative n := by
    rw [hw]
    exact hword
  have hnan : isNaNBits w = false := by
    refine isNaNBits_eq_false ?_
    simp only [htoNat, signedBits, Nat.pow_eq] at *
    split <;> omega
  have hpack := pack_unpack w
  rw [hnan, if_neg (by simp)] at hpack
  change (UnpackedFloat.pack .binary64 (UnpackedFloat.unpack .binary64
    (UInt64.ofNat (signedBits negative n)).toBitVec)).toNat = _
  rw [← hw, hpack, htoNat]

lemma floatOfMagnitude_inj (hn : n < 2047 * Nat.pow 2 52) (hn' : n' < 2047 * Nat.pow 2 52) :
    floatOfMagnitude negative n = floatOfMagnitude negative' n' ↔ negative = negative' ∧ n = n' := by
  rw [← signedBits_inj hn hn', ← toNat_toBits_floatOfMagnitude negative hn,
    ← toNat_toBits_floatOfMagnitude negative' hn', UInt64.toNat_inj, Float.toBits_inj]

lemma floatOfMagnitude_ne_nan (negative : Bool) (hn : n < 2047 * Nat.pow 2 52) :
    floatOfMagnitude negative n ≠ Float.nan := by
  intro h
  have hbits := toNat_toBits_floatOfMagnitude negative hn
  rw [h] at hbits
  change 2047 * Nat.pow 2 52 + Nat.pow 2 51 = _ at hbits
  simp only [signedBits, Nat.pow_eq] at *
  split at hbits <;> omega

/-- Doubles are equal if their signs and magnitudes are, and zeros always. -/
lemma floatOfMagnitude_beq_iff (hn : n < 2047 * Nat.pow 2 52) (hn' : n' < 2047 * Nat.pow 2 52) :
    (floatOfMagnitude negative n == floatOfMagnitude negative' n') = true ↔
      n = n' ∧ (negative = negative' ∨ n = 0) := by
  have hzero : 0 < 2047 * Nat.pow 2 52 := by decide
  have hpos : (0 : Float) = floatOfMagnitude false 0 := rfl
  have hneg : -floatOfMagnitude false 0 = floatOfMagnitude true 0 := rfl
  rw [Float.beq_iff_ne_nan_and_eq, hpos, hneg, floatOfMagnitude_inj hn hn', floatOfMagnitude_inj hn hzero,
    floatOfMagnitude_inj hn' hzero, floatOfMagnitude_inj hn hzero, floatOfMagnitude_inj hn' hzero,
    and_iff_right (floatOfMagnitude_ne_nan negative hn),
    and_iff_right (floatOfMagnitude_ne_nan negative' hn')]
  cases negative <;> cases negative' <;> simp <;> omega

/-! ### Mantissas and exponents -/

/-- Only what is not finite has an exponent with all bits set. -/
lemma exponent_ne_of_isFinite {x : Float} (hx : x.isFinite = true) :
    x.toBits.toNat / Nat.pow 2 52 % Nat.pow 2 11 ≠ 2047 := by
  intro h
  obtain ⟨w, hw⟩ : ∃ w : BitVec Format.binary64.numBits, w = x.toBits.toBitVec := ⟨_, rfl⟩
  have hE : unpackExponent w = -1#_ := by
    refine BitVec.eq_of_toNat_eq ((toNat_unpackExponent w).trans ?_)
    rw [hw]
    exact h
  have hfinite : (UnpackedFloat.unpack .binary64 w).isFinite = true := by
    rw [hw]
    exact hx
  rw [UnpackedFloat.unpack] at hfinite
  dsimp only at hfinite
  rw [if_pos hE] at hfinite
  split at hfinite <;> exact absurd hfinite (by simp [UnpackedFloat.isFinite])

namespace Dyadic

variable {d : Dyadic}

/-- The number is the magnitude of a finite double. -/
structure IsDouble (d : Dyadic) : Prop where
  mantissa_lt : d.mantissa < Nat.pow 2 53
  le_exponent : -1074 ≤ d.exponent
  exponent_le : d.exponent ≤ 971
  /-- Only for the least exponent there may be zeros in front. -/
  full : Nat.pow 2 52 ≤ d.mantissa ∨ d.exponent = -1074

/-- The bits of a double without its sign. -/
def bits (d : Dyadic) : ℕ := (d.exponent + 1074).toNat * Nat.pow 2 52 + d.mantissa

lemma IsDouble.bits_lt (h : d.IsDouble) : d.bits < 2047 * Nat.pow 2 52 := by
  obtain ⟨hlt, hle, hge, hfull⟩ := h
  simp only [bits, Nat.pow_eq] at *
  omega

/-- Zero has the least exponent. -/
lemma IsDouble.bits_eq_zero (h : d.IsDouble) (hm : d.mantissa = 0) : d.bits = 0 := by
  have hfull := h.full
  simp only [bits, Nat.pow_eq, hm] at *
  omega

variable {x : Float}

lemma isDouble_ofFloat (hx : x.isFinite = true) : (ofFloat x).IsDouble := by
  have hfield := exponent_ne_of_isFinite hx
  rw [ofFloat]
  split_ifs with hzero
  · refine ⟨?_, ?_, ?_, Or.inr rfl⟩ <;> simp only [Nat.pow_eq] at * <;> omega
  · refine ⟨?_, ?_, ?_, Or.inl ?_⟩ <;> simp only [Nat.pow_eq] at * <;> omega

lemma signedBits_ofFloat (x : Float) : signedBits (signBit x) (ofFloat x).bits = x.toBits.toNat := by
  have hlt := x.toBits.toNat_lt
  have hsign : signBit x = true ↔ x.toBits.toNat / Nat.pow 2 63 = 1 := decide_eq_true_iff
  have hbits : (ofFloat x).bits = x.toBits.toNat % Nat.pow 2 63 := by
    rw [bits, ofFloat]
    split_ifs with hzero <;> simp only [Nat.pow_eq] at * <;> omega
  rw [signedBits, hbits]
  simp only [hsign, Nat.pow_eq] at *
  split <;> omega

end Dyadic

/-- A finite double is made of its sign and its magnitude. -/
lemma floatOfMagnitude_ofFloat (x : Float) :
    floatOfMagnitude (signBit x) (Dyadic.ofFloat x).bits = x := by
  change Float.ofBits (UInt64.ofNat (signedBits (signBit x) (Dyadic.ofFloat x).bits)) = x
  rw [Dyadic.signedBits_ofFloat, UInt64.ofNat_toNat, Float.ofBits_toBits]

end VariantFold
