/-
Strict comparisons.

The four operators share one equality, so a strict comparison does not tell a truth value from the number
that it counts as: `true === 1` is carried out as true.  This is all that it confuses.  Of the literals that
are null, truth values, whole numbers or strings other than the words `on` and `off`, two are equal to a
strict comparison exactly if they are the same or one is a truth value and the other the number zero or one
that it counts as (`Scalar.looseEq_iff`).  That whole numbers are converted to doubles first does no harm:
none but zero and one is rounded to zero or one.
-/
import VariantFold.Proofs.Operands
import VariantFold.Proofs.Rounding
import VariantFold.Proofs.StringTests

namespace VariantFold

/-! ### Whole numbers as doubles -/

lemma natAbs_toInt_le (n : Int64) : n.toInt.natAbs ≤ Nat.pow 2 63 := by
  have hle := n.le_toInt
  have hlt := n.toInt_lt
  simp only [Nat.pow_eq]
  omega

/-- No whole number of 64 bits is converted to an infinity. -/
lemma nearestBits_natAbs_lt (n : Int64) : nearestBits n.toInt.natAbs 1 < 2047 * Nat.pow 2 52 := by
  by_cases hn : n.toInt.natAbs = 0
  · rw [hn]
    decide
  · have hv : ((n.toInt.natAbs : ℚ) / (1 : ℕ)) ≤ 2 ^ (63 : ℤ) := by
      have hle : (n.toInt.natAbs : ℚ) ≤ (Nat.pow 2 63 : ℕ) := Nat.cast_le.2 (natAbs_toInt_le n)
      rw [Nat.cast_one, div_one]
      exact hle.trans (by norm_num)
    have hle := nearestBits_le hn one_ne_zero (by decide) hv
    exact hle.trans_lt (by decide)

/-- Rounding does not take a whole number below a power of two. -/
lemma le_nearestBits_natCast {n k : ℕ} (hn : Nat.pow 2 k ≤ n) :
    min (((k : ℤ) + 1023).toNat * Nat.pow 2 52) (2047 * Nat.pow 2 52) ≤ nearestBits n 1 := by
  have hpos : 0 < n := (Nat.pow_pos two_pos).trans_le hn
  have hv : (2 : ℚ) ^ (k : ℤ) ≤ (n : ℚ) / (1 : ℕ) := by
    rw [zpow_natCast, Nat.cast_one, div_one]
    exact_mod_cast hn
  exact le_nearestBits hpos.ne' one_ne_zero (by omega) hv

/-- The bits of the number that a truth value counts as. -/
def boolBits (b : Bool) : ℕ := if b then 1023 * Nat.pow 2 52 else 0

lemma boolBits_lt (b : Bool) : boolBits b < 2047 * Nat.pow 2 52 := by
  cases b <;> decide

lemma floatOfMagnitude_boolBits (b : Bool) :
    (if b then 1 else 0 : Float) = floatOfMagnitude false (boolBits b) := by
  cases b <;> rfl

/-- Only zero is rounded to zero, and only one to one. -/
lemma nearestBits_eq_boolBits_iff {n : ℕ} {b : Bool} :
    nearestBits n 1 = boolBits b ↔ n = if b then 1 else 0 := by
  rcases n with _ | _ | n
  · cases b <;> decide
  · cases b <;> decide
  · have hle := le_nearestBits_natCast (n := n + 2) (k := 1) (Nat.le_add_left 2 n)
    refine iff_of_false (fun h => ?_) (by cases b <;> simp)
    rw [h] at hle
    cases b <;> exact absurd hle (by decide)

/-- A whole number equals the double of a truth value only if it is the number of the truth value. -/
lemma floatOfInt_beq_bool (n : Int64) (b : Bool) :
    (floatOfInt n.toInt == if b then 1 else 0) = true ↔ n = if b then 1 else 0 := by
  have hzero : nearestBits n.toInt.natAbs 1 = 0 ↔ n.toInt.natAbs = 0 :=
    nearestBits_eq_boolBits_iff (b := false)
  rw [floatOfMagnitude_boolBits, floatOfInt,
    floatOfMagnitude_beq_iff (nearestBits_natAbs_lt n) (boolBits_lt b), nearestBits_eq_boolBits_iff,
    hzero, decide_eq_false_iff_not, ← Int64.toInt_inj]
  cases b
  · change n.toInt.natAbs = 0 ∧ _ ↔ n.toInt = 0
    omega
  · change n.toInt.natAbs = 1 ∧ _ ↔ n.toInt = 1
    omega

lemma bool_beq_floatOfInt (n : Int64) (b : Bool) :
    ((if b then 1 else 0) == floatOfInt n.toInt) = true ↔ n = if b then 1 else 0 := by
  rw [BEq.comm, floatOfInt_beq_bool]

/-! ### Equality of literals -/

namespace Scalar

/-- Neither a number with a fraction nor one of the words that count as truth values. -/
def isPlain : Scalar → Bool
  | .float _ => false
  | .string s => s ≠ "on" ∧ s ≠ "off"
  | _ => true

/-- The first is a truth value and the second the number that it counts as. -/
def CountsAs (a b : Scalar) : Prop := ∃ flag : Bool, a = .bool flag ∧ b = .int (if flag then 1 else 0)

lemma comparisonOperand_eq {a : Scalar} (ha : a.isPlain = true) : comparisonOperand a = a := by
  cases a with
  | string s =>
    obtain ⟨hon, hoff⟩ := of_decide_eq_true ha
    rw [comparisonOperand_string, if_neg hon, if_neg hoff]
  | null | bool _ | int _ | float _ => rfl

lemma countsAs_bool_int {b : Bool} {n : Int64} :
    CountsAs (.bool b) (.int n) ↔ n = if b then 1 else 0 := by
  simp [CountsAs]

/-- Equal are the same literals, and besides only truth values and the numbers that they count as. -/
lemma looseEq_iff {a b : Scalar} (ha : a.isPlain = true) (hb : b.isPlain = true) :
    a.looseEq b = true ↔ a = b ∨ a.CountsAs b ∨ b.CountsAs a := by
  cases a with
  | float x => exact absurd ha (by simp [isPlain])
  | null => cases b <;> simp_all [looseEq, number?, CountsAs, isPlain]
  | string s => cases b <;> simp_all [looseEq, number?, CountsAs, isPlain]
  | bool flag =>
    cases b with
    | float x => exact absurd hb (by simp [isPlain])
    | int n =>
      change (_ == _) = true ↔ _
      rw [bool_beq_floatOfInt, countsAs_bool_int]
      simp [CountsAs]
    | null | string _ | bool _ => simp [looseEq, number?, CountsAs]
  | int n =>
    cases b with
    | float x => exact absurd hb (by simp [isPlain])
    | bool flag =>
      change (_ == _) = true ↔ _
      rw [floatOfInt_beq_bool, countsAs_bool_int]
      simp [CountsAs]
    | null | string _ | int _ => simp [looseEq, number?, CountsAs]

end Scalar

/-! ### Carrying out a strict comparison -/

lemma EqualityOperator.apply_sheq_iff {a b : Scalar} :
    EqualityOperator.sheq.apply a b = true ↔ a.looseEq b = true := Iff.rfl

lemma EqualityOperator.apply_shne_iff {a b : Scalar} :
    EqualityOperator.shne.apply a b = true ↔ ¬ a.looseEq b = true := by
  rw [Bool.not_eq_true]
  exact iff_of_eq (Bool.not_eq_true' _)

namespace Tree

variable {t : Tree} {first operation other otherSlot slot x : NodeId} {k : Kind} {a b : Scalar}
  {operator : EqualityOperator}

/-- A strict comparison of two plain literals is carried out wherever it is in a well-linked tree, and the
literal of the outcome takes its place.  The outcome is whether the literals are the same, or one a truth
value and the other the number that it counts as; for the negated operator it is whether they are not. -/
theorem foldEquality_strict (h : t.WellLinked)
    (o : t.Opposes operation slot x k otherSlot first other operator)
    (hx : (t.node x).decode? = some a) (hother : (t.node other).decode? = some b)
    (ha : a.isPlain = true) (hb : b.isPlain = true) :
    ∃ folded t' outcome, Edit.foldEquality x t = .ok (some folded) t' ∧
      t.TakesPlace operation folded t' ∧ (t'.node folded).decode? = some (.bool outcome) ∧
      (operator = .sheq → (outcome = true ↔ a = b ∨ a.CountsAs b ∨ b.CountsAs a)) ∧
      (operator = .shne → (outcome = true ↔ ¬ (a = b ∨ a.CountsAs b ∨ b.CountsAs a))) := by
  have hfound : t.comparison? x = some ⟨operation, operator.apply a b⟩ := by
    refine h.comparison?_iff.2 ⟨slot, k, otherSlot, first, other, operator, a, b, o, hx, hother, ?_⟩
    rw [Scalar.comparisonOperand_eq ha, Scalar.comparisonOperand_eq hb]
  obtain ⟨folded, t', hfold, hplace, -, hkind, hattributes⟩ := h.foldEquality_takesPlace hfound
  refine ⟨folded, t', operator.apply a b, hfold, hplace,
    Node.decode?_literal_withLine hkind hattributes rfl, ?_, ?_⟩
  · rintro rfl
    rw [EqualityOperator.apply_sheq_iff, Scalar.looseEq_iff ha hb]
  · rintro rfl
    rw [EqualityOperator.apply_shne_iff, Scalar.looseEq_iff ha hb]

/-- The comparison of two literals. -/
def comparisonOf (operator : EqualityOperator) (left right : Scalar) : Tree where
  root := 0
  nodes := ⟨#[
    { kind := .file, children := [1] },
    { kind := .operation, children := [2, 3], parent := some 0,
      attributes := KeyMap.empty.insert Attr.operator (.string operator.name) },
    { kind := .first, children := [4], parent := some 1 },
    { kind := .second, children := [5], parent := some 1 },
    { kind := .constant, parent := some 2, attributes := left.literalAttributes },
    { kind := .constant, parent := some 3, attributes := right.literalAttributes }]⟩

/-- `false !== 0` is carried out as false. -/
theorem foldEquality_strict_false_zero :
    (comparisonOf .shne (.bool false) (.int 0)).WellLinked ∧
    (comparisonOf .shne (.bool false) (.int 0)).Opposes 1 2 4 .second 3 5 5 .shne ∧
    ∃ folded t', Edit.foldEquality 4 (comparisonOf .shne (.bool false) (.int 0)) = .ok (some folded) t' ∧
      (comparisonOf .shne (.bool false) (.int 0)).TakesPlace 1 folded t' ∧
      (t'.node folded).decode? = some (.bool false) := by
  have h : (comparisonOf .shne (.bool false) (.int 0)).WellLinked := by decide
  have o : (comparisonOf .shne (.bool false) (.int 0)).Opposes 1 2 4 .second 3 5 5 .shne := by
    refine ⟨rfl, rfl, rfl, rfl, below_of_parent rfl, ?_, rfl, rfl, Or.inl rfl⟩
    intro g hg hg'
    exact absurd ((below_of_parent_iff rfl).1 hg') (h.not_atOrBelow_of_below hg)
  obtain ⟨folded, t', outcome, hfold, hplace, hdecode, -, hout⟩ :=
    foldEquality_strict (a := .bool false) (b := .int 0) h o rfl rfl rfl rfl
  have hfalse : outcome = false :=
    Bool.eq_false_iff.2 fun htrue => (hout rfl).1 htrue (Or.inr (Or.inl ⟨false, rfl, rfl⟩))
  exact ⟨h, o, folded, t', hfold, hplace, hfalse ▸ hdecode⟩

/-- `true === 1` is carried out as true, although a truth value is not a number. -/
theorem foldEquality_true_one :
    (comparisonOf .sheq (.bool true) (.int 1)).WellLinked ∧
    ((comparisonOf .sheq (.bool true) (.int 1)).node 4).decode? = some (.bool true) ∧
    ((comparisonOf .sheq (.bool true) (.int 1)).node 5).decode? = some (.int 1) ∧
    Scalar.bool true ≠ .int 1 ∧
    ∃ t', Edit.foldEquality 4 (comparisonOf .sheq (.bool true) (.int 1)) = .ok (some 6) t' ∧
      t'.children 0 = [6] ∧ (t'.node 6).decode? = some (.bool true) := by
  refine ⟨by decide, by decide, by decide, by decide, _, rfl, rfl, rfl⟩

end Tree

end VariantFold
