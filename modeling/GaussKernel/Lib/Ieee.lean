import Mathlib

/-!
# Binary floating point formats

The fields of a bit pattern in an IEEE 754 binary interchange format and the number that a finite one stands for. The
order of the numbers is the order of the fields: first of the signs, then of the exponents and then of the mantissas,
turned around for negative numbers (`compare_value_nonneg`, `compare_value_neg`, `value_lt_of_signs`).
-/

namespace GaussKernel.Lib

/-- A format by the widths of its fields; the sign is the bit above them. -/
structure BinaryFormat where
  exponentBits : ℕ
  mantissaBits : ℕ

namespace BinaryFormat

def binary32 : BinaryFormat := ⟨8, 23⟩

def binary64 : BinaryFormat := ⟨11, 52⟩

variable (f : BinaryFormat) (w : ℕ)

def bias : ℕ := 2 ^ (f.exponentBits - 1) - 1

def negative : Bool := w.testBit (f.mantissaBits + f.exponentBits)

def exponent : ℕ := w / 2 ^ f.mantissaBits % 2 ^ f.exponentBits

def mantissa : ℕ := w % 2 ^ f.mantissaBits

/-- Neither an infinity nor a NaN. -/
def Finite : Prop := f.exponent w ≠ 2 ^ f.exponentBits - 1

/-- A zero with the sign set. -/
def IsNegativeZero : Prop := f.negative w = true ∧ f.exponent w = 0 ∧ f.mantissa w = 0

/-- A finite bit pattern that is not the negative zero. -/
def Ordinary : Prop := f.Finite w ∧ ¬ f.IsNegativeZero w

instance : Decidable (f.Finite w) := inferInstanceAs (Decidable (_ ≠ _))

instance : Decidable (f.IsNegativeZero w) := inferInstanceAs (Decidable (_ ∧ _))

instance : Decidable (f.Ordinary w) := inferInstanceAs (Decidable (_ ∧ _))

/-- The absolute value; an exponent field of 0 is that of a zero or a subnormal number. -/
def magnitude : ℚ :=
  if f.exponent w = 0 then (2 : ℚ) ^ (1 - f.bias : ℤ) * (f.mantissa w / 2 ^ f.mantissaBits)
  else (2 : ℚ) ^ (f.exponent w - f.bias : ℤ) * (1 + f.mantissa w / 2 ^ f.mantissaBits)

/-- The number that a finite bit pattern stands for. -/
def value : ℚ := if f.negative w then -f.magnitude w else f.magnitude w

/-- The absolute value, counted in the smallest positive number of the format. -/
def units : ℕ :=
  if f.exponent w = 0 then f.mantissa w
  else (2 ^ f.mantissaBits + f.mantissa w) * 2 ^ (f.exponent w - 1)

variable {f} {w v : ℕ}

/-- The mantissa fits its bits. -/
lemma mantissa_lt : f.mantissa w < 2 ^ f.mantissaBits := Nat.mod_lt _ (Nat.two_pow_pos _)

/-- The exponent fits its bits. -/
lemma exponent_lt : f.exponent w < 2 ^ f.exponentBits := Nat.mod_lt _ (Nat.two_pow_pos _)

/-- The magnitude is a whole number of the smallest units. -/
lemma magnitude_eq : f.magnitude w = f.units w * (2 : ℚ) ^ (1 - f.bias - f.mantissaBits : ℤ) := by
  have hscale : (2 : ℚ) ^ (1 - f.bias - f.mantissaBits : ℤ) = 2 ^ (1 - f.bias : ℤ) / 2 ^ f.mantissaBits := by
    rw [zpow_sub₀ two_ne_zero, zpow_natCast]
  rw [magnitude, units, hscale]
  split
  case isTrue => ring
  case isFalse he =>
    obtain ⟨k, hk⟩ := Nat.exists_eq_succ_of_ne_zero he
    have hexp : (2 : ℚ) ^ (f.exponent w - f.bias : ℤ) = 2 ^ k * 2 ^ (1 - f.bias : ℤ) := by
      rw [hk, ← zpow_natCast (2 : ℚ) k, ← zpow_add₀ two_ne_zero]
      congr 1
      push_cast
      ring
    rw [hexp, hk, Nat.succ_sub_one]
    push_cast
    field_simp

/-! ## The order of the absolute values -/

/-- A larger exponent outweighs every mantissa. -/
lemma units_lt_of_exponent (h : f.exponent w < f.exponent v) : f.units w < f.units v := by
  have hpos : f.exponent v ≠ 0 := (Nat.zero_lt_of_lt h).ne'
  have hw := mantissa_lt (f := f) (w := w)
  calc f.units w < 2 ^ f.mantissaBits * 2 ^ f.exponent w := by
        rw [units]
        split
        case isTrue he => rwa [he, pow_zero, Nat.mul_one]
        case isFalse he =>
          obtain ⟨k, hk⟩ := Nat.exists_eq_succ_of_ne_zero he
          have hdouble : 2 ^ f.mantissaBits * 2 ^ (k + 1) = (2 ^ f.mantissaBits + 2 ^ f.mantissaBits) * 2 ^ k := by ring
          rw [hk, Nat.succ_sub_one, Nat.succ_eq_add_one, hdouble]
          exact Nat.mul_lt_mul_of_pos_right (Nat.add_lt_add_left hw _) (Nat.two_pow_pos k)
    _ ≤ 2 ^ f.mantissaBits * 2 ^ (f.exponent v - 1) :=
        Nat.mul_le_mul_left _ (Nat.pow_le_pow_right Nat.two_pos (Nat.le_sub_one_of_lt h))
    _ ≤ f.units v := by
        rw [units, if_neg hpos]
        exact Nat.mul_le_mul_right _ (Nat.le_add_right _ _)

/-- With equal exponents the mantissas decide. -/
lemma units_lt_of_mantissa (he : f.exponent w = f.exponent v) (h : f.mantissa w < f.mantissa v) :
    f.units w < f.units v := by
  rw [units, units, he]
  split
  · exact h
  · exact Nat.mul_lt_mul_of_pos_right (Nat.add_lt_add_left h _) (Nat.two_pow_pos _)

/-- The units depend on the exponent and the mantissa only. -/
lemma units_congr (he : f.exponent w = f.exponent v) (hm : f.mantissa w = f.mantissa v) : f.units w = f.units v := by
  rw [units, units, he, hm]

/-- The units compare by exponent, then by mantissa. -/
lemma compare_units :
    compare (f.units w) (f.units v) =
      (compare (f.exponent w) (f.exponent v)).then (compare (f.mantissa w) (f.mantissa v)) := by
  rcases Nat.lt_trichotomy (f.exponent w) (f.exponent v) with he | he | he
  · rw [Nat.compare_eq_lt.mpr he]
    exact Nat.compare_eq_lt.mpr (units_lt_of_exponent he)
  · rw [Nat.compare_eq_eq.mpr he, Ordering.eq_then]
    rcases Nat.lt_trichotomy (f.mantissa w) (f.mantissa v) with hm | hm | hm
    · rw [Nat.compare_eq_lt.mpr hm, Nat.compare_eq_lt.mpr (units_lt_of_mantissa he hm)]
    · rw [Nat.compare_eq_eq.mpr hm, Nat.compare_eq_eq.mpr (units_congr he hm)]
    · rw [Nat.compare_eq_gt.mpr hm, Nat.compare_eq_gt.mpr (units_lt_of_mantissa he.symm hm)]
  · rw [Nat.compare_eq_gt.mpr he]
    exact Nat.compare_eq_gt.mpr (units_lt_of_exponent he)

/-- The magnitudes compare by exponent, then by mantissa. -/
lemma compare_magnitude :
    compare (f.magnitude w) (f.magnitude v) =
      (compare (f.exponent w) (f.exponent v)).then (compare (f.mantissa w) (f.mantissa v)) := by
  have hmono : StrictMono fun n : ℕ => (n : ℚ) * (2 : ℚ) ^ (1 - f.bias - f.mantissaBits : ℤ) := fun n m h =>
    mul_lt_mul_of_pos_right (Nat.cast_lt.mpr h) (zpow_pos two_pos _)
  have hunits := hmono.cmp_map_eq (f.units w) (f.units v)
  rw [cmp_eq_compare, cmp_eq_compare, compare_units] at hunits
  rw [magnitude_eq, magnitude_eq]
  exact hunits

/-- A magnitude is not negative. -/
lemma magnitude_nonneg : 0 ≤ f.magnitude w := by
  rw [magnitude_eq]
  positivity

/-- Only zero has the magnitude zero. -/
lemma magnitude_pos (h : ¬ (f.exponent w = 0 ∧ f.mantissa w = 0)) : 0 < f.magnitude w := by
  have hunits : 0 < f.units w := by
    rw [units]
    split
    case isTrue he => exact Nat.pos_of_ne_zero fun hm => h ⟨he, hm⟩
    case isFalse => positivity
  rw [magnitude_eq]
  positivity

/-! ## The order of the values -/

/-- Two values that are not negative compare by exponent, then by mantissa. -/
lemma compare_value_nonneg (hw : f.negative w = false) (hv : f.negative v = false) :
    compare (f.value w) (f.value v) =
      (compare (f.exponent w) (f.exponent v)).then (compare (f.mantissa w) (f.mantissa v)) := by
  simp only [value, hw, hv, Bool.false_eq_true, if_false]
  exact compare_magnitude

/-- Two negative values compare the other way. -/
lemma compare_value_neg (hw : f.negative w = true) (hv : f.negative v = true) :
    compare (f.value w) (f.value v) =
      (compare (f.exponent v) (f.exponent w)).then (compare (f.mantissa v) (f.mantissa w)) := by
  have hanti : StrictAnti fun x : ℚ => -x := fun _ _ h => neg_lt_neg h
  have hneg := hanti.cmp_map_eq (f.magnitude w) (f.magnitude v)
  rw [cmp_eq_compare, cmp_eq_compare, compare_magnitude] at hneg
  simp only [value, hw, hv, if_true]
  exact hneg

/-- A negative value is below one that is not. -/
lemma value_lt_of_signs (hw : f.negative w = true) (hzero : ¬ f.IsNegativeZero w) (hv : f.negative v = false) :
    f.value w < f.value v := by
  have hpos : 0 < f.magnitude w := magnitude_pos fun h => hzero ⟨hw, h⟩
  have hnonneg := magnitude_nonneg (f := f) (w := v)
  simp only [value, hw, hv, Bool.false_eq_true, if_true, if_false]
  exact (neg_lt_zero.mpr hpos).trans_le hnonneg

end BinaryFormat

end GaussKernel.Lib
