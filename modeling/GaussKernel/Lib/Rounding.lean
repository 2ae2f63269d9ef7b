import Mathlib.Data.Rat.Floor
import Mathlib.Tactic.FieldSimp

/-!
# Rounding half away from zero

An exact quotient is rounded from one guard digit: it is cut off behind a digit of an even base `2 * h`, and that digit
alone says whether the digits before it are raised (`roundAway_guard`).
-/

namespace GaussKernel.Lib

/-- The nearest integer; of two that are as near, the one farther from zero. -/
def roundAway (q : ℚ) : ℤ := if 0 ≤ q then ⌊q + 1 / 2⌋ else -⌊-q + 1 / 2⌋

/-- Rounding away from zero is odd. -/
lemma roundAway_neg (q : ℚ) : roundAway (-q) = -roundAway q := by
  unfold roundAway
  rcases lt_trichotomy q 0 with hq | rfl | hq
  · rw [if_pos (neg_nonneg.mpr hq.le), if_neg (not_le.mpr hq), neg_neg]
  · norm_num
  · rw [if_neg (not_le.mpr (neg_lt_zero.mpr hq)), if_pos hq.le, neg_neg]

/-- Rounding a quotient of naturals, by one division. -/
lemma roundAway_natCast_div (n : ℕ) {d : ℕ} (hd : 0 < d) : roundAway ((n : ℚ) / d) = ((2 * n + d) / (2 * d) : ℕ) := by
  have hq : (n : ℚ) / d + 1 / 2 = ((2 * n + d : ℕ) : ℚ) / ((2 * d : ℕ) : ℚ) := by
    have : (d : ℚ) ≠ 0 := by exact_mod_cast hd.ne'
    push_cast
    field_simp
  rw [roundAway, if_pos (by positivity), hq, Rat.floor_natCast_div_natCast]
  norm_cast

/-- The digit behind the last place decides. -/
lemma half_up_guard (n h : ℕ) {d : ℕ} (hd : 0 < d) :
    (2 * n + d * (2 * h)) / (2 * (d * (2 * h))) = (n / d + h) / (2 * h) := by
  have hnum : 2 * n + d * (2 * h) = 2 * (n + h * d) := by ring
  rw [hnum, Nat.mul_div_mul_left _ _ (by decide), ← Nat.div_div_eq_div_mul, Nat.add_mul_div_right _ _ hd]

/-- The digits `t` of a number, the last of which is rounded off. -/
def dropGuard (h : ℕ) (t : ℤ) : ℤ := t.sign * ((t.natAbs + h) / (2 * h) : ℕ)

/-- Dropping the guard digits is odd. -/
lemma dropGuard_neg (h : ℕ) (t : ℤ) : dropGuard h (-t) = -dropGuard h t := by
  rw [dropGuard, dropGuard, Int.sign_neg, Int.natAbs_neg, Int.neg_mul]

/-- Dropping the guard digits of a natural. -/
lemma dropGuard_natCast {h : ℕ} (hh : 0 < h) (t : ℕ) : dropGuard h t = ((t + h) / (2 * h) : ℕ) := by
  unfold dropGuard
  cases t with
  | zero =>
    have hz : (0 + h) / (2 * h) = 0 := Nat.div_eq_of_lt (by omega)
    rw [Int.natAbs_natCast, hz]
    rfl
  | succ t => rw [Int.natAbs_natCast, Int.sign_natCast_of_ne_zero (Nat.succ_ne_zero t), Int.one_mul]

/-- A quotient cut behind the guard digits rounds as the exact one. -/
theorem roundAway_guard (n : ℤ) {d : ℤ} (hd : d ≠ 0) {h : ℕ} (hh : 0 < h) :
    roundAway ((n : ℚ) / (d * (2 * h : ℕ))) = dropGuard h (n.tdiv d) := by
  have hnat : ∀ n d : ℕ, 0 < d → roundAway ((n : ℚ) / (d * (2 * h : ℕ))) = dropGuard h ((n : ℤ).tdiv d) := by
    intro n d hd
    rw [← Int.ofNat_tdiv, dropGuard_natCast hh, ← half_up_guard n h hd, ← Nat.cast_mul,
      roundAway_natCast_div n (Nat.mul_pos hd (Nat.mul_pos (by decide) hh))]
  -- the signs come off on both sides
  obtain ⟨a, rfl | rfl⟩ := Int.eq_nat_or_neg n <;> obtain ⟨b, rfl | rfl⟩ := Int.eq_nat_or_neg d
  · exact hnat a b (by omega)
  · rw [Int.tdiv_neg, dropGuard_neg, ← hnat a b (by omega), ← roundAway_neg, Int.cast_neg, neg_mul, div_neg]
    rfl
  · rw [Int.neg_tdiv, dropGuard_neg, ← hnat a b (by omega), ← roundAway_neg, Int.cast_neg, neg_div]
    rfl
  · rw [Int.neg_tdiv, Int.tdiv_neg, neg_neg, ← hnat a b (by omega), Int.cast_neg, Int.cast_neg, neg_mul, neg_div_neg_eq]
    rfl

end GaussKernel.Lib
