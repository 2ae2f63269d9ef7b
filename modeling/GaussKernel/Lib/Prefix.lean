import Mathlib.Tactic

/-!
# Numbers with a common prefix

The numbers that agree with a given one above its last `s` bits form a block, from `blockStart` to `blockEnd`. The ends
come out of the number by a mask (`and_prefixMask`, `or_suffixMask`), and word by word out of a number of several words.
-/

namespace GaussKernel.Lib

variable {a b c d n s w x y : ℕ}

def blockStart (s x : ℕ) : ℕ := x / 2 ^ s * 2 ^ s

def blockEnd (s x : ℕ) : ℕ := blockStart s x + (2 ^ s - 1)

/-- `n` bits of which the last `s` are clear. -/
def prefixMask (n s : ℕ) : ℕ := 2 ^ n - 2 ^ s

/-- Agreeing above the last `s` bits is lying in the block. -/
lemma div_eq_iff_block : x / 2 ^ s = y / 2 ^ s ↔ blockStart s y ≤ x ∧ x ≤ blockEnd s y := by
  have hpos : 0 < 2 ^ s := Nat.two_pow_pos s
  have hle : x ≤ blockEnd s y ↔ x < (y / 2 ^ s + 1) * 2 ^ s := by
    rw [blockEnd, blockStart, Nat.succ_mul]
    omega
  rw [hle, blockStart, ← Nat.le_div_iff_mul_le hpos, ← Nat.div_lt_iff_lt_mul hpos]
  omega

/-- Two numbers share a prefix when they lie in one block. -/
lemma div_eq_iff_blockStart : x / 2 ^ s = y / 2 ^ s ↔ blockStart s x = blockStart s y :=
  (Nat.mul_left_inj (Nat.two_pow_pos s).ne').symm

/-! ## Masks -/

/-- The bits of a prefix mask. -/
lemma testBit_prefixMask (hs : s ≤ n) (i : ℕ) : (prefixMask n s).testBit i = (decide (s ≤ i) && decide (i < n)) := by
  obtain ⟨k, rfl⟩ := Nat.exists_eq_add_of_le hs
  have hshift : prefixMask (s + k) s = 2 ^ s * (2 ^ k - 1) := by rw [prefixMask, pow_add, Nat.mul_sub_one]
  rw [hshift, Nat.testBit_two_pow_mul, Nat.testBit_two_pow_sub_one]
  by_cases hi : s ≤ i
  · have hk : i - s < k ↔ i < s + k := by omega
    simp [hi, hk]
  · simp [hi]

/-- The bits of the start of a block. -/
lemma testBit_blockStart (i : ℕ) : (blockStart s x).testBit i = (decide (s ≤ i) && x.testBit i) := by
  rw [blockStart, Nat.mul_comm, Nat.testBit_two_pow_mul, Nat.testBit_div_two_pow]
  by_cases hi : s ≤ i
  · simp [hi]
  · simp [hi]

/-- The mask cuts a number down to the start of its block. -/
lemma and_prefixMask (hs : s ≤ n) (hx : x < 2 ^ n) : x &&& prefixMask n s = blockStart s x := by
  refine Nat.eq_of_testBit_eq fun i => ?_
  rw [Nat.testBit_and, testBit_prefixMask hs, testBit_blockStart]
  by_cases hi : i < n
  · simp [hi, Bool.and_comm]
  · have hclear : x.testBit i = false :=
      Nat.testBit_lt_two_pow (hx.trans_le (Nat.pow_le_pow_right Nat.two_pos (Nat.le_of_not_lt hi)))
    simp [hclear]

/-- The low bits raise a number to the end of its block. -/
lemma or_suffixMask : x ||| (2 ^ s - 1) = blockEnd s x := by
  have hlt : 2 ^ s - 1 < 2 ^ s := Nat.sub_lt (Nat.two_pow_pos s) Nat.one_pos
  have hend : blockEnd s x = 2 ^ s * (x / 2 ^ s) + (2 ^ s - 1) := by rw [blockEnd, blockStart, Nat.mul_comm]
  refine Nat.eq_of_testBit_eq fun i => ?_
  rw [hend, Nat.testBit_two_pow_mul_add _ hlt, Nat.testBit_or, Nat.testBit_two_pow_sub_one, Nat.testBit_div_two_pow]
  by_cases hi : i < s
  · simp [hi]
  · simp [hi, Nat.sub_add_cancel (Nat.le_of_not_lt hi)]

/-! ## Words -/

/-- The start of a block inside the low word. -/
lemma blockStart_low (hs : s ≤ w) (a b : ℕ) : blockStart s (a + 2 ^ w * b) = blockStart s a + 2 ^ w * b := by
  obtain ⟨k, rfl⟩ := Nat.exists_eq_add_of_le hs
  rw [blockStart, blockStart, pow_add, Nat.mul_assoc, Nat.add_mul_div_left _ _ (Nat.two_pow_pos s), Nat.add_mul]
  ring

/-- The end of a block inside the low word. -/
lemma blockEnd_low (hs : s ≤ w) (a b : ℕ) : blockEnd s (a + 2 ^ w * b) = blockEnd s a + 2 ^ w * b := by
  rw [blockEnd, blockEnd, blockStart_low hs]
  omega

/-- The start of a block that spans the low word. -/
lemma blockStart_high (ha : a < 2 ^ w) (s b : ℕ) : blockStart (w + s) (a + 2 ^ w * b) = 2 ^ w * blockStart s b := by
  rw [blockStart, blockStart, pow_add, ← Nat.div_div_eq_div_mul, Nat.add_mul_div_left _ _ (Nat.two_pow_pos w),
    Nat.div_eq_of_lt ha, Nat.zero_add]
  ring

/-- The end of a block that spans the low word. -/
lemma blockEnd_high (ha : a < 2 ^ w) (s b : ℕ) :
    blockEnd (w + s) (a + 2 ^ w * b) = 2 ^ w - 1 + 2 ^ w * blockEnd s b := by
  have hw := Nat.two_pow_pos w
  have hsplit : 2 ^ (w + s) - 1 = 2 ^ w - 1 + 2 ^ w * (2 ^ s - 1) := by
    rw [pow_add, Nat.mul_sub_one]
    have hle : 2 ^ w ≤ 2 ^ w * 2 ^ s := Nat.le_mul_of_pos_right _ (Nat.two_pow_pos s)
    omega
  rw [blockEnd, blockEnd, blockStart_high ha, hsplit, Nat.mul_add]
  omega

/-- A conjunction is taken word by word. -/
lemma and_words (ha : a < 2 ^ w) (hc : c < 2 ^ w) :
    (a + 2 ^ w * b) &&& (c + 2 ^ w * d) = (a &&& c) + 2 ^ w * (b &&& d) := by
  have hac : a &&& c < 2 ^ w := Nat.and_lt_two_pow _ hc
  refine Nat.eq_of_testBit_eq fun i => ?_
  simp only [Nat.add_comm _ (2 ^ w * _), Nat.testBit_and, Nat.testBit_two_pow_mul_add _ ha,
    Nat.testBit_two_pow_mul_add _ hc, Nat.testBit_two_pow_mul_add _ hac]
  by_cases hi : i < w
  · simp [hi]
  · simp [hi]

/-- A disjunction is taken word by word. -/
lemma or_words (ha : a < 2 ^ w) (hc : c < 2 ^ w) :
    (a + 2 ^ w * b) ||| (c + 2 ^ w * d) = (a ||| c) + 2 ^ w * (b ||| d) := by
  have hac : a ||| c < 2 ^ w := Nat.or_lt_two_pow ha hc
  refine Nat.eq_of_testBit_eq fun i => ?_
  simp only [Nat.add_comm _ (2 ^ w * _), Nat.testBit_or, Nat.testBit_two_pow_mul_add _ ha,
    Nat.testBit_two_pow_mul_add _ hc, Nat.testBit_two_pow_mul_add _ hac]
  by_cases hi : i < w
  · simp [hi]
  · simp [hi]

end GaussKernel.Lib
