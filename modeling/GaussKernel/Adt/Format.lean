import GaussKernel.Lib.Radix
import Mathlib.Algebra.Order.Field.Power
import Mathlib.Data.Rat.Cast.Order
import Mathlib.Tactic.FieldSimp
import Mathlib.Tactic.NormNum
import Mathlib.Tactic.Positivity
import Mathlib.Tactic.IntervalCases

/-!
# The three formats of a numeric

A numeric is stored as an `int64` with a scale (`bi64`), as an `int128` with a scale (`bi128`) or as a
string of base-10000 digits with a sign, a weight and a display scale (the plain format). This module
has the formats and the rational number each of them denotes, the tables of powers of ten, and the
integer operations of the C code: the project is built with `-fwrapv`, so a signed operation whose
result does not fit wraps around; `Run` carries a flag that remembers that this happened, and fails
when a table is read outside its bounds.
-/

namespace GaussKernel.Adt

/-! ## Machine integers -/

/-- `x` is a value of the signed type of `w` bits. -/
def InRange (w : ℕ) (x : ℤ) : Prop :=
  -2 ^ (w - 1) ≤ x ∧ x < 2 ^ (w - 1)

instance (w : ℕ) (x : ℤ) : Decidable (InRange w x) := inferInstanceAs (Decidable (_ ∧ _))

/-- The two's complement value of `w` bits congruent to `x`. -/
def wrap (w : ℕ) (x : ℤ) : ℤ := x.bmod (2 ^ w)

/-- A run of C code: it fails when a table is left or an assertion does not hold, and its flag tells
whether a signed operation has wrapped around. -/
abbrev Run := StateT Bool Option

/-- The outcome of a signed operation of `w` bits whose exact result is `x`. -/
def signed (w : ℕ) (x : ℤ) : Run ℤ :=
  if InRange w x then pure x else do
    set true
    pure (wrap w x)

variable {w i : ℕ} {x : ℤ}

lemma signed_of_inRange (h : InRange w x) : signed w x = pure x := if_pos h

/-- The cast of an `int128` to an `int64`. -/
def toInt64 (x : ℤ) : ℤ := wrap 64 x

lemma toInt64_of_inRange (h : InRange 64 x) : toInt64 x = x := by
  obtain ⟨h1, h2⟩ := h
  unfold toInt64 wrap
  norm_num at h1 h2 ⊢
  rw [Int.bmod_def]
  omega

lemma inRange_zero (w : ℕ) : InRange w 0 := by
  constructor
  · simp
  · positivity

lemma InRange.mono {v : ℕ} (h : InRange v x) (hvw : v ≤ w) : InRange w x := by
  have hp : (2 : ℤ) ^ (v - 1) ≤ 2 ^ (w - 1) := pow_le_pow_right₀ (by norm_num) (by omega)
  exact ⟨by linarith [h.1], by linarith [h.2]⟩

lemma inRange_of_abs_lt (h : |x| < 2 ^ (w - 1)) : InRange w x := by
  rw [abs_lt] at h
  exact ⟨h.1.le, h.2⟩

lemma InRange.abs_le_pow (h : InRange w x) : |x| ≤ 2 ^ (w - 1) :=
  abs_le.mpr ⟨h.1, h.2.le⟩

/-! ## Powers of ten -/

abbrev MAXINT64DIGIT : ℕ := 19
abbrev MAXINT128DIGIT : ℕ := 38
abbrev NBASE : ℤ := 10000
abbrev DEC_DIGITS : ℤ := 4

/-- Reads a table at a C index. -/
def tableAt (table : List ℤ) (i : ℤ) : Run ℤ :=
  StateT.lift (if 0 ≤ i then table[i.toNat]? else none)

lemma tableAt_natCast {table : List ℤ} (h : table[i]? = some x) : tableAt table i = pure x := by
  unfold tableAt
  rw [if_pos (by omega), Int.toNat_natCast, h]
  rfl

/-- `10^i` for `i ≤ 18`; `10^19` is not an `int64` and its entry is 0. -/
def ScaleMultipler : List ℤ := (List.range 19).map (fun i => 10 ^ i) ++ [0]

/-- `INT64_MIN / 10^i`, and 0 for `i = 19`. -/
def Int64MultiOutOfBound : List ℤ := (List.range 19).map (fun i => (-2 ^ 63 : ℤ).tdiv (10 ^ i)) ++ [0]

def scaleMultipler (i : ℤ) : Run ℤ := tableAt ScaleMultipler i

def int64MultiOutOfBound (i : ℤ) : Run ℤ := tableAt Int64MultiOutOfBound i

def getScaleMultiplier (scale : ℤ) : Run ℤ := tableAt ((List.range 39).map fun i => 10 ^ i) scale

def getScaleQuotient (scale : ℤ) : Run ℤ :=
  tableAt ((List.range 39).map fun i => (-2 ^ 127 : ℤ).tdiv (10 ^ i)) scale

lemma getElem?_map_range {f : ℕ → ℤ} {n : ℕ} (h : i < n) : ((List.range n).map f)[i]? = some (f i) := by
  simp [List.getElem?_map, List.getElem?_range h]

lemma scaleMultipler_eq (h : i ≤ 18) : scaleMultipler i = pure (10 ^ i) := by
  refine tableAt_natCast ?_
  rw [ScaleMultipler, List.getElem?_append_left (by simp; omega), getElem?_map_range (by omega)]

lemma scaleMultipler_nineteen : scaleMultipler (19 : ℕ) = pure 0 :=
  tableAt_natCast (by simp [ScaleMultipler])

lemma int64MultiOutOfBound_eq (h : i ≤ 18) :
    int64MultiOutOfBound i = pure ((-2 ^ 63 : ℤ).tdiv (10 ^ i)) := by
  refine tableAt_natCast ?_
  rw [Int64MultiOutOfBound, List.getElem?_append_left (by simp; omega),
    getElem?_map_range (f := fun i => (-2 ^ 63 : ℤ).tdiv (10 ^ i)) (by omega)]

lemma int64MultiOutOfBound_nineteen : int64MultiOutOfBound (19 : ℕ) = pure 0 :=
  tableAt_natCast (by simp [Int64MultiOutOfBound])

lemma getScaleMultiplier_eq (h : i ≤ 38) : getScaleMultiplier i = pure (10 ^ i) :=
  tableAt_natCast (getElem?_map_range (by omega))

lemma getScaleQuotient_eq (h : i ≤ 38) : getScaleQuotient i = pure ((-2 ^ 127 : ℤ).tdiv (10 ^ i)) :=
  tableAt_natCast (getElem?_map_range (by omega))

/-! ## Formats -/

inductive NumericSign where
  | pos | neg
  deriving DecidableEq, Repr

/-- A number in the plain format, unpacked; a digit is an `int16` below 10000. -/
structure NumericVar where
  sign : NumericSign
  weight : ℤ
  dscale : ℕ
  digits : List ℤ
  deriving DecidableEq, Repr

inductive Numeric where
  | nan
  | bi64 (value : ℤ) (scale : ℕ)
  | bi128 (value : ℤ) (scale : ℕ)
  | plain (var : NumericVar)
  deriving DecidableEq, Repr

def NumericVar.ndigits (v : NumericVar) : ℕ := v.digits.length

/-- The number of base-10000 digits after the point, negative when whole trailing digits before the
point are left out. -/
def NumericVar.ascale (v : NumericVar) : ℤ := v.ndigits - v.weight - 1

def NumericSign.toInt : NumericSign → ℤ
  | .pos => 1
  | .neg => -1

/-- The digits read as one integer. -/
def NumericVar.mantissa (v : NumericVar) : ℤ := Radix.value NBASE v.digits

/-- The absolute value: the first digit is multiplied by `NBASE ^ weight`. -/
def NumericVar.absVal (v : NumericVar) : ℚ := v.mantissa * (10000 : ℚ) ^ (-v.ascale)

/-- The rational number a plain numeric denotes. -/
def NumericVar.toRat (v : NumericVar) : ℚ := v.sign.toInt * v.absVal

/-- The rational number a numeric denotes; `NaN` denotes none. -/
def Numeric.toRat? : Numeric → Option ℚ
  | .nan => none
  | .bi64 x s => some (x / 10 ^ s)
  | .bi128 x s => some (x / 10 ^ s)
  | .plain v => some v.toRat

/-- What the plain format promises of a stored value: no leading and no trailing zero digit, zero is
the empty string with weight 0 and a positive sign, and the display scale covers the stored digits ("it
should never be less than the number of stored digits, since that would imply hiding digits that are
present"). -/
structure NumericVar.Normalized (v : NumericVar) : Prop where
  digits : Radix.Digits NBASE v.digits
  head : ∀ d ∈ v.digits.head?, d ≠ 0
  last : ∀ d ∈ v.digits.getLast?, d ≠ 0
  zero : v.digits = [] → v.weight = 0 ∧ v.sign = .pos
  dscale : ∃ m : ℤ, v.absVal = m / 10 ^ v.dscale

/-- `NUMERIC_CAN_BE_SHORT`: the display scale and the weight fit the short header, which is then the
one a plain numeric is stored with. -/
def NumericVar.IsShort (v : NumericVar) : Prop :=
  v.dscale ≤ 63 ∧ v.weight ≤ 63 ∧ -64 ≤ v.weight

instance (v : NumericVar) : Decidable v.IsShort := inferInstanceAs (Decidable (_ ∧ _))

/-- A value the format allows: the integer fits its type, the scale is one the type is used with, and a
plain value is normalized. -/
def Numeric.Valid : Numeric → Prop
  | .nan => True
  | .bi64 x s => InRange 64 x ∧ s ≤ MAXINT64DIGIT
  | .bi128 x s => InRange 128 x ∧ s ≤ MAXINT128DIGIT
  | .plain v => v.Normalized

def Numeric.displayScale : Numeric → ℕ
  | .nan => 0
  | .bi64 _ s => s
  | .bi128 _ s => s
  | .plain v => v.dscale

/-! ## Values of normalized numerics -/

section Values

variable {v : NumericVar}

lemma absVal_nonneg (h : Radix.Digits NBASE v.digits) : 0 ≤ v.absVal := by
  have hm : (0 : ℚ) ≤ v.mantissa := by exact_mod_cast Radix.value_nonneg h
  exact mul_nonneg hm (by positivity)

lemma absVal_of_digits_nil (h : v.digits = []) : v.absVal = 0 := by
  simp [NumericVar.absVal, NumericVar.mantissa, h]

/-- A number without digits is 0 at every scale. -/
lemma unscaled_of_digits_nil (h : v.digits = []) {r : ℤ} {s : ℕ} (hr : v.absVal = r / 10 ^ s) : r = 0 := by
  rw [absVal_of_digits_nil h, eq_comm, div_eq_zero_iff] at hr
  rcases hr with hr | hr
  · exact_mod_cast hr
  · exact absurd hr (by positivity)

lemma toRat_of_digits_nil (h : v.digits = []) : v.toRat = 0 := by
  rw [NumericVar.toRat, absVal_of_digits_nil h, mul_zero]

lemma NumericVar.Normalized.pow_le_mantissa (hv : v.Normalized) (hne : v.digits ≠ []) :
    (10000 : ℤ) ^ (v.ndigits - 1) ≤ v.mantissa := by
  obtain ⟨d, ds, hd⟩ := List.exists_cons_of_ne_nil hne
  have h := Radix.pow_le_value (B := NBASE) (by norm_num) (hd ▸ hv.digits) (hv.head d (by simp [hd]))
  simpa [NumericVar.mantissa, NumericVar.ndigits, hd] using h

lemma NumericVar.Normalized.mantissa_pos (hv : v.Normalized) (hne : v.digits ≠ []) :
    0 < v.mantissa :=
  lt_of_lt_of_le (by positivity) (hv.pow_le_mantissa hne)

lemma mantissa_lt_pow (h : Radix.Digits NBASE v.digits) : v.mantissa < 10000 ^ v.ndigits :=
  Radix.value_lt_pow (by norm_num) h

/-- The last digit of a normalized value is not zero, so neither is the mantissa modulo the base. -/
lemma NumericVar.Normalized.mantissa_emod_ne (hv : v.Normalized) (hne : v.digits ≠ []) :
    v.mantissa % 10000 ≠ 0 := by
  have hsplit := List.dropLast_append_getLast hne
  have hlast := hv.last _ (List.getLast?_eq_getLast_of_ne_nil hne)
  have hd := hv.digits _ (List.getLast_mem hne)
  have h := Radix.value_emod (B := NBASE) v.digits.dropLast _ hd
  rw [hsplit] at h
  rw [NumericVar.mantissa, h]
  exact hlast

lemma absVal_lt_pow (h : Radix.Digits NBASE v.digits) :
    v.absVal < (10000 : ℚ) ^ (v.weight + 1) := by
  have hm : (v.mantissa : ℚ) < 10000 ^ v.ndigits := by exact_mod_cast mantissa_lt_pow h
  have hp : (0 : ℚ) < 10000 ^ (-v.ascale) := by positivity
  calc v.absVal < 10000 ^ v.ndigits * (10000 : ℚ) ^ (-v.ascale) := mul_lt_mul_of_pos_right hm hp
    _ = (10000 : ℚ) ^ (v.weight + 1) := by
      rw [← zpow_natCast, ← zpow_add₀ (by norm_num)]
      congr 1
      unfold NumericVar.ascale
      omega

lemma NumericVar.Normalized.pow_le_absVal (hv : v.Normalized) (hne : v.digits ≠ []) :
    (10000 : ℚ) ^ v.weight ≤ v.absVal := by
  have hm : (10000 : ℚ) ^ (v.ndigits - 1) ≤ v.mantissa := by exact_mod_cast hv.pow_le_mantissa hne
  have hp : (0 : ℚ) < 10000 ^ (-v.ascale) := by positivity
  have hn : 0 < v.ndigits := List.length_pos_iff.mpr hne
  calc (10000 : ℚ) ^ v.weight = 10000 ^ (v.ndigits - 1) * (10000 : ℚ) ^ (-v.ascale) := by
        rw [← zpow_natCast, ← zpow_add₀ (by norm_num)]
        congr 1
        unfold NumericVar.ascale
        omega
    _ ≤ v.absVal := mul_le_mul_of_nonneg_right hm hp.le

lemma NumericVar.Normalized.absVal_pos (hv : v.Normalized) (hne : v.digits ≠ []) :
    0 < v.absVal :=
  lt_of_lt_of_le (by positivity) (hv.pow_le_absVal hne)

lemma abs_toRat (h : Radix.Digits NBASE v.digits) : |v.toRat| = v.absVal := by
  have h0 := absVal_nonneg h
  cases hs : v.sign <;> simp [NumericVar.toRat, NumericSign.toInt, hs, abs_of_nonneg h0]

/-- A mantissa that is no multiple of the base has the longest possible fraction. -/
lemma mantissa_scale_unique {m n : ℤ} {a b : ℤ} (hab : a ≤ b)
    (h : (m : ℚ) * (10000 : ℚ) ^ (-a) = n * (10000 : ℚ) ^ (-b)) (hn : n % 10000 ≠ 0) : a = b := by
  by_contra hne
  obtain ⟨k, hk⟩ : ∃ k : ℕ, b = a + (k + 1 : ℕ) := ⟨(b - a - 1).toNat, by omega⟩
  have hq : (n : ℚ) = m * 10000 ^ (k + 1) := by
    have hp : (10000 : ℚ) ^ (-b) ≠ 0 := by positivity
    apply mul_right_cancel₀ hp
    rw [← h, mul_assoc, ← zpow_natCast, ← zpow_add₀ (by norm_num)]
    congr 2
    omega
  have hz : n = m * 10000 ^ (k + 1) := by exact_mod_cast hq
  apply hn
  rw [hz, pow_succ, ← mul_assoc]
  exact Int.mul_emod_left _ _

/-- The sign, the weight and the digits of a normalized value are determined by the number it denotes. -/
lemma NumericVar.Normalized.fields_eq {v w : NumericVar} (hv : v.Normalized) (hw : w.Normalized)
    (h : v.toRat = w.toRat) : v.sign = w.sign ∧ v.weight = w.weight ∧ v.digits = w.digits := by
  have habs : v.absVal = w.absVal := by rw [← abs_toRat hv.digits, ← abs_toRat hw.digits, h]
  by_cases hne : v.digits = []
  · have hwe : w.digits = [] := by
      by_contra hwe
      have := hw.absVal_pos hwe
      rw [← habs, absVal_of_digits_nil hne] at this
      exact lt_irrefl _ this
    obtain ⟨hv1, hv2⟩ := hv.zero hne
    obtain ⟨hw1, hw2⟩ := hw.zero hwe
    exact ⟨hv2.trans hw2.symm, hv1.trans hw1.symm, hne.trans hwe.symm⟩
  have hwne : w.digits ≠ [] := by
    intro hwe
    have := hv.absVal_pos hne
    rw [habs, absVal_of_digits_nil hwe] at this
    exact lt_irrefl _ this
  have hpos := hv.absVal_pos hne
  have hsign : v.sign = w.sign := by
    unfold NumericVar.toRat at h
    rw [← habs] at h
    cases hvs : v.sign <;> cases hws : w.sign <;> rw [hvs, hws] at h <;>
      simp only [NumericSign.toInt] at h <;> first | rfl | (push_cast at h; linarith)
  have hva := hv.mantissa_emod_ne hne
  have hwa := hw.mantissa_emod_ne hwne
  have hasc : v.ascale = w.ascale := by
    rcases le_total v.ascale w.ascale with hle | hle
    · exact mantissa_scale_unique hle habs hwa
    · exact (mantissa_scale_unique hle habs.symm hva).symm
  have hman : v.mantissa = w.mantissa := by
    unfold NumericVar.absVal at habs
    rw [hasc] at habs
    have hp : (10000 : ℚ) ^ (-w.ascale) ≠ 0 := by positivity
    exact_mod_cast mul_right_cancel₀ hp habs
  have hdig : v.digits = w.digits := by
    obtain ⟨x, xs, hx⟩ := List.exists_cons_of_ne_nil hne
    obtain ⟨y, ys, hy⟩ := List.exists_cons_of_ne_nil hwne
    unfold NumericVar.mantissa at hman
    rw [hx, hy] at hman ⊢
    exact Radix.value_inj_of_head (by norm_num) (hx ▸ hv.digits) (hy ▸ hw.digits)
      (hv.head x (by simp [hx])) (hw.head y (by simp [hy])) hman
  refine ⟨hsign, ?_, hdig⟩
  unfold NumericVar.ascale NumericVar.ndigits at hasc
  rw [hdig] at hasc
  omega

/-- A normalized value is determined by the number it denotes and its display scale. -/
theorem NumericVar.Normalized.ext {v w : NumericVar} (hv : v.Normalized) (hw : w.Normalized)
    (h : v.toRat = w.toRat) (hs : v.dscale = w.dscale) : v = w := by
  obtain ⟨h1, h2, h3⟩ := hv.fields_eq hw h
  cases v
  cases w
  simp_all

end Values

end GaussKernel.Adt
