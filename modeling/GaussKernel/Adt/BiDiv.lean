import GaussKernel.Adt.BigInteger
import GaussKernel.Lib.Rounding

/-!
# Division of big integers

`bi64div64` and `bi128div128` select the scale of the quotient as `select_div_scale` does for plain numerics, from the
weights and the first base-10000 digits of the operands, which `getBiWeightDigit` reads off the scaled integers. One
decimal digit more is computed and rounded off. What does not fit an `int128` goes to `numeric_div`, whose long
division `div_var` is a parameter here.
-/

namespace GaussKernel.Adt
open Lib

abbrev NUMERIC_MIN_SIG_DIGITS : ℤ := 16
abbrev NUMERIC_MIN_DISPLAY_SCALE : ℤ := 0
abbrev NUMERIC_MAX_DISPLAY_SCALE : ℤ := 1000

/-! ## Weight and first digit -/

/-- Step 2 of `getBiWeightDigit`: the number of digits before the point and the first of them. -/
def preWeightDigit : (fuel : ℕ) → (preData digits : ℤ) → Run (ℤ × ℤ)
  | 0, _, _ => failure
  | fuel + 1, preData, digits =>
    if preData / NBASE ≠ 0 then preWeightDigit fuel (preData / NBASE) (digits + 1)
    else pure (digits + 1, preData % NBASE)

/-- Step 3: the weight of the first digit behind the point that is not 0, and the digit. -/
def postWeightDigit : (fuel : ℕ) → (postData resultScale digits : ℤ) → Run (ℤ × ℤ)
  | 0, _, _, _ => failure
  | fuel + 1, postData, resultScale, digits =>
    if postData ≠ 0 ∧ DEC_DIGITS ≤ resultScale then do
      let m ← getScaleMultiplier (resultScale - DEC_DIGITS)
      if postData / m ≠ 0 then pure (-(digits + 1), postData / m)
      else postWeightDigit fuel (postData % m) (resultScale - DEC_DIGITS) (digits + 1)
    else if postData ≠ 0 ∧ resultScale < DEC_DIGITS then do
      let m ← scaleMultipler (DEC_DIGITS - resultScale)
      pure (-(digits + 1), postData * m)
    else failure

/-- `val` is unsigned; an `uint128` has at most 10 digits to the base 10000. -/
def getBiWeightDigit (val : ℤ) (scale : ℕ) : Run (ℤ × ℤ) := do
  let m ← getScaleMultiplier scale
  let preData := val / m
  let postData := val % m
  if preData ≠ 0 then do
    let (digits, firstDigit) ← preWeightDigit 10 preData 0
    pure (digits - 1, firstDigit)
  else if postData ≠ 0 then postWeightDigit 10 postData scale 0
  else pure (0, 0)

/-! ## Scale of the quotient -/

/-- The weight of the quotient. "If the two first digits are equal, we can't be sure, but assume that var1 is less
than var2." -/
def quotientWeight (weight1 firstdigit1 weight2 firstdigit2 : ℤ) : ℤ :=
  if firstdigit1 ≤ firstdigit2 then weight1 - weight2 - 1 else weight1 - weight2

/-- The loop over the digits of `select_div_scale`. -/
def weightDigit : (weight : ℤ) → List ℤ → ℤ × ℤ
  | _, [] => (0, 0)
  | weight, d :: ds => if d ≠ 0 then (weight, d) else weightDigit (weight - 1) ds

def selectDivScale (var1 var2 : NumericVar) : ℤ :=
  let (weight1, firstdigit1) := weightDigit var1.weight var1.digits
  let (weight2, firstdigit2) := weightDigit var2.weight var2.digits
  let qweight := quotientWeight weight1 firstdigit1 weight2 firstdigit2
  let rscale := NUMERIC_MIN_SIG_DIGITS - qweight * DEC_DIGITS
  let rscale := max rscale var1.dscale
  let rscale := max rscale var2.dscale
  let rscale := max rscale NUMERIC_MIN_DISPLAY_SCALE
  min rscale NUMERIC_MAX_DISPLAY_SCALE

def numericDiv (divVar : NumericVar → NumericVar → ℤ → Run NumericVar) (num1 num2 : NumericVar) : Run NumericVar := do
  let result ← divVar num1 num2 (selectDivScale num1 num2)
  makeResult result

/-! ## Division -/

/-- The last digit of the result is rounded off. -/
def roundLastDigit (result : ℤ) : Run ℤ :=
  if 0 < result then
    if 5 ≤ result.tmod 10 then signed 128 (result.tdiv 10 + 1) else pure (result.tdiv 10)
  else if result < 0 then
    if result.tmod 10 ≤ -5 then signed 128 (result.tdiv 10 - 1) else pure (result.tdiv 10)
  else pure result

/-- The common body of `bi64div64` and `bi128div128`: the width of the operands and the plain path are their own. -/
def biDivide (width : ℕ) (plain : Run Numeric) (leftval : ℤ) (lvalscale : ℕ) (rightval : ℤ) (rvalscale : ℕ) :
    Run Numeric :=
  if rightval = 0 then failure
  else do
    let leftAbs ← unsignedData width leftval
    let (weight1, firstdigit1) ← getBiWeightDigit leftAbs lvalscale
    let rightAbs ← unsignedData width rightval
    let (weight2, firstdigit2) ← getBiWeightDigit rightAbs rvalscale
    let qweight := quotientWeight weight1 firstdigit1 weight2 firstdigit2
    let rscale := NUMERIC_MIN_SIG_DIGITS - qweight * DEC_DIGITS
    let rscale := max rscale lvalscale
    let rscale := max rscale rvalscale
    let rscale := rscale + 1
    let adjustScale := rscale + rvalscale - lvalscale
    if rscale ≤ MAXINT128DIGIT ∧ adjustScale ≤ MAXINT128DIGIT then do
      let m ← getScaleMultiplier adjustScale
      if InRange 128 (leftval * m) then do
        let result ← signed 128 ((leftval * m).tdiv rightval)
        let result ← roundLastDigit result
        let rscale := rscale - 1
        if rscale ≤ MAXINT64DIGIT ∧ result = toInt64 result then pure (makeNumeric64 (toInt64 result) rscale.toNat)
        else pure (makeNumeric128 result rscale.toNat)
      else plain
    else plain

variable (divVar : NumericVar → NumericVar → ℤ → Run NumericVar)

def bi64div64 (larg rarg : Numeric) : Run Numeric := do
  let (leftval, lvalscale) ← numeric64Value larg
  let (rightval, rvalscale) ← numeric64Value rarg
  biDivide 64 (viaPlain (numericDiv divVar) larg rarg) leftval lvalscale rightval rvalscale

def bi128div128 (largIsInt128 rargIsInt128 : Bool) (larg rarg : Numeric) : Run Numeric := do
  let (leftval, lvalscale) ← int128GetVal largIsInt128 larg
  let (rightval, rvalscale) ← int128GetVal rargIsInt128 rarg
  biDivide 128 (viaPlain (numericDiv divVar) larg rarg) leftval lvalscale rightval rvalscale

/-- The row of `BiFunMatrix` for division. -/
def biDivMatrix : Bool → Bool → Numeric → Numeric → Run Numeric
  | false, false => bi64div64 divVar
  | l, r => bi128div128 divVar l r

def bipickdiv (leftc rightc : Numeric) : Run Numeric :=
  biDivMatrix divVar (isBi128 leftc) (isBi128 rightc) leftc rightc

/-! ## The leading digit of a value -/

/-- `firstDigit` is the first digit of `a` to the base 10000, and `weight` its place. -/
structure Leads (a : ℚ) (weight firstDigit : ℤ) : Prop where
  pos : 1 ≤ firstDigit
  digit : firstDigit < NBASE
  le : firstDigit * (10000 : ℚ) ^ weight ≤ a
  lt : a < (firstDigit + 1) * (10000 : ℚ) ^ weight

variable {a : ℚ} {weight w₁ w₂ firstDigit f₁ f₂ : ℤ}

lemma Leads.pow_le (h : Leads a weight firstDigit) : (10000 : ℚ) ^ weight ≤ a := by
  refine le_trans ?_ h.le
  have hpos : (0 : ℚ) < 10000 ^ weight := by positivity
  exact le_mul_of_one_le_left hpos.le (by exact_mod_cast h.pos)

lemma Leads.lt_pow (h : Leads a weight firstDigit) : a < (10000 : ℚ) ^ (weight + 1) := by
  have hdigit : ((firstDigit + 1 : ℤ) : ℚ) ≤ 10000 := by exact_mod_cast h.digit
  have hpos : (0 : ℚ) < 10000 ^ weight := by positivity
  rw [zpow_add_one₀ (by norm_num), mul_comm]
  refine lt_of_lt_of_le h.lt (mul_le_mul_of_nonneg_right ?_ hpos.le)
  exact_mod_cast hdigit

lemma Leads.unique (h₁ : Leads a w₁ f₁) (h₂ : Leads a w₂ f₂) : w₁ = w₂ ∧ f₁ = f₂ := by
  have hle : ∀ {w f w' f' : ℤ}, Leads a w f → Leads a w' f' → w ≤ w' := by
    intro w f w' f' h h'
    have hlt : w < w' + 1 := (zpow_lt_zpow_iff_right₀ (by norm_num)).mp (h.pow_le.trans_lt h'.lt_pow)
    omega
  obtain rfl := le_antisymm (hle h₁ h₂) (hle h₂ h₁)
  have hdigit : ∀ {f f' : ℤ}, Leads a w₁ f → Leads a w₁ f' → f ≤ f' := by
    intro f f' h h'
    have hpos : (0 : ℚ) < 10000 ^ w₁ := by positivity
    have hlt := lt_of_mul_lt_mul_right (h.le.trans_lt h'.lt) hpos.le
    have : f < f' + 1 := by exact_mod_cast hlt
    omega
  exact ⟨rfl, le_antisymm (hdigit h₁ h₂) (hdigit h₂ h₁)⟩

/-- The first digit of a number that is given with a number of places behind the point. -/
lemma Leads.shift (h : Leads a weight firstDigit) (k : ℤ) : Leads (a * 10000 ^ k) (weight + k) firstDigit := by
  have hpos : (0 : ℚ) < 10000 ^ k := by positivity
  refine ⟨h.pos, h.digit, ?_, ?_⟩
  · rw [zpow_add₀ (by norm_num), ← mul_assoc]
    exact mul_le_mul_of_nonneg_right h.le hpos.le
  · rw [zpow_add₀ (by norm_num), ← mul_assoc]
    exact mul_lt_mul_of_pos_right h.lt hpos

lemma NumericVar.Normalized.leads {v : NumericVar} (hv : v.Normalized) (hne : v.digits ≠ []) :
    Leads v.absVal v.weight (v.digits.headD 0) := by
  obtain ⟨d, ds, hd⟩ := List.exists_cons_of_ne_nil hne
  have hdigits := hv.digits
  rw [hd] at hdigits
  obtain ⟨⟨hd0, hd1⟩, hds⟩ := Radix.digits_cons.mp hdigits
  have hne0 : d ≠ 0 := hv.head d (by rw [hd, List.head?_cons]; rfl)
  have hmantissa : v.mantissa = d * 10000 ^ ds.length + Radix.value NBASE ds := by
    rw [NumericVar.mantissa, hd, Radix.value_cons]
  have hnonneg := Radix.value_nonneg hds
  have hlt : Radix.value NBASE ds < 10000 ^ ds.length := Radix.value_lt_pow (by norm_num) hds
  have hpos : (0 : ℚ) < 10000 ^ (-v.ascale) := by positivity
  have hpow : (10000 : ℚ) ^ v.weight = 10000 ^ ds.length * (10000 : ℚ) ^ (-v.ascale) := by
    rw [← zpow_natCast, ← zpow_add₀ (by norm_num)]
    congr 1
    unfold NumericVar.ascale NumericVar.ndigits
    rw [hd, List.length_cons]
    push_cast
    ring
  rw [hd, List.headD_cons]
  refine ⟨by omega, hd1, ?_, ?_⟩
  · rw [hpow, ← mul_assoc, NumericVar.absVal]
    refine mul_le_mul_of_nonneg_right ?_ hpos.le
    exact_mod_cast (by omega : d * 10000 ^ ds.length ≤ v.mantissa)
  · rw [hpow, ← mul_assoc, NumericVar.absVal]
    refine mul_lt_mul_of_pos_right ?_ hpos
    have : v.mantissa < (d + 1) * 10000 ^ ds.length := by
      rw [hmantissa, add_mul, one_mul]
      omega
    exact_mod_cast this

/-- The loop stops at the first digit: it is not 0. -/
lemma NumericVar.Normalized.weightDigit_eq {v : NumericVar} (hv : v.Normalized) :
    weightDigit v.weight v.digits = (v.weight, v.digits.headD 0) := by
  cases hd : v.digits with
  | nil => rw [weightDigit, (hv.zero hd).1, List.headD_nil]
  | cons d ds =>
    have hne0 : d ≠ 0 := hv.head d (by rw [hd, List.head?_cons]; rfl)
    rw [weightDigit, if_pos hne0, List.headD_cons]

/-! ## The digits of a scaled integer -/

lemma preWeightDigit_eq {fuel : ℕ} {p d : ℤ} (hpos : 0 < p) (hlt : p < 10000 ^ fuel) :
    ∃ (k : ℕ) (f : ℤ), preWeightDigit fuel p d = pure (d + k + 1, f) ∧ 1 ≤ f ∧ f < NBASE ∧
      f * 10000 ^ k ≤ p ∧ p < (f + 1) * 10000 ^ k := by
  induction fuel generalizing p d with
  | zero =>
    rw [pow_zero] at hlt
    omega
  | succ fuel ih =>
    by_cases hmore : p / 10000 ≠ 0
    · have hlt' : p / 10000 < 10000 ^ fuel := by
        rw [pow_succ] at hlt
        exact Int.ediv_lt_of_lt_mul (by norm_num) hlt
      obtain ⟨k, f, hrun, hf1, hf2, hle, hub⟩ := ih (d := d + 1) (by omega) hlt'
      refine ⟨k + 1, f, ?_, hf1, hf2, ?_, ?_⟩
      · rw [preWeightDigit, if_pos hmore, hrun]
        push_cast
        congr 2
        ring
      · rw [pow_succ, ← mul_assoc]
        exact Int.mul_le_of_le_ediv (by norm_num) hle
      · rw [pow_succ, ← mul_assoc]
        exact Int.lt_mul_of_ediv_lt (by norm_num) hub
    · have hsmall : p < 10000 := by omega
      refine ⟨0, p, ?_, hpos, hsmall, by omega, by omega⟩
      rw [preWeightDigit, if_neg hmore, Int.emod_eq_of_lt hpos.le hsmall, Nat.cast_zero, add_zero]

/-- The digit right behind the point. -/
lemma leads_first {u t : ℤ} {p : ℚ} (hp : 0 < p) (hpos : 1 ≤ t) (hdigit : t < 10000) (hle : t * p ≤ u)
    (hlt : u < (t + 1) * p) : Leads (u / (10000 * p)) (-1) t := by
  have hcancel : ∀ x : ℚ, x * (10000 : ℚ) ^ (-1 : ℤ) * (10000 * p) = x * p := by
    intro x
    rw [zpow_neg_one]
    field_simp
  refine ⟨hpos, hdigit, ?_, ?_⟩
  · rw [le_div_iff₀ (by positivity), hcancel]
    exact hle
  · rw [div_lt_iff₀ (by positivity), hcancel]
    exact hlt

lemma postWeightDigit_eq {n s : ℕ} {u d : ℤ} (hrs : s ≤ 38) (hfuel : s < 4 * n) (hpos : 0 < u)
    (hlt : u < 10 ^ s) :
    ∃ w f, postWeightDigit n u s d = pure (w - d, f) ∧ Leads (u / 10 ^ s) w f := by
  induction n generalizing s d with
  | zero => omega
  | succ n ih =>
    by_cases hfour : 4 ≤ s
    · have hcast : (s : ℤ) - 4 = ((s - 4 : ℕ) : ℤ) := by omega
      have hm := getScaleMultiplier_eq (i := s - 4) (by omega)
      have hmpos : (0 : ℤ) < 10 ^ (s - 4) := by positivity
      have hpow : (10 : ℤ) ^ s = 10000 * 10 ^ (s - 4) := by
        conv_lhs => rw [← Nat.sub_add_cancel hfour, pow_add]
        ring
      have hpowq : (10 : ℚ) ^ s = 10000 * 10 ^ (s - 4) := by exact_mod_cast hpow
      have hcond : u ≠ 0 ∧ (4 : ℤ) ≤ s := ⟨hpos.ne', by omega⟩
      rw [postWeightDigit, if_pos hcond, hcast, hm, pure_bind, hpowq]
      by_cases hdigit : u / 10 ^ (s - 4) ≠ 0
      · have hge : 0 ≤ u / 10 ^ (s - 4) := Int.ediv_nonneg hpos.le hmpos.le
        have hle : u / 10 ^ (s - 4) * 10 ^ (s - 4) ≤ u := Int.ediv_mul_le u hmpos.ne'
        have hub : u < (u / 10 ^ (s - 4) + 1) * 10 ^ (s - 4) := Int.lt_ediv_add_one_mul_self u hmpos
        have hsmall : u / 10 ^ (s - 4) < 10000 := Int.ediv_lt_of_lt_mul hmpos (hpow ▸ hlt)
        refine ⟨-1, u / 10 ^ (s - 4), ?_, leads_first (by positivity) (by omega) hsmall ?_ ?_⟩
        · rw [if_pos hdigit]
          congr 2
          ring
        · exact_mod_cast hle
        · exact_mod_cast hub
      · -- the digit is 0 and all of the value stands behind it
        have hsmall : u < 10 ^ (s - 4) := by
          by_contra hge
          have := Int.le_ediv_of_mul_le hmpos ((one_mul ((10 : ℤ) ^ (s - 4))).le.trans (not_lt.mp hge))
          omega
        obtain ⟨w, f, hrun, hleads⟩ := ih (d := d + 1) (s := s - 4) (by omega) (by omega) hsmall
        refine ⟨w - 1, f, ?_, ?_⟩
        · rw [if_neg hdigit, Int.emod_eq_of_lt hpos.le hsmall, hrun]
          congr 2
          ring
        · have := hleads.shift (-1)
          rw [zpow_neg_one, ← div_eq_mul_inv, div_div, mul_comm ((10 : ℚ) ^ (s - 4))] at this
          exact this
    · have hm := scaleMultipler_eq (i := 4 - s) (by omega)
      have hcast : (4 : ℤ) - s = ((4 - s : ℕ) : ℤ) := by omega
      have hcond : ¬ (u ≠ 0 ∧ (4 : ℤ) ≤ s) := fun h => hfour (by exact_mod_cast h.2)
      have hcond' : u ≠ 0 ∧ (s : ℤ) < 4 := ⟨hpos.ne', by omega⟩
      have hpow : (10 : ℤ) ^ (4 - s) * 10 ^ s = 10000 := by
        rw [← pow_add, Nat.sub_add_cancel (by omega)]
        norm_num
      have hpowq : (10 : ℚ) ^ s = 10000 * (1 / 10 ^ (4 - s)) := by
        have : (10 : ℚ) ^ (4 - s) * 10 ^ s = 10000 := by exact_mod_cast hpow
        rw [← this]
        field_simp
      have hone : (1 : ℤ) ≤ 10 ^ (4 - s) := one_le_pow₀ (by norm_num)
      rw [postWeightDigit, if_neg hcond, if_pos hcond', hcast, hm, pure_bind, hpowq]
      refine ⟨-1, u * 10 ^ (4 - s), ?_, leads_first (by positivity) (by nlinarith) ?_ ?_ ?_⟩
      · congr 2
        ring
      · calc u * 10 ^ (4 - s) < 10 ^ s * 10 ^ (4 - s) := mul_lt_mul_of_pos_right hlt (by positivity)
          _ = 10000 := by rw [mul_comm, hpow]
      · push_cast
        rw [mul_one_div, mul_div_cancel_right₀ _ (by positivity)]
      · push_cast
        rw [add_mul, mul_one_div, mul_div_cancel_right₀ _ (by positivity)]
        exact lt_add_of_pos_right _ (by positivity)

/-- The weight and the first digit of a value, and 0 and 0 for zero. -/
lemma getBiWeightDigit_eq {u : ℤ} {s : ℕ} (hs : s ≤ 38) (hu : 0 ≤ u) (hlt : u < 10000 ^ 10) :
    ∃ w f, getBiWeightDigit u s = pure (w, f) ∧ (u = 0 → w = 0 ∧ f = 0) ∧ (0 < u → Leads (u / 10 ^ s) w f) := by
  have hm := getScaleMultiplier_eq hs
  have hmpos : (0 : ℤ) < 10 ^ s := by positivity
  unfold getBiWeightDigit
  rw [hm, pure_bind]
  dsimp only
  by_cases hpre : u / 10 ^ s ≠ 0
  · have hppos : 0 < u / 10 ^ s := lt_of_le_of_ne (Int.ediv_nonneg hu hmpos.le) (Ne.symm hpre)
    have hple : u / 10 ^ s ≤ u := Int.ediv_le_self _ hu
    obtain ⟨k, f, hrun, hf1, hf2, hle, hub⟩ := preWeightDigit_eq (d := 0) hppos (hple.trans_lt hlt)
    rw [if_pos hpre, hrun, pure_bind]
    refine ⟨k, f, by congr 2; ring, fun h0 => absurd (by rw [h0, Int.zero_ediv]) hpre, fun _ => ⟨hf1, hf2, ?_, ?_⟩⟩
    · rw [le_div_iff₀ (by positivity), zpow_natCast]
      exact_mod_cast (Int.mul_le_of_le_ediv hmpos hle)
    · rw [div_lt_iff₀ (by positivity), zpow_natCast]
      exact_mod_cast (Int.lt_mul_of_ediv_lt hmpos hub)
  · have hsmall : u < 10 ^ s := by
      by_contra hge
      have := Int.le_ediv_of_mul_le hmpos ((one_mul ((10 : ℤ) ^ s)).le.trans (not_lt.mp hge))
      omega
    rw [if_neg hpre, Int.emod_eq_of_lt hu hsmall]
    by_cases hu0 : u ≠ 0
    · have hupos : 0 < u := lt_of_le_of_ne hu (Ne.symm hu0)
      obtain ⟨w, f, hrun, hleads⟩ := postWeightDigit_eq (d := 0) (n := 10) hs (by omega) hupos hsmall
      rw [if_pos hu0, hrun]
      exact ⟨w, f, by rw [sub_zero], fun h0 => absurd h0 hu0, fun _ => hleads⟩
    · rw [if_neg hu0]
      exact ⟨0, 0, rfl, fun _ => ⟨rfl, rfl⟩, fun hupos => absurd hupos.ne' hu0⟩

/-! ## The scale -/

variable {v1 v2 : NumericVar} {x y : ℤ} {xs ys : ℕ}

lemma getBiWeightDigit_plain (hv : v1.Normalized) (hx : InRange 128 x) (hxs : xs ≤ 38)
    (hval : v1.toRat = x / 10 ^ xs) :
    getBiWeightDigit |x| xs = pure (v1.weight, v1.digits.headD 0) := by
  have habs : v1.absVal = (|x| : ℤ) / 10 ^ xs := by
    rw [← abs_toRat hv.digits, hval, abs_div, abs_of_pos (by positivity : (0 : ℚ) < 10 ^ xs), Int.cast_abs]
  have hlt : |x| < 10000 ^ 10 := hx.abs_le_pow.trans_lt (by norm_num)
  obtain ⟨w, f, hrun, hzero, hleads⟩ := getBiWeightDigit_eq hxs (abs_nonneg x) hlt
  rw [hrun]
  by_cases hne : v1.digits = []
  · have hx0 : |x| = 0 := unscaled_of_digits_nil hne habs
    rw [(hzero hx0).1, (hzero hx0).2, (hv.zero hne).1, hne, List.headD_nil]
  · have hpos : 0 < |x| := by
      have := hv.absVal_pos hne
      rw [habs, div_pos_iff_of_pos_right (by positivity)] at this
      exact_mod_cast this
    have hplain := hv.leads hne
    rw [habs] at hplain
    obtain ⟨hw, hf⟩ := (hleads hpos).unique hplain
    rw [hw, hf]

/-- The weights of big integers. -/
lemma Small.weight_mem (hs : Small v1) (hv : v1.Normalized) : -10 ≤ v1.weight ∧ v1.weight ≤ 9 := by
  by_cases hne : v1.digits = []
  · rw [(hv.zero hne).1]
    omega
  · have hlt : v1.absVal < (10000 : ℚ) ^ (10 : ℤ) := by
      rw [← abs_toRat hv.digits]
      exact hs.2.trans_lt (by norm_num)
    have hw : v1.weight < 10 := (zpow_lt_zpow_iff_right₀ (by norm_num)).mp ((hv.pow_le_absVal hne).trans_lt hlt)
    have hn : 0 < v1.ndigits := List.length_pos_iff.mpr hne
    have hasc := hv.ascale_le hne
    have hd := hs.1
    unfold NumericVar.ascale at hasc
    omega

def leadingWeight (v1 v2 : NumericVar) : ℤ :=
  quotientWeight v1.weight (v1.digits.headD 0) v2.weight (v2.digits.headD 0)

/-- The bounds on the display scale do not matter for big integers. -/
lemma selectDivScale_eq (h1 : v1.Normalized) (h2 : v2.Normalized) (hs1 : Small v1) (hs2 : Small v2) :
    selectDivScale v1 v2 = max (max (16 - 4 * leadingWeight v1 v2) v1.dscale) v2.dscale := by
  have hw1 := hs1.weight_mem h1
  have hw2 := hs2.weight_mem h2
  have hd1 := hs1.1
  have hd2 := hs2.1
  have hq : -20 ≤ leadingWeight v1 v2 := by
    unfold leadingWeight quotientWeight
    split <;> omega
  unfold selectDivScale
  rw [h1.weightDigit_eq, h2.weightDigit_eq]
  show min (max (max (max (16 - leadingWeight v1 v2 * 4) _) _) 0) 1000 = _
  omega

/-! ## The quotient -/

lemma roundLastDigit_eq {t : ℤ} (ht : |t| < 2 ^ 127) : roundLastDigit t = pure (dropGuard 5 t) := by
  have habs := abs_lt.mp ht
  unfold roundLastDigit dropGuard
  rcases lt_trichotomy t 0 with hneg | rfl | hpos
  · have hsign : t.sign = -1 := Int.sign_eq_neg_one_of_neg hneg
    have hdiv : t.tdiv 10 = -((-t) / 10) := by
      rw [← Int.tdiv_eq_ediv_of_nonneg (by omega), Int.neg_tdiv, neg_neg]
    have hmod : t.tmod 10 = -((-t) % 10) := by
      rw [← Int.tmod_eq_emod_of_nonneg (by omega), Int.neg_tmod, neg_neg]
    rw [if_neg (by omega), if_pos hneg, hsign, hdiv, hmod]
    split
    · rw [signed_of_inRange ⟨by norm_num at habs ⊢; omega, by norm_num at habs ⊢; omega⟩]
      congr 1
      omega
    · congr 1
      omega
  · rfl
  · have hsign : t.sign = 1 := Int.sign_eq_one_of_pos hpos
    rw [if_pos hpos, hsign, Int.tdiv_eq_ediv_of_nonneg hpos.le, Int.tmod_eq_emod_of_nonneg hpos.le]
    split
    · rw [signed_of_inRange ⟨by norm_num at habs ⊢; omega, by norm_num at habs ⊢; omega⟩]
      congr 1
      omega
    · congr 1
      omega

lemma inRange_toInt64 (z : ℤ) : InRange 64 (toInt64 z) := by
  unfold toInt64 wrap
  have h1 := Int.le_bmod (x := z) (m := 2 ^ 64) (by norm_num)
  have h2 := Int.bmod_lt (x := z) (m := 2 ^ 64) (by norm_num)
  norm_num at h1 h2
  exact ⟨by norm_num; omega, by norm_num; omega⟩

/-- Whether the dividend scaled for a quotient of `rscale` decimal digits and one more fits an `int128`. -/
def IntegerPath (leftval : ℤ) (lvalscale rvalscale : ℕ) (rscale : ℤ) : Prop :=
  rscale + 1 ≤ 38 ∧ rscale + 1 + rvalscale - lvalscale ≤ 38 ∧
    InRange 128 (leftval * 10 ^ (rscale + 1 + rvalscale - lvalscale).toNat)

/-- The sign changes of both operands, the only signed operations that can wrap, and a quotient. -/
def signsThen (width : ℕ) (leftval rightval : ℤ) (run : Run Numeric) : Run Numeric :=
  noteMin width leftval >>= fun _ => noteMin width rightval >>= fun _ => run

/-- What is computed from a scaled dividend that fits. -/
lemma integerQuotient {x y : ℤ} {xs ys rs a : ℕ} (hy : y ≠ 0) (ha : 0 < a) (hscale : a + xs = rs + 1 + ys)
    (hin : InRange 128 (x * 10 ^ a)) :
    ∃ z, (do
        let result ← signed 128 ((x * 10 ^ a).tdiv y)
        roundLastDigit result) = pure z ∧ InRange 128 z ∧
      (z : ℚ) = roundAway (((x : ℚ) / 10 ^ xs) / (y / 10 ^ ys) * 10 ^ rs) := by
  have hten : (x * 10 ^ a) % 10 = 0 := by
    obtain ⟨b, rfl⟩ := Nat.exists_eq_succ_of_ne_zero ha.ne'
    rw [pow_succ, ← mul_assoc]
    exact Int.mul_emod_left _ _
  have habs : |x * 10 ^ a| < 2 ^ 127 := by
    rw [abs_lt]
    obtain ⟨h1, h2⟩ := hin
    norm_num at h1 h2 ⊢
    omega
  generalize hdiv : (x * 10 ^ a).tdiv y = t
  have ht : |t| < 2 ^ 127 := by
    refine lt_of_le_of_lt ?_ habs
    rw [← hdiv, Int.abs_eq_natAbs, Int.abs_eq_natAbs]
    exact_mod_cast Int.natAbs_tdiv_le_natAbs _ _
  have hround : |dropGuard 5 t| < 2 ^ 127 := by
    have hle : (dropGuard 5 t).natAbs ≤ (t.natAbs + 5) / 10 := by
      rw [dropGuard, Int.natAbs_mul, Int.natAbs_natCast]
      have hsign : t.sign.natAbs ≤ 1 := by
        rw [Int.natAbs_sign]
        split <;> omega
      exact (Nat.mul_le_mul_right _ hsign).trans_eq (Nat.one_mul _)
    rw [Int.abs_eq_natAbs] at ht ⊢
    calc ((dropGuard 5 t).natAbs : ℤ) ≤ ((t.natAbs + 5) / 10 : ℕ) := by exact_mod_cast hle
      _ < 2 ^ 127 := by omega
  refine ⟨dropGuard 5 t, ?_, inRange_of_abs_lt hround, ?_⟩
  · rw [signed_of_inRange (inRange_of_abs_lt ht), pure_bind, roundLastDigit_eq ht]
  · have hyq : (y : ℚ) ≠ 0 := by exact_mod_cast hy
    have hpow : (10 : ℚ) ^ a * 10 ^ xs = 10 ^ rs * 10 * 10 ^ ys := by
      rw [← pow_add, hscale, pow_add, pow_add, pow_one]
    have hq : (x : ℚ) / 10 ^ xs / (y / 10 ^ ys) * 10 ^ rs = ((x * 10 ^ a : ℤ) : ℚ) / (y * (2 * 5 : ℕ)) := by
      push_cast
      field_simp
      linear_combination (-(x : ℚ)) * hpow
    rw [hq, roundAway_guard (x * 10 ^ a) hy (by decide : 0 < 5), hdiv]

/-- Both operands have a plain form. -/
structure PlainForm (v : NumericVar) (x : ℤ) (xs : ℕ) : Prop where
  normalized : v.Normalized
  small : Small v
  value : v.toRat = x / 10 ^ xs
  dscale : v.dscale = xs

lemma biDivide_eq {width : ℕ} (hw : 0 < width) (hw128 : width ≤ 128) (plain : Run Numeric) (hx : InRange width x)
    (hy : InRange width y) (hy0 : y ≠ 0) (h1 : PlainForm v1 x xs) (h2 : PlainForm v2 y ys) {rs : ℕ}
    (hrs : selectDivScale v1 v2 = rs) : (IntegerPath x xs ys rs → ∃ r, IsBi r ∧
        ExactResult r (roundAway (((x : ℚ) / 10 ^ xs) / (y / 10 ^ ys) * 10 ^ rs) / 10 ^ rs) rs ∧
        biDivide width plain x xs y ys = signsThen width x y (pure r)) ∧
      (¬ IntegerPath x xs ys rs → biDivide width plain x xs y ys = signsThen width x y plain) := by
  have hxs : xs ≤ 38 := h1.dscale ▸ h1.small.1
  have hys : ys ≤ 38 := h2.dscale ▸ h2.small.1
  have hdigit1 := getBiWeightDigit_plain h1.normalized (hx.mono hw128) hxs h1.value
  have hdigit2 := getBiWeightDigit_plain h2.normalized (hy.mono hw128) hys h2.value
  have hscale : max (max (NUMERIC_MIN_SIG_DIGITS - quotientWeight v1.weight (v1.digits.headD 0) v2.weight
      (v2.digits.headD 0) * DEC_DIGITS) xs) ys = rs := by
    rw [← hrs, selectDivScale_eq h1.normalized h2.normalized h1.small h2.small, h1.dscale, h2.dscale, leadingWeight,
      mul_comm]
  have hxrs : xs ≤ rs := by omega
  have hyrs : ys ≤ rs := by omega
  unfold biDivide signsThen
  rw [if_neg hy0, unsignedData_eq hw hx, unsignedData_eq hw hy]
  simp only [bind_assoc, pure_bind, hdigit1, hdigit2, hscale]
  have hadjust : (rs : ℤ) + 1 + ys - xs = ((rs + 1 + ys - xs : ℕ) : ℤ) := by omega
  have hpath : IntegerPath x xs ys rs ↔
      ((rs : ℤ) + 1 ≤ MAXINT128DIGIT ∧ ((rs + 1 + ys - xs : ℕ) : ℤ) ≤ MAXINT128DIGIT) ∧
        InRange 128 (x * 10 ^ (rs + 1 + ys - xs)) := by
    rw [IntegerPath, hadjust, Int.toNat_natCast, and_assoc]
    rfl
  rw [hadjust, hpath]
  constructor
  · rintro ⟨hfits, hin⟩
    have hrs37 : rs ≤ 37 := by
      have := hfits.1
      norm_num at this
      omega
    have hm := getScaleMultiplier_eq (i := rs + 1 + ys - xs) (by exact_mod_cast hfits.2)
    obtain ⟨z, hrun, hz, hvalue⟩ := @integerQuotient x y xs ys rs _ hy0 (by omega) (by omega) hin
    have hcont : ∀ f : ℤ → Run Numeric,
        (signed 128 ((x * 10 ^ (rs + 1 + ys - xs)).tdiv y) >>= fun result => roundLastDigit result >>= f) = f z := by
      intro f
      rw [← bind_assoc, hrun, pure_bind]
    have hback : ((rs : ℤ) + 1 - 1).toNat = rs := by omega
    rw [if_pos hfits, hm, ← hvalue]
    simp only [pure_bind, if_pos hin, hcont, hback]
    by_cases hsmall : (rs : ℤ) + 1 - 1 ≤ MAXINT64DIGIT ∧ z = toInt64 z
    · have hz64 : InRange 64 z := hsmall.2 ▸ inRange_toInt64 z
      have hrs19 : rs ≤ 19 := by
        have := hsmall.1
        norm_num at this
        exact this
      refine ⟨makeNumeric64 z rs, trivial, exact_makeNumeric64 hz64 hrs19, ?_⟩
      rw [if_pos hsmall, ← hsmall.2]
    · refine ⟨makeNumeric128 z rs, trivial, exact_makeNumeric128 hz (by omega), ?_⟩
      rw [if_neg hsmall]
  · intro hnot
    by_cases hfits : (rs : ℤ) + 1 ≤ MAXINT128DIGIT ∧ ((rs + 1 + ys - xs : ℕ) : ℤ) ≤ MAXINT128DIGIT
    · have hm := getScaleMultiplier_eq (i := rs + 1 + ys - xs) (by exact_mod_cast hfits.2)
      rw [if_pos hfits, hm]
      simp only [pure_bind, if_neg fun hin => hnot ⟨hfits, hin⟩]
    · rw [if_neg hfits]

/-- The integer a big integer holds, and the width its division uses. -/
def Numeric.unscaled : Numeric → ℤ
  | .bi64 x _ => x
  | .bi128 x _ => x
  | _ => 0

def divisionWidth (larg rarg : Numeric) : ℕ := if isBi128 larg || isBi128 rarg then 128 else 64

lemma toRat?_of_isBi {x : Numeric} (hb : IsBi x) : x.toRat? = some ((x.unscaled : ℚ) / 10 ^ x.displayScale) := by
  cases x with
  | nan => exact hb.elim
  | plain _ => exact hb.elim
  | bi64 => rfl
  | bi128 => rfl

lemma inRange_unscaled {larg rarg : Numeric} (hl : larg.Valid) (hr : rarg.Valid) (hbl : IsBi larg) (hbr : IsBi rarg) :
    InRange (divisionWidth larg rarg) larg.unscaled ∧ InRange (divisionWidth larg rarg) rarg.unscaled := by
  have hmono : ∀ {x}, InRange 64 x → InRange 128 x := fun h => h.mono (by norm_num)
  cases larg with
  | nan => exact hbl.elim
  | plain _ => exact hbl.elim
  | bi64 x xs =>
    cases rarg with
    | nan => exact hbr.elim
    | plain _ => exact hbr.elim
    | bi64 y ys => exact ⟨hl.1, hr.1⟩
    | bi128 y ys => exact ⟨hmono hl.1, hr.1⟩
  | bi128 x xs =>
    cases rarg with
    | nan => exact hbr.elim
    | plain _ => exact hbr.elim
    | bi64 y ys => exact ⟨hl.1, hmono hr.1⟩
    | bi128 y ys => exact ⟨hl.1, hr.1⟩

lemma bipickdiv_eq (divVar : NumericVar → NumericVar → ℤ → Run NumericVar) {larg rarg : Numeric} (hbl : IsBi larg)
    (hbr : IsBi rarg) :
    bipickdiv divVar larg rarg = biDivide (divisionWidth larg rarg) (viaPlain (numericDiv divVar) larg rarg)
      larg.unscaled larg.displayScale rarg.unscaled rarg.displayScale := by
  cases larg with
  | nan => exact hbl.elim
  | plain _ => exact hbl.elim
  | bi64 x xs =>
    cases rarg with
    | nan => exact hbr.elim
    | plain _ => exact hbr.elim
    | bi64 y ys => rfl
    | bi128 y ys => rfl
  | bi128 x xs =>
    cases rarg with
    | nan => exact hbr.elim
    | plain _ => exact hbr.elim
    | bi64 y ys => rfl
    | bi128 y ys => rfl

lemma plainForm_of_isBi {x : Numeric} (hx : x.Valid) (hb : IsBi x) :
    ∃ v, makeNumericNormal x = (noteSign x >>= fun _ => pure v) ∧ PlainForm v x.unscaled x.displayScale := by
  obtain ⟨v, hrun, hnormal, hvalue, hdscale, hsmall⟩ := makeNumericNormal_eq hx hb
  rw [toRat?_of_isBi hb] at hvalue
  exact ⟨v, hrun, hnormal, hsmall, (Option.some.inj hvalue).symm, hdscale⟩

/-- The least value does not fit when it is scaled. -/
lemma IntegerPath.ne_least {x : ℤ} {xs ys rs : ℕ} (h : IntegerPath x xs ys rs) (hxs : xs ≤ rs) : x ≠ -2 ^ 127 := by
  rintro rfl
  have hin := h.2.2.1
  have hten : (10 : ℤ) ≤ 10 ^ ((rs : ℤ) + 1 + ys - xs).toNat := by
    calc (10 : ℤ) = 10 ^ 1 := (pow_one 10).symm
      _ ≤ _ := pow_le_pow_right₀ (by norm_num) (by omega)
  generalize (10 : ℤ) ^ ((rs : ℤ) + 1 + ys - xs).toNat = m at hin hten
  norm_num at hin
  linarith

/-- Division on the integer path is exact to the scale of `select_div_scale`, which is found without the plain forms;
the only signed operations that can wrap are the sign changes of the operands. -/
theorem bipickdiv_exact (divVar : NumericVar → NumericVar → ℤ → Run NumericVar) {larg rarg : Numeric}
    (hl : larg.Valid) (hr : rarg.Valid) (hbl : IsBi larg) (hbr : IsBi rarg) {ql qr : ℚ} (hql : larg.toRat? = some ql)
    (hqr : rarg.toRat? = some qr) (hne : qr ≠ 0) :
    ∃ (v1 v2 : NumericVar) (rs : ℕ), makeNumericNormal larg = (noteSign larg >>= fun _ => pure v1) ∧
      makeNumericNormal rarg = (noteSign rarg >>= fun _ => pure v2) ∧
      getBiWeightDigit |larg.unscaled| larg.displayScale = pure (v1.weight, v1.digits.headD 0) ∧
      getBiWeightDigit |rarg.unscaled| rarg.displayScale = pure (v2.weight, v2.digits.headD 0) ∧
      selectDivScale v1 v2 = rs ∧
      (rs : ℤ) = max (max (16 - 4 * leadingWeight v1 v2) larg.displayScale) rarg.displayScale ∧
      (IntegerPath larg.unscaled larg.displayScale rarg.displayScale rs →
        (divisionWidth larg rarg = 128 → larg.unscaled ≠ -2 ^ 127) ∧
        ∃ r, IsBi r ∧ ExactResult r (roundAway (ql / qr * 10 ^ rs) / 10 ^ rs) rs ∧
          bipickdiv divVar larg rarg =
            signsThen (divisionWidth larg rarg) larg.unscaled rarg.unscaled (pure r)) ∧
      (¬ IntegerPath larg.unscaled larg.displayScale rarg.displayScale rs →
        bipickdiv divVar larg rarg = signsThen (divisionWidth larg rarg) larg.unscaled rarg.unscaled
          (viaPlain (numericDiv divVar) larg rarg)) := by
  obtain ⟨v1, hrun1, h1⟩ := plainForm_of_isBi hl hbl
  obtain ⟨v2, hrun2, h2⟩ := plainForm_of_isBi hr hbr
  obtain ⟨hx, hy⟩ := inRange_unscaled hl hr hbl hbr
  have hwidth : 0 < divisionWidth larg rarg ∧ divisionWidth larg rarg ≤ 128 := by
    unfold divisionWidth
    split <;> omega
  obtain rfl := Option.some.inj ((toRat?_of_isBi hbl).symm.trans hql)
  obtain rfl := Option.some.inj ((toRat?_of_isBi hbr).symm.trans hqr)
  have hy0 : rarg.unscaled ≠ 0 := by
    intro h0
    rw [h0, Int.cast_zero, zero_div] at hne
    exact hne rfl
  have hscale := selectDivScale_eq h1.normalized h2.normalized h1.small h2.small
  rw [h1.dscale, h2.dscale] at hscale
  obtain ⟨rs, hrs⟩ : ∃ rs : ℕ, selectDivScale v1 v2 = rs := ⟨(selectDivScale v1 v2).toNat, by omega⟩
  have hdigit1 := getBiWeightDigit_plain h1.normalized (hx.mono hwidth.2) (h1.dscale ▸ h1.small.1) h1.value
  have hdigit2 := getBiWeightDigit_plain h2.normalized (hy.mono hwidth.2) (h2.dscale ▸ h2.small.1) h2.value
  have hdivide := biDivide_eq hwidth.1 hwidth.2 (viaPlain (numericDiv divVar) larg rarg) hx hy hy0 h1 h2 hrs
  rw [← bipickdiv_eq divVar hbl hbr] at hdivide
  refine ⟨v1, v2, rs, hrun1, hrun2, hdigit1, hdigit2, hrs, hrs.symm.trans hscale, fun hpath => ⟨fun _ => ?_, ?_⟩,
    hdivide.2⟩
  · exact hpath.ne_least (by omega)
  · exact hdivide.1 hpath

/-- One third, to 20 decimal places. -/
theorem bipickdiv_exact_third :
    ∃ r, ExactResult r (roundAway (((1 : ℤ) : ℚ) / 10 ^ 0 / (((3 : ℤ) : ℚ) / 10 ^ 0) * 10 ^ 20) / 10 ^ 20) 20 ∧
      bipickdiv (fun _ _ _ => failure) (.bi64 1 0) (.bi64 3 0) = signsThen 64 1 3 (pure r) := by
  have hl : (Numeric.bi64 1 0).Valid := ⟨by decide, by decide⟩
  have hr : (Numeric.bi64 3 0).Valid := ⟨by decide, by decide⟩
  obtain ⟨v1, v2, rs, -, -, hdigit1, hdigit2, -, hscale, hpath, -⟩ :=
    bipickdiv_exact (fun _ _ _ => failure) hl hr trivial trivial rfl rfl (by norm_num)
  have h1 : ((0, 1) : ℤ × ℤ) = (v1.weight, v1.digits.headD 0) :=
    congrArg (fun o => (o.get!).1) (congrFun hdigit1 false)
  have h2 : ((0, 3) : ℤ × ℤ) = (v2.weight, v2.digits.headD 0) :=
    congrArg (fun o => (o.get!).1) (congrFun hdigit2 false)
  have hrs : rs = 20 := by
    rw [leadingWeight, ← (Prod.mk.inj h1).1, ← (Prod.mk.inj h1).2, ← (Prod.mk.inj h2).1, ← (Prod.mk.inj h2).2]
      at hscale
    have htwenty : (rs : ℤ) = 20 := hscale.trans (by decide)
    exact_mod_cast htwenty
  subst hrs
  obtain ⟨-, r, -, hexact, hrun⟩ := hpath ⟨by decide, by decide, by decide⟩
  exact ⟨r, hexact, hrun⟩

/-- Zero by the least `int128`: the sign change of the divisor wraps around. -/
theorem divisor_sign_change_wraps :
    (bipickdiv (fun _ _ _ => failure) (.bi128 0 37) (.bi128 (-2 ^ 127) 37)).run false = some (.bi128 0 37, true) := by
  decide +kernel

end GaussKernel.Adt
