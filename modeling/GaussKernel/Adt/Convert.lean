import GaussKernel.Adt.Format

/-!
# Between the plain format and big integers

`tryConvertNumericNormalToFast` turns a plain numeric into a `bi64` or `bi128` when its decimal digits
fit, and `makeNumericNormal` goes back. The digits of a plain numeric are aligned on the decimal point,
those of a big integer on its last decimal digit, so both directions rescale. The fixed digit buffers
of the way back are part of the model: writing past one fails.
-/

namespace GaussKernel.Adt

/-! ## Plain to big integer -/

def getWholeScale (v : NumericVar) : ℤ :=
  if 0 ≤ v.weight ∧ 0 < v.ndigits then
    let wholeScale := v.weight * DEC_DIGITS + v.dscale
    let firstDigit : ℤ := v.digits.headD 0
    if 1000 ≤ firstDigit then wholeScale + 4
    else if 100 ≤ firstDigit then wholeScale + 3
    else if 10 ≤ firstDigit then wholeScale + 2
    else wholeScale + 1
  else v.dscale

/-- `SHORT_NUMERIC_DIGITS`: asserts that the header is the short one. -/
def shortNumericDigits (v : NumericVar) : Run (List ℤ) :=
  if v.IsShort then pure v.digits else failure

def updateResult (result digit : ℤ) : Run ℤ := do
  let result ← signed 128 (result * NBASE)
  signed 128 (result + digit)

/-- `encode_digits`: one `switch` case for each length up to 6, and 0 for every other length. -/
def encodeDigits : List ℤ → Run ℤ
  | [] => pure 0
  | d :: ds => if ds.length ≤ 5 then ds.foldlM updateResult d else pure 0

def signedResult (sign : NumericSign) (result : ℤ) : Run ℤ :=
  if sign = .pos then pure result else signed 128 (-result)

def convertShortNumericToInt64ByScale (n : NumericVar) (scale : ℕ) : Run ℤ := do
  let digits ← shortNumericDigits n
  let ascale : ℤ := if 0 < n.ndigits then n.ndigits - n.weight - 1 else 0
  let scaleDiff : ℤ := scale - ascale * DEC_DIGITS
  let result ← encodeDigits digits
  let result ←
    if 0 < scaleDiff then do
      let m ← scaleMultipler scaleDiff
      signed 128 (result * m)
    else do
      let m ← scaleMultipler (-scaleDiff)
      pure (result.tdiv m)
  let result ← signedResult n.sign result
  pure (toInt64 result)

/-- Step 1 of the `int128` conversion: every digit is multiplied by the power of its own place. -/
def addDigits : List ℤ → ℤ → Run ℤ
  | [], result => pure result
  | d :: ds, result => do
    let m ← getScaleMultiplier (ds.length * DEC_DIGITS)
    let p ← signed 128 (d * m)
    let result ← signed 128 (result + p)
    addDigits ds result

/-- The digits are gathered up to the last one, and of that one only the part the display scale shows
when it cuts through it. -/
def convertShortNumericToInt128ByScale (n : NumericVar) (dscale : ℕ) : Run ℤ := do
  let digits ← shortNumericDigits n
  if n.ndigits = 0 then
    pure 0
  else
    let remainder : ℕ := dscale % 4
    let ascale : ℤ := n.ndigits - (n.weight + 1)
    let result ←
      if 0 < ascale ∧ remainder ≠ 0 ∧ ((dscale / 4 : ℕ) : ℤ) + 1 = ascale then do
        let result ← addDigits digits.dropLast 0
        let m ← getScaleMultiplier remainder
        let result ← signed 128 (result * m)
        let m ← getScaleMultiplier (DEC_DIGITS - remainder)
        let result ← signed 128 (result + (digits.getLastD 0).tdiv m)
        let m ← getScaleMultiplier ((dscale : ℤ) - (ascale - 1) * 4 - (dscale % 4 : ℕ))
        signed 128 (result * m)
      else do
        let result ← addDigits digits 0
        let m ← getScaleMultiplier ((dscale : ℤ) - ascale * 4)
        signed 128 (result * m)
    signedResult n.sign result

/-- `makeNumeric64`: the scale is a `uint8` in the header word. -/
def makeNumeric64 (value : ℤ) (scale : ℕ) : Numeric := .bi64 value (scale % 256)

def makeNumeric128 (value : ℤ) (scale : ℕ) : Numeric := .bi128 value (scale % 256)

def tryConvertNumericNormalToFast (enableFastNumeric : Bool) : Numeric → Run Numeric
  | .plain v =>
    if enableFastNumeric = false then pure (.plain v)
    else if getWholeScale v ≤ (MAXINT64DIGIT : ℤ) - 1 then do
      let result ← convertShortNumericToInt64ByScale v v.dscale
      pure (makeNumeric64 result v.dscale)
    else if getWholeScale v ≤ (MAXINT128DIGIT : ℤ) then do
      let result ← convertShortNumericToInt128ByScale v v.dscale
      pure (makeNumeric128 result v.dscale)
    else pure (.plain v)
  | val => pure val

/-! ## Big integer to plain -/

/-- Step 3: the base-10000 digits of `preData`, written from the end of a buffer with `room` places. -/
def preLoop : ℕ → ℤ → List ℤ → Run (List ℤ)
  | 0, preData, buf => if preData = 0 then pure buf else failure
  | room + 1, preData, buf =>
    if preData = 0 then pure buf
    else preLoop room (preData / NBASE) ((preData - preData / NBASE * NBASE) :: buf)

/-- Step 4: four decimal digits after another are cut off the front of the fraction, and what is left
below four digits is filled up with zeros. -/
def postLoop (power : ℤ → Run ℤ) : ℕ → ℤ → ℤ → Run (List ℤ)
  | 0, postData, _ => if postData = 0 then pure [] else failure
  | room + 1, postData, resultScale =>
    if postData = 0 then pure []
    else if DEC_DIGITS ≤ resultScale then do
      let m ← power (resultScale - DEC_DIGITS)
      let rest ← postLoop power room (postData % m) (resultScale - DEC_DIGITS)
      pure (postData / m :: rest)
    else do
      let m ← scaleMultipler (DEC_DIGITS - resultScale)
      pure [postData * m]

/-- The last case of step 5: leading zeros of the fraction lower the weight. -/
def postWeight : ℤ → List ℤ → ℤ × List ℤ
  | weight, [] => (weight, [])
  | weight, d :: ds => if d ≠ 0 then (weight - 1, d :: ds) else postWeight (weight - 1) ds

/-- Step 1: the sign is taken off; "(-1 * data) maybe out of bound, turn to" the unsigned type. -/
def unsignedData (width : ℕ) (data : ℤ) : Run ℤ :=
  (· % 2 ^ width) <$> if data < 0 then signed width (-data) else pure data

/-- The common body of `convert_int64_to_numeric` and `convert_int128_to_numeric`: the width of the
integer, the room in the digit buffers and the table the fraction is cut with are their own. -/
def convertIntToNumeric (width room : ℕ) (power : ℤ → Run ℤ) (data : ℤ) (scale : ℕ) :
    Run NumericVar := do
  let sign := if data < 0 then NumericSign.neg else NumericSign.pos
  let uval ← unsignedData width data
  if uval = 0 then
    pure { sign := .pos, weight := 0, dscale := scale, digits := [] }
  else do
    let m ← getScaleMultiplier scale
    let pre ← preLoop room (uval / m) []
    let post ← postLoop power room (uval % m) scale
    if pre ≠ [] then
      if post ≠ [] then
        pure { sign := sign, weight := pre.length - 1, dscale := scale, digits := pre ++ post }
      else
        pure { sign := sign, weight := pre.length - 1, dscale := scale,
               digits := Radix.rstrip pre }
    else
      pure { sign := sign, weight := (postWeight 0 post).1, dscale := scale,
             digits := (postWeight 0 post).2 }

def convertInt64ToNumeric (data : ℤ) (scale : ℕ) : Run NumericVar :=
  convertIntToNumeric 64 5 scaleMultipler data scale

def convertInt128ToNumeric (data : ℤ) (scale : ℕ) : Run NumericVar :=
  convertIntToNumeric 128 10 getScaleMultiplier data scale

def makeNumericNormal : Numeric → Run NumericVar
  | .bi64 value scale => convertInt64ToNumeric value scale
  | .bi128 value scale => convertInt128ToNumeric value scale
  | _ => failure

/-! ## Plain to big integer is exact -/

section Fast

variable {v : NumericVar} {r : ℤ} {ds : List ℤ}

/-- The decimal digits of a value with `s` digits after the point, against its base-10000 digits: the
integer is the mantissa with zeros appended, or the mantissa has zeros too many. -/
lemma unscaled_cases {s : ℕ} (h : v.absVal = r / 10 ^ s) :
    (∃ k : ℕ, (s : ℤ) - 4 * v.ascale = k ∧ r = v.mantissa * 10 ^ k) ∨
    (∃ k : ℕ, 0 < k ∧ 4 * v.ascale - s = k ∧ v.mantissa = r * 10 ^ k) := by
  have h10 : (10000 : ℚ) ^ (-v.ascale) = (10 : ℚ) ^ (-(4 * v.ascale)) := by
    rw [show (10000 : ℚ) = 10 ^ (4 : ℤ) by norm_num, ← zpow_mul]
    congr 1
    ring
  have hr : (r : ℚ) = v.mantissa * (10 : ℚ) ^ ((s : ℤ) - 4 * v.ascale) := by
    have hs : (10 : ℚ) ^ s ≠ 0 := by positivity
    rw [eq_div_iff hs] at h
    rw [← h, NumericVar.absVal, h10, mul_assoc, ← zpow_natCast, ← zpow_add₀ (by norm_num)]
    congr 2
    ring
  rcases le_or_gt (4 * v.ascale) s with hle | hlt
  · left
    refine ⟨((s : ℤ) - 4 * v.ascale).toNat, by omega, ?_⟩
    have hk : ((((s : ℤ) - 4 * v.ascale).toNat : ℕ) : ℤ) = (s : ℤ) - 4 * v.ascale := by omega
    rw [← hk, zpow_natCast] at hr
    exact_mod_cast hr
  · right
    refine ⟨(4 * v.ascale - s).toNat, by omega, by omega, ?_⟩
    have hk : ((s : ℤ) - 4 * v.ascale) = -((4 * v.ascale - s).toNat : ℕ) := by omega
    have hp : (10 : ℚ) ^ (4 * v.ascale - s).toNat ≠ 0 := by positivity
    rw [hk, zpow_neg, zpow_natCast, ← div_eq_mul_inv, eq_div_iff hp] at hr
    exact_mod_cast hr.symm

/-- At most three of the four decimal digits of the last digit are hidden. -/
lemma NumericVar.Normalized.hidden_le (hv : v.Normalized) (hne : v.digits ≠ []) {k : ℕ}
    (h : v.mantissa = r * 10 ^ k) : k ≤ 3 := by
  by_contra hk
  apply hv.mantissa_emod_ne hne
  obtain ⟨j, rfl⟩ : ∃ j, k = j + 4 := ⟨k - 4, by omega⟩
  rw [h, pow_add, ← mul_assoc]
  exact Int.mul_emod_left _ _

lemma foldlM_updateResult (hds : Radix.Digits NBASE ds) (hr : 0 ≤ r)
    (hb : (r + 1) * 10000 ^ ds.length ≤ 2 ^ 127) :
    ds.foldlM updateResult r = pure (r * 10000 ^ ds.length + Radix.value NBASE ds) := by
  induction ds generalizing r with
  | nil => simp
  | cons d ds ih =>
    obtain ⟨⟨hd0, hd1⟩, hds'⟩ := Radix.digits_cons.mp hds
    have hp : (1 : ℤ) ≤ 10000 ^ ds.length := one_le_pow₀ (by norm_num)
    rw [List.length_cons, pow_succ] at hb
    have hb' : (r * 10000 + d + 1) * 10000 ^ ds.length ≤ 2 ^ 127 := by nlinarith
    have hr' : r * 10000 + d + 1 ≤ 2 ^ 127 := by nlinarith
    have h1 : signed 128 (r * NBASE) = pure (r * 10000) :=
      signed_of_inRange ⟨by norm_num; linarith, by norm_num; linarith⟩
    have h2 : signed 128 (r * 10000 + d) = pure (r * 10000 + d) :=
      signed_of_inRange ⟨by norm_num; linarith, by norm_num; linarith⟩
    rw [List.foldlM_cons, updateResult, h1, pure_bind, h2, pure_bind, ih hds' (by linarith) hb',
      Radix.value_cons, List.length_cons, pow_succ]
    congr 1
    ring

lemma encodeDigits_eq (hds : Radix.Digits NBASE ds) (hlen : ds.length ≤ 6) :
    encodeDigits ds = pure (Radix.value NBASE ds) := by
  cases ds with
  | nil => rfl
  | cons d ds =>
    obtain ⟨⟨hd0, hd1⟩, hds'⟩ := Radix.digits_cons.mp hds
    rw [List.length_cons] at hlen
    have hp : (10000 : ℤ) ^ ds.length ≤ 10000 ^ 5 := pow_le_pow_right₀ (by norm_num) (by omega)
    have hb : (d + 1) * 10000 ^ ds.length ≤ 2 ^ 127 := by
      calc (d + 1) * 10000 ^ ds.length ≤ 10000 * 10000 ^ 5 := by
            apply mul_le_mul (Int.add_one_le_of_lt hd1) hp (by positivity) (by norm_num)
        _ ≤ 2 ^ 127 := by norm_num
    rw [encodeDigits, if_pos (by omega), foldlM_updateResult hds' hd0 hb, Radix.value_cons]

lemma addDigits_eq (hds : Radix.Digits NBASE ds) (hlen : ds.length ≤ 10) (hr : 0 ≤ r)
    (hb : r + Radix.value NBASE ds < 2 ^ 127) : addDigits ds r = pure (r + Radix.value NBASE ds) := by
  induction ds generalizing r with
  | nil => simp [addDigits]
  | cons d ds ih =>
    obtain ⟨⟨hd0, hd1⟩, hds'⟩ := Radix.digits_cons.mp hds
    have hv := Radix.value_nonneg hds'
    rw [List.length_cons] at hlen
    rw [Radix.value_cons] at hb ⊢
    have hm : getScaleMultiplier (ds.length * DEC_DIGITS) = pure (10000 ^ ds.length) := by
      rw [show (ds.length : ℤ) * DEC_DIGITS = ((ds.length * 4 : ℕ) : ℤ) by norm_num,
        getScaleMultiplier_eq (by omega), mul_comm ds.length 4, pow_mul]
      norm_num
    have hp : 0 ≤ d * 10000 ^ ds.length := by positivity
    have h1 : signed 128 (d * 10000 ^ ds.length) = pure (d * 10000 ^ ds.length) :=
      signed_of_inRange ⟨by norm_num; linarith, by norm_num; linarith⟩
    have h2 : signed 128 (r + d * 10000 ^ ds.length) = pure (r + d * 10000 ^ ds.length) :=
      signed_of_inRange ⟨by norm_num; linarith, by norm_num; linarith⟩
    rw [addDigits, hm, pure_bind, h1, pure_bind, h2, pure_bind,
      ih hds' (by omega) (by linarith) (by linarith), add_assoc]

lemma signedResult_eq (sign : NumericSign) (h0 : 0 ≤ r) (h1 : r < 2 ^ 127) :
    signedResult sign r = pure (sign.toInt * r) := by
  cases sign
  · simp [signedResult, NumericSign.toInt]
  · have h : signed 128 (-r) = pure (-r) :=
      signed_of_inRange ⟨by norm_num; linarith, by norm_num; linarith⟩
    simp [signedResult, NumericSign.toInt, h]

lemma unscaled_nonneg (hv : v.Normalized) {s : ℕ} (h : v.absVal = r / 10 ^ s) : 0 ≤ r := by
  have h0 := absVal_nonneg hv.digits
  have hp : (0 : ℚ) < 10 ^ s := by positivity
  rw [h, div_nonneg_iff] at h0
  rcases h0 with h0 | h0
  · exact_mod_cast h0.1
  · exact absurd h0.2 (not_le.mpr hp)

/-- A value of at most 38 decimal digits has few base-10000 digits before and after the point. -/
lemma weight_bounds (hv : v.Normalized) (hne : v.digits ≠ []) (h : v.absVal = r / 10 ^ v.dscale)
    (hr : r < 10 ^ 38) (hs : v.dscale ≤ 38) : v.weight ≤ 9 ∧ -10 ≤ v.weight := by
  have hn : 0 < v.ndigits := List.length_pos_iff.mpr hne
  constructor
  · by_contra hw
    have h1 : (10000 : ℚ) ^ (10 : ℤ) ≤ 10000 ^ v.weight := zpow_le_zpow_right₀ (by norm_num) (by omega)
    have h2 := hv.pow_le_absVal hne
    have h3 : (r : ℚ) / 10 ^ v.dscale ≤ r := by
      apply div_le_self
      · exact_mod_cast unscaled_nonneg hv h
      · exact one_le_pow₀ (by norm_num)
    have h4 : (r : ℚ) < 10 ^ 38 := by exact_mod_cast hr
    rw [h] at h2
    norm_num at h1
    linarith
  · have hasc : 4 * v.ascale - v.dscale ≤ 3 := by
      rcases unscaled_cases h with ⟨k, hk, _⟩ | ⟨k, _, hk, hm⟩
      · omega
      · have := hv.hidden_le hne hm
        omega
    unfold NumericVar.ascale at hasc
    omega

lemma isShort_of_lt (hv : v.Normalized) (h : v.absVal = r / 10 ^ v.dscale) (hr : r < 10 ^ 38)
    (hs : v.dscale ≤ 38) : v.IsShort := by
  by_cases hne : v.digits = []
  · obtain ⟨hw, _⟩ := hv.zero hne
    exact ⟨by omega, by omega, by omega⟩
  · obtain ⟨h1, h2⟩ := weight_bounds hv hne h hr hs
    exact ⟨by omega, by omega, by omega⟩

/-- The number of digits of a mantissa below a power of ten. -/
lemma ndigits_le_of_lt (hv : v.Normalized) {e k : ℕ} (hlt : v.mantissa < 10 ^ e)
    (hk : e ≤ 4 * k) : v.ndigits ≤ k := by
  by_contra hnk
  have hne : v.digits ≠ [] := by
    intro hnil
    simp [NumericVar.ndigits, hnil] at hnk
  have h1 := hv.pow_le_mantissa hne
  have h2 : (10000 : ℤ) ^ k ≤ 10000 ^ (v.ndigits - 1) := pow_le_pow_right₀ (by norm_num) (by omega)
  have h3 : (10 : ℤ) ^ e ≤ 10 ^ (4 * k) := pow_le_pow_right₀ (by norm_num) hk
  rw [pow_mul] at h3
  norm_num at h3
  linarith

lemma shortNumericDigits_eq (h : v.IsShort) : shortNumericDigits v = pure v.digits := if_pos h

/-- With zeros appended the mantissa is at most the integer, and the zeros are fewer than its digits. -/
lemma NumericVar.Normalized.appended {k n : ℕ} (hv : v.Normalized) (hne : v.digits ≠ [])
    (hm : r = v.mantissa * 10 ^ k) (hr : r < 10 ^ n) : v.mantissa ≤ r ∧ k < n := by
  have hmpos := hv.mantissa_pos hne
  constructor
  · rw [hm]
    exact le_mul_of_one_le_right hmpos.le (one_le_pow₀ (by norm_num))
  · have hle : (10 : ℤ) ^ k ≤ r := by
      rw [hm]
      exact le_mul_of_one_le_left (by positivity) hmpos
    exact (pow_lt_pow_iff_right₀ (by norm_num : (1 : ℤ) < 10)).mp (hle.trans_lt hr)

/-- The conversion to an `int64` returns the integer of the value at its display scale. -/
lemma convertShortNumericToInt64ByScale_eq (hv : v.Normalized) (h : v.absVal = r / 10 ^ v.dscale)
    (hr : r < 10 ^ 18) (hs : v.dscale ≤ 18) :
    convertShortNumericToInt64ByScale v v.dscale = pure (v.sign.toInt * r) := by
  have hr0 := unscaled_nonneg hv h
  have hshort := isShort_of_lt hv h (hr.trans (by norm_num)) (by omega)
  have hsign := signedResult_eq v.sign hr0 (hr.trans (by norm_num))
  have hcast : toInt64 (v.sign.toInt * r) = v.sign.toInt * r := by
    apply toInt64_of_inRange
    cases v.sign <;> simp only [NumericSign.toInt] <;> constructor <;> norm_num <;> linarith
  unfold convertShortNumericToInt64ByScale
  rw [shortNumericDigits_eq hshort, pure_bind]
  by_cases hne : v.digits = []
  · have hr' : r = 0 := unscaled_of_digits_nil hne h
    have hn : v.ndigits = 0 := by simp [NumericVar.ndigits, hne]
    subst hr'
    simp only [hn, hne, encodeDigits, pure_bind, lt_self_iff_false, ↓reduceIte, zero_mul, sub_zero]
    by_cases hpos : (0 : ℤ) < v.dscale
    · simp only [hpos, ↓reduceIte, scaleMultipler_eq hs, pure_bind,
        signed_of_inRange (inRange_zero 128), hsign, hcast]
    · have hz : v.dscale = 0 := by omega
      have h0 := scaleMultipler_eq (i := 0) (by omega)
      simp only [Nat.cast_zero] at h0
      simp only [hz, Nat.cast_zero, lt_self_iff_false, ↓reduceIte, neg_zero, h0, pure_bind,
        Int.zero_tdiv, hsign, hcast]
  · have hn : 0 < v.ndigits := List.length_pos_iff.mpr hne
    have hdiff : (v.dscale : ℤ) - (v.ndigits - v.weight - 1) * DEC_DIGITS
        = v.dscale - 4 * v.ascale := by
      unfold NumericVar.ascale
      ring
    simp only [hn, ↓reduceIte, hdiff]
    rcases unscaled_cases h with ⟨k, hk, hm⟩ | ⟨k, hk0, hk, hm⟩
    · -- zeros are appended to the mantissa
      obtain ⟨hmr, hk18⟩ := hv.appended hne hm hr
      have henc : encodeDigits v.digits = pure v.mantissa := encodeDigits_eq hv.digits
        ((ndigits_le_of_lt hv (hmr.trans_lt hr) (k := 5) (by norm_num)).trans (by norm_num))
      have hmul : signed 128 (v.mantissa * 10 ^ k) = pure r := by
        rw [← hm]
        exact signed_of_inRange ⟨by norm_num; linarith, by norm_num; linarith⟩
      rw [henc, hk, pure_bind]
      by_cases hk0 : 0 < k
      · rw [if_pos (by omega), scaleMultipler_eq (by omega), pure_bind]
        simp only [hmul, pure_bind, hsign, hcast]
      · have hz : k = 0 := by omega
        subst hz
        have h0 := scaleMultipler_eq (i := 0) (by omega)
        simp only [Nat.cast_zero, pow_zero] at h0
        rw [if_neg (by omega), Nat.cast_zero, neg_zero, h0, pure_bind, Int.tdiv_one, pure_bind]
        rw [pow_zero, mul_one] at hm
        rw [← hm, hsign, pure_bind, hcast]
    · -- the zeros the mantissa has too many are divided off
      have hk3 := hv.hidden_le hne hm
      have hlt : v.mantissa < 10 ^ 21 := by
        have hp : (10 : ℤ) ^ k ≤ 10 ^ 3 := pow_le_pow_right₀ (by norm_num) hk3
        calc v.mantissa = r * 10 ^ k := hm
          _ ≤ r * 10 ^ 3 := mul_le_mul_of_nonneg_left hp hr0
          _ < 10 ^ 18 * 10 ^ 3 := mul_lt_mul_of_pos_right hr (by norm_num)
          _ = 10 ^ 21 := by norm_num
      have henc : encodeDigits v.digits = pure v.mantissa :=
        encodeDigits_eq hv.digits (ndigits_le_of_lt hv hlt (k := 6) (by norm_num))
      rw [henc, pure_bind, if_neg (by omega), show -((v.dscale : ℤ) - 4 * v.ascale) = (k : ℕ) by omega,
        scaleMultipler_eq (by omega), pure_bind, pure_bind, hm,
        Int.mul_tdiv_cancel _ (by positivity), hsign, pure_bind, hcast]

/-- The last digit. -/
lemma getLastD_digits (hne : v.digits ≠ []) : v.digits.getLastD 0 = v.digits.getLast hne := by
  rw [List.getLastD_eq_getLast?, List.getLast?_eq_getLast_of_ne_nil hne, Option.getD_some]

/-- Mantissa, last digit and the digits before it. -/
lemma mantissa_split (hne : v.digits ≠ []) :
    v.mantissa = Radix.value NBASE v.digits.dropLast * 10000 + v.digits.getLastD 0 := by
  rw [getLastD_digits hne, NumericVar.mantissa, ← Radix.value_concat, List.dropLast_append_getLast]

/-- The conversion to an `int128`, whichever way the display scale and the digits are aligned. -/
lemma convertShortNumericToInt128ByScale_eq (hv : v.Normalized) (h : v.absVal = r / 10 ^ v.dscale)
    (hr : r < 10 ^ 38) (hs : v.dscale ≤ 38) :
    convertShortNumericToInt128ByScale v v.dscale = pure (v.sign.toInt * r) := by
  have hr0 := unscaled_nonneg hv h
  have hshort := isShort_of_lt hv h hr hs
  have hsign := signedResult_eq v.sign hr0 (hr.trans (by norm_num))
  unfold convertShortNumericToInt128ByScale
  rw [shortNumericDigits_eq hshort, pure_bind]
  by_cases hne : v.digits = []
  · have hr' : r = 0 := unscaled_of_digits_nil hne h
    have hn : v.ndigits = 0 := by simp [NumericVar.ndigits, hne]
    rw [if_pos hn, hr', mul_zero]
  have hn : 0 < v.ndigits := List.length_pos_iff.mpr hne
  have hasc : (v.ndigits : ℤ) - (v.weight + 1) = v.ascale := by
    unfold NumericVar.ascale
    ring
  rw [if_neg (by omega)]
  simp only [hasc]
  rcases unscaled_cases h with ⟨k, hk, hm⟩ | ⟨k, hk0, hk, hm⟩
  · -- the display scale does not cut the last digit
    obtain ⟨hmr, hk38⟩ := hv.appended hne hm hr
    have hadd : addDigits v.digits 0 = pure v.mantissa := by
      have := addDigits_eq hv.digits (ndigits_le_of_lt hv (hmr.trans_lt hr) (k := 10) (by norm_num))
        (le_refl 0) (by rw [zero_add]; exact (hmr.trans_lt hr).trans (by norm_num))
      rw [this, zero_add]
      rfl
    have hmul : signed 128 (v.mantissa * 10 ^ k) = pure r := by
      rw [← hm]
      exact signed_of_inRange ⟨by norm_num; linarith, by norm_num; linarith⟩
    rw [if_neg (by omega), hadd, pure_bind,
      show (v.dscale : ℤ) - v.ascale * 4 = (k : ℕ) by omega, getScaleMultiplier_eq (by omega), pure_bind,
      hmul, pure_bind, hsign]
  · -- of the last digit only the first `4 - k` decimal digits are shown
    have hk3 := hv.hidden_le hne hm
    have hrem : v.dscale % 4 = 4 - k := by omega
    have hquo : ((v.dscale / 4 : ℕ) : ℤ) + 1 = v.ascale := by omega
    have hsplit := mantissa_split hne
    have hdl : Radix.Digits NBASE v.digits.dropLast :=
      fun d hd => hv.digits d (List.dropLast_subset _ hd)
    have hlast := getLastD_digits hne
    have hl0 : 0 ≤ v.digits.getLastD 0 := by
      rw [hlast]
      exact (hv.digits _ (List.getLast_mem hne)).1
    have hi0 := Radix.value_nonneg hdl
    -- the integer is the digits before the last one, and the shown part of the last one
    have hpow : (10000 : ℤ) = 10 ^ (4 - k) * 10 ^ k := by
      rw [← pow_add, show 4 - k + k = 4 by omega]
      norm_num
    have hpk : (0 : ℤ) < 10 ^ k := by positivity
    have hdiv : v.digits.getLastD 0 = (r - Radix.value NBASE v.digits.dropLast * 10 ^ (4 - k)) * 10 ^ k := by
      have h1 : v.mantissa = r * 10 ^ k := hm
      rw [hsplit, hpow] at h1
      linarith
    have htdiv : (v.digits.getLastD 0).tdiv (10 ^ k)
        = r - Radix.value NBASE v.digits.dropLast * 10 ^ (4 - k) := by
      rw [hdiv, Int.mul_tdiv_cancel _ hpk.ne']
    have hshown : 0 ≤ r - Radix.value NBASE v.digits.dropLast * 10 ^ (4 - k) := by
      by_contra hneg
      have := mul_neg_of_neg_of_pos (not_le.mp hneg) hpk
      rw [← hdiv] at this
      exact absurd hl0 (not_le.mpr this)
    have hp1 : (1 : ℤ) ≤ 10 ^ (4 - k) := one_le_pow₀ (by norm_num)
    have hir : Radix.value NBASE v.digits.dropLast ≤ Radix.value NBASE v.digits.dropLast * 10 ^ (4 - k) :=
      le_mul_of_one_le_right hi0 hp1
    have hlen : v.digits.dropLast.length ≤ 10 := by
      have hlt : v.mantissa < 10 ^ 41 := by
        have hp : (10 : ℤ) ^ k ≤ 10 ^ 3 := pow_le_pow_right₀ (by norm_num) hk3
        calc v.mantissa = r * 10 ^ k := hm
          _ ≤ r * 10 ^ 3 := mul_le_mul_of_nonneg_left hp hr0
          _ < 10 ^ 38 * 10 ^ 3 := mul_lt_mul_of_pos_right hr (by norm_num)
          _ = 10 ^ 41 := by norm_num
      have := ndigits_le_of_lt hv hlt (k := 11) (by norm_num)
      rw [List.length_dropLast]
      unfold NumericVar.ndigits at this
      omega
    have hadd : addDigits v.digits.dropLast 0 = pure (Radix.value NBASE v.digits.dropLast) := by
      have := addDigits_eq hdl hlen (le_refl 0) (by rw [zero_add]; norm_num; linarith)
      rw [this, zero_add]
    have hm1 : signed 128 (Radix.value NBASE v.digits.dropLast * 10 ^ (4 - k))
        = pure (Radix.value NBASE v.digits.dropLast * 10 ^ (4 - k)) :=
      signed_of_inRange ⟨by norm_num; linarith, by norm_num; linarith⟩
    have hrr : signed 128 r = pure r :=
      signed_of_inRange ⟨by norm_num; linarith, by norm_num; linarith⟩
    have h0 := getScaleMultiplier_eq (i := 0) (by omega)
    simp only [Nat.cast_zero, pow_zero] at h0
    rw [if_pos ⟨by omega, by omega, hquo⟩, hadd, pure_bind, hrem, getScaleMultiplier_eq (by omega),
      pure_bind, hm1, pure_bind, show DEC_DIGITS - ((4 - k : ℕ) : ℤ) = (k : ℕ) by
        simp only [DEC_DIGITS]; omega,
      getScaleMultiplier_eq (by omega), pure_bind, htdiv, add_sub_cancel, hrr, pure_bind,
      show (v.dscale : ℤ) - (v.ascale - 1) * 4 - ((4 - k : ℕ) : ℤ) = 0 by omega, h0, pure_bind, mul_one,
      hrr, pure_bind, hsign]

/-- The first digit bounds a value by a power of ten. -/
lemma absVal_lt_of_head (hv : v.Normalized) (hne : v.digits ≠ []) {f : ℕ}
    (hf : v.digits.headD 0 < 10 ^ f) : v.absVal < (10 : ℚ) ^ (4 * v.weight + f) := by
  obtain ⟨d, ds, hd⟩ := List.exists_cons_of_ne_nil hne
  have hds : Radix.Digits NBASE (d :: ds) := hd ▸ hv.digits
  rw [hd, List.headD_cons] at hf
  have htail := Radix.value_lt_pow (B := NBASE) (by norm_num) (Radix.digits_cons.mp hds).2
  have hm : v.mantissa < 10 ^ f * 10000 ^ ds.length := by
    have hp : (0 : ℤ) < 10000 ^ ds.length := by positivity
    rw [NumericVar.mantissa, hd, Radix.value_cons]
    calc d * NBASE ^ ds.length + Radix.value NBASE ds < (d + 1) * 10000 ^ ds.length := by
          rw [add_mul, one_mul]
          exact Int.add_lt_add_left htail _
      _ ≤ 10 ^ f * 10000 ^ ds.length := mul_le_mul_of_nonneg_right hf hp.le
  have hmq : (v.mantissa : ℚ) < 10 ^ f * 10000 ^ ds.length := by exact_mod_cast hm
  have hp : (0 : ℚ) < 10000 ^ (-v.ascale) := by positivity
  have h4 : ∀ z : ℤ, (10000 : ℚ) ^ z = 10 ^ (4 * z) := by
    intro z
    rw [zpow_mul]
    norm_num
  calc v.absVal < 10 ^ f * 10000 ^ ds.length * (10000 : ℚ) ^ (-v.ascale) :=
        mul_lt_mul_of_pos_right hmq hp
    _ = (10 : ℚ) ^ (4 * v.weight + f) := by
      rw [mul_assoc, ← zpow_natCast (10000 : ℚ), ← zpow_add₀ (by norm_num), h4, ← zpow_natCast,
        ← zpow_add₀ (by norm_num)]
      congr 1
      unfold NumericVar.ascale NumericVar.ndigits
      rw [hd, List.length_cons]
      push_cast
      ring

lemma lt_pow_of_absVal_lt {s e : ℕ} {x : ℚ} {z : ℤ} (h : x = r / 10 ^ s) (hx : x < 10 ^ z) (he : z + s ≤ e) :
    r < 10 ^ e := by
  have hp : (0 : ℚ) < 10 ^ s := by positivity
  rw [h, div_lt_iff₀ hp, ← zpow_natCast, ← zpow_add₀ (by norm_num)] at hx
  have hle : (10 : ℚ) ^ (z + s) ≤ 10 ^ (e : ℤ) := zpow_le_zpow_right₀ (by norm_num) he
  rw [zpow_natCast] at hle
  exact_mod_cast hx.trans_le hle

/-- The number of decimal digits the whole scale counts for the first digit. -/
lemma firstDigit_cases {x base e : ℤ} (hx : x < 10000)
    (he : (if 1000 ≤ x then base + 4 else if 100 ≤ x then base + 3
      else if 10 ≤ x then base + 2 else base + 1) ≤ e) :
    ∃ f : ℕ, x < 10 ^ f ∧ base + f ≤ e := by
  split at he
  · exact ⟨4, by omega, by omega⟩
  · split at he
    · exact ⟨3, by omega, by omega⟩
    · split at he
      · exact ⟨2, by omega, by omega⟩
      · exact ⟨1, by omega, by omega⟩

/-- The whole scale counts the decimal digits of the value at its display scale. -/
lemma lt_pow_wholeScale (hv : v.Normalized) (h : v.absVal = r / 10 ^ v.dscale) {e : ℕ}
    (he : getWholeScale v ≤ e) : r < 10 ^ e ∧ v.dscale ≤ e := by
  unfold getWholeScale at he
  by_cases hw : 0 ≤ v.weight ∧ 0 < v.ndigits
  · rw [if_pos hw] at he
    have hne : v.digits ≠ [] := List.length_pos_iff.mp hw.2
    have hb : v.digits.headD 0 < 10000 := by
      obtain ⟨d, ds, hd⟩ := List.exists_cons_of_ne_nil hne
      have := hv.digits d (by simp [hd])
      simpa [hd] using this.2
    simp only [DEC_DIGITS] at he
    obtain ⟨f, hf, hfe⟩ := firstDigit_cases hb he
    exact ⟨lt_pow_of_absVal_lt h (absVal_lt_of_head hv hne hf) (by omega), by omega⟩
  · rw [if_neg hw] at he
    refine ⟨?_, by omega⟩
    by_cases hne : v.digits = []
    · have h0 : v.absVal < (10 : ℚ) ^ (0 : ℤ) := by
        rw [absVal_of_digits_nil hne]
        norm_num
      exact lt_pow_of_absVal_lt h h0 (by omega)
    · have hneg : v.weight < 0 := by
        by_contra hc
        exact hw ⟨by omega, List.length_pos_iff.mpr hne⟩
      have h1 : v.absVal < (10 : ℚ) ^ (0 : ℤ) := by
        have hle : (10000 : ℚ) ^ (v.weight + 1) ≤ 10000 ^ (0 : ℤ) :=
          zpow_le_zpow_right₀ (by norm_num) (by omega)
        have := absVal_lt_pow hv.digits
        simp only [zpow_zero] at hle ⊢
        linarith
      exact lt_pow_of_absVal_lt h h1 (by omega)

/-- What the conversion to a big integer returns: the value itself, or a big integer of the same scale
and the same value. -/
lemma tryConvertNumericNormalToFast_eq (hv : v.Normalized) (enable : Bool) :
    tryConvertNumericNormalToFast enable (.plain v) = pure (.plain v) ∨
    ∃ r : ℤ, v.toRat = r / 10 ^ v.dscale ∧
      ((|r| < 10 ^ 18 ∧ v.dscale ≤ 18 ∧
          tryConvertNumericNormalToFast enable (.plain v) = pure (.bi64 r v.dscale)) ∨
       (|r| < 10 ^ 38 ∧ v.dscale ≤ 38 ∧
          tryConvertNumericNormalToFast enable (.plain v) = pure (.bi128 r v.dscale))) := by
  obtain ⟨r, h⟩ := hv.dscale
  have hr0 := unscaled_nonneg hv h
  have hval : v.toRat = ((v.sign.toInt * r : ℤ) : ℚ) / 10 ^ v.dscale := by
    rw [NumericVar.toRat, h]
    push_cast
    ring
  have habs : |v.sign.toInt * r| = r := by
    cases v.sign <;> simp [NumericSign.toInt, abs_of_nonneg hr0]
  unfold tryConvertNumericNormalToFast
  by_cases hen : enable = false
  · exact .inl (if_pos hen)
  dsimp only
  rw [if_neg hen]
  by_cases h64 : getWholeScale v ≤ (MAXINT64DIGIT : ℤ) - 1
  · obtain ⟨hr, hs⟩ := lt_pow_wholeScale hv h (e := 18) h64
    refine .inr ⟨v.sign.toInt * r, hval, .inl ⟨habs.trans_lt hr, hs, ?_⟩⟩
    rw [if_pos h64, convertShortNumericToInt64ByScale_eq hv h hr hs, pure_bind, makeNumeric64,
      Nat.mod_eq_of_lt (by omega)]
  · rw [if_neg h64]
    by_cases h128 : getWholeScale v ≤ (MAXINT128DIGIT : ℤ)
    · obtain ⟨hr, hs⟩ := lt_pow_wholeScale hv h (e := 38) h128
      refine .inr ⟨v.sign.toInt * r, hval, .inr ⟨habs.trans_lt hr, hs, ?_⟩⟩
      rw [if_pos h128, convertShortNumericToInt128ByScale_eq hv h hr hs, pure_bind, makeNumeric128,
        Nat.mod_eq_of_lt (by omega)]
    · exact .inl (if_neg h128)

end Fast

/-! ## Big integer to plain is exact -/

/-- The digits of the part before the point. -/
lemma preLoop_eq : ∀ (room : ℕ) (p : ℤ) (buf : List ℤ), 0 ≤ p → p < 10000 ^ room →
    ∃ ds, preLoop room p buf = pure (ds ++ buf) ∧ Radix.Digits NBASE ds ∧
      Radix.value NBASE ds = p ∧ (∀ d ∈ ds.head?, d ≠ 0) ∧ (ds = [] ↔ p = 0) := by
  intro room
  induction room with
  | zero =>
    intro p buf h0 h1
    have hp : p = 0 := by
      rw [pow_zero] at h1
      omega
    exact ⟨[], by rw [preLoop, if_pos hp, List.nil_append], Radix.Digits.nil, hp.symm, by simp, by simp [hp]⟩
  | succ room ih =>
    intro p buf h0 h1
    by_cases hp : p = 0
    · exact ⟨[], by rw [preLoop, if_pos hp, List.nil_append], Radix.Digits.nil, hp.symm, by simp,
        by simp [hp]⟩
    · have hq : p / 10000 < 10000 ^ room := by
        rw [pow_succ] at h1
        exact Int.ediv_lt_of_lt_mul (by norm_num) h1
      obtain ⟨ds, hrun, hds, hval, hhead, hnil⟩ :=
        ih (p / NBASE) ((p - p / NBASE * NBASE) :: buf) (by simp only [NBASE]; omega) hq
      have hmod : p - p / NBASE * NBASE = p % 10000 := by
        simp only [NBASE]
        omega
      refine ⟨ds ++ [p % 10000], ?_, ?_, ?_, ?_, ?_⟩
      · rw [preLoop, if_neg hp, hrun, hmod, List.append_assoc, List.singleton_append]
      · refine Radix.digits_append.mpr ⟨hds, ?_⟩
        intro d hd
        rw [List.mem_singleton] at hd
        simp only [NBASE]
        omega
      · rw [Radix.value_concat, hval]
        simp only [NBASE]
        omega
      · intro d hd
        cases ds with
        | nil =>
          -- the last quotient was zero, so the remainder is the number itself
          have hq0 : p / NBASE = 0 := hnil.mp rfl
          rw [List.nil_append, List.head?_cons, Option.mem_some_iff] at hd
          simp only [NBASE] at hq0
          rw [← hd]
          intro hz
          exact hp (by have hz' : p % 10000 = 0 := hz; omega)
        | cons x xs =>
          rw [List.cons_append, List.head?_cons] at hd
          exact hhead d hd
      · constructor
        · intro h
          simp at h
        · intro h
          exact absurd h hp

/-- The digits of the part after the point: `ds` with the point in front of it is the fraction. -/
lemma postLoop_eq {power : ℤ → Run ℤ} {top : ℕ}
    (hpower : ∀ i : ℕ, i + 4 ≤ top → power i = pure (10 ^ i)) :
    ∀ (room s : ℕ) (p : ℤ), s ≤ top → s ≤ 4 * room → 0 ≤ p → p < 10 ^ s →
    ∃ ds, postLoop power room p s = pure ds ∧ Radix.Digits NBASE ds ∧
      p * 10000 ^ ds.length = Radix.value NBASE ds * 10 ^ s ∧ (∀ d ∈ ds.getLast?, d ≠ 0) ∧
      (ds = [] ↔ p = 0) := by
  intro room
  induction room with
  | zero =>
    intro s p hs hr h0 h1
    have hz : s = 0 := by omega
    have hp : p = 0 := by
      rw [hz, pow_zero] at h1
      omega
    exact ⟨[], by rw [postLoop, if_pos hp], Radix.Digits.nil, by simp [hp], by simp, by simp [hp]⟩
  | succ room ih =>
    intro s p hs hr h0 h1
    by_cases hp : p = 0
    · exact ⟨[], by rw [postLoop, if_pos hp], Radix.Digits.nil, by simp [hp], by simp, by simp [hp]⟩
    by_cases h4 : 4 ≤ s
    · obtain ⟨t, rfl⟩ : ∃ t, s = t + 4 := ⟨s - 4, by omega⟩
      have hm : (0 : ℤ) < 10 ^ t := by positivity
      have hidx : (((t + 4 : ℕ) : ℤ) - DEC_DIGITS) = (t : ℕ) := by
        simp only [DEC_DIGITS]
        omega
      have hq : p / 10 ^ t < 10000 := by
        rw [pow_add] at h1
        exact Int.ediv_lt_of_lt_mul hm (by linarith)
      have hq0 : 0 ≤ p / 10 ^ t := Int.ediv_nonneg h0 hm.le
      have hdm := Int.mul_ediv_add_emod p (10 ^ t)
      obtain ⟨ds, hrun, hds, hval, hlast, hnil⟩ :=
        ih t (p % 10 ^ t) (by omega) (by omega) (Int.emod_nonneg _ hm.ne') (Int.emod_lt_of_pos _ hm)
      refine ⟨p / 10 ^ t :: ds, ?_, Radix.digits_cons.mpr ⟨⟨hq0, hq⟩, hds⟩, ?_, ?_, ?_⟩
      · rw [postLoop, if_neg hp, if_pos (by simp only [DEC_DIGITS]; omega), hidx,
          hpower t (by omega), pure_bind, hrun, pure_bind]
      · rw [Radix.value_cons, List.length_cons, add_mul, pow_add (10 : ℤ), pow_succ]
        calc p * (10000 ^ ds.length * 10000)
            = (10 ^ t * (p / 10 ^ t) + p % 10 ^ t) * (10000 ^ ds.length * 10000) := by rw [hdm]
          _ = p / 10 ^ t * NBASE ^ ds.length * (10 ^ t * 10 ^ 4)
              + (p % 10 ^ t * 10000 ^ ds.length) * 10 ^ 4 := by
            simp only [NBASE]
            ring
          _ = _ := by
            rw [hval]
            ring
      · intro d hd
        cases ds with
        | nil =>
          rw [List.getLast?_singleton, Option.mem_some_iff] at hd
          have hmod : p % 10 ^ t = 0 := hnil.mp rfl
          rw [← hd]
          intro hz
          rw [hz, hmod, mul_zero, add_zero] at hdm
          exact hp hdm.symm
        | cons x xs =>
          rw [List.getLast?_cons_cons] at hd
          exact hlast d hd
      · constructor
        · intro h
          cases h
        · intro h
          exact absurd h hp
    · -- fewer than four decimal digits are left
      have hs0 : s ≠ 0 := by
        rintro rfl
        rw [pow_zero] at h1
        omega
      have hidx : DEC_DIGITS - (s : ℤ) = ((4 - s : ℕ) : ℤ) := by
        simp only [DEC_DIGITS]
        omega
      have hpow : (10 : ℤ) ^ s * 10 ^ (4 - s) = 10000 := by
        rw [← pow_add, show s + (4 - s) = 4 by omega]
        norm_num
      have hp10 : (0 : ℤ) < 10 ^ (4 - s) := by positivity
      refine ⟨[p * 10 ^ (4 - s)], ?_, ?_, ?_, ?_, ?_⟩
      · rw [postLoop, if_neg hp, if_neg (by simp only [DEC_DIGITS]; omega), hidx,
          scaleMultipler_eq (by omega), pure_bind]
      · refine Radix.digits_cons.mpr ⟨⟨by positivity, ?_⟩, Radix.Digits.nil⟩
        calc p * 10 ^ (4 - s) < 10 ^ s * 10 ^ (4 - s) := mul_lt_mul_of_pos_right h1 hp10
          _ = NBASE := hpow
      · rw [Radix.value_cons, List.length_singleton, List.length_nil, Radix.value_nil, pow_one, ← hpow]
        ring
      · intro d hd
        rw [List.getLast?_singleton, Option.mem_some_iff] at hd
        rw [← hd]
        exact mul_ne_zero hp hp10.ne'
      · constructor
        · intro h
          cases h
        · intro h
          exact absurd h hp

/-- A fraction that starts with zeros has them counted off its weight. -/
lemma postWeight_eq {ds : List ℤ} (hne : ∃ d ∈ ds, d ≠ 0) (w : ℤ) :
    (postWeight w ds).2 = Radix.lstrip ds ∧
    (postWeight w ds).1 = w - 1 - (ds.length - (Radix.lstrip ds).length) := by
  induction ds generalizing w with
  | nil =>
    obtain ⟨d, hd, _⟩ := hne
    cases hd
  | cons x ds ih =>
    by_cases hx : x = 0
    · have hne' : ∃ d ∈ ds, d ≠ 0 := by
        obtain ⟨d, hd, h0⟩ := hne
        rcases List.mem_cons.mp hd with rfl | hd
        · exact absurd hx h0
        · exact ⟨d, hd, h0⟩
      obtain ⟨h1, h2⟩ := ih hne' (w - 1)
      rw [postWeight, if_neg (not_not.mpr hx), hx, Radix.lstrip_cons_zero]
      refine ⟨h1, ?_⟩
      rw [h2, List.length_cons]
      push_cast
      ring
    · rw [postWeight, if_pos hx, Radix.lstrip_cons_ne hx]
      exact ⟨rfl, by ring⟩

/-- The one signed operation of the conversion: the sign change of the least value of the type wraps. -/
def noteMin (width : ℕ) (data : ℤ) : Run Unit :=
  if data = -2 ^ (width - 1) then set true else pure ()

variable {width : ℕ} {data : ℤ}

/-- Read as unsigned, the negated value is the absolute value, also when the sign change wrapped. -/
lemma unsignedData_eq (hw : 0 < width) (h : InRange width data) :
    unsignedData width data = (noteMin width data >>= fun _ => pure |data|) := by
  obtain ⟨h1, h2⟩ := h
  have hpow : (2 : ℤ) ^ width = 2 * 2 ^ (width - 1) := by
    rw [← pow_succ', show width - 1 + 1 = width by omega]
  have hp : (0 : ℤ) < 2 ^ (width - 1) := by positivity
  unfold unsignedData
  by_cases hneg : data < 0
  · rw [if_pos hneg, abs_of_neg hneg]
    by_cases hmin : data = -2 ^ (width - 1)
    · have hwrap : wrap width (-data) % 2 ^ width = -data := by
        rw [wrap, show (2 : ℤ) ^ width = ((2 ^ width : ℕ) : ℤ) by push_cast; rfl, Int.bmod_emod,
          hmin, neg_neg]
        apply Int.emod_eq_of_lt hp.le
        push_cast
        linarith
      have hout : ¬ InRange width (-data) := by
        intro hr
        have := hr.2
        rw [hmin, neg_neg] at this
        exact lt_irrefl _ this
      rw [noteMin, if_pos hmin, signed, if_neg hout, map_bind, map_pure, hwrap]
    · have hlt : -data < 2 ^ (width - 1) := by
        have : -2 ^ (width - 1) < data := lt_of_le_of_ne h1 (Ne.symm hmin)
        linarith
      have hin : InRange width (-data) := ⟨by linarith, hlt⟩
      rw [noteMin, if_neg hmin, pure_bind, signed_of_inRange hin, map_pure,
        Int.emod_eq_of_lt (by linarith) (by linarith)]
  · have hmin : data ≠ -2 ^ (width - 1) := by
      intro heq
      rw [heq] at hneg
      exact hneg (by linarith)
    rw [if_neg hneg, noteMin, if_neg hmin, pure_bind, map_pure, abs_of_nonneg (not_lt.mp hneg),
      Int.emod_eq_of_lt (not_lt.mp hneg) (by linarith)]

/-- What a plain value needs to denote `u / 10 ^ s` for a positive integer `u`. -/
lemma normalized_of_value {v : NumericVar} {u : ℤ} (hu : u ≠ 0) (hds : Radix.Digits NBASE v.digits)
    (hhead : ∀ d ∈ v.digits.head?, d ≠ 0) (hlast : ∀ d ∈ v.digits.getLast?, d ≠ 0)
    (hval : v.absVal = u / 10 ^ v.dscale) : v.Normalized where
  digits := hds
  head := hhead
  last := hlast
  zero := by
    intro hnil
    rw [absVal_of_digits_nil hnil, eq_comm, div_eq_zero_iff] at hval
    rcases hval with h | h
    · exact absurd (by exact_mod_cast h) hu
    · exact absurd h (by positivity)
  dscale := ⟨u, hval⟩

/-- The digits of an integer with `s` decimal places, written as the digits before and after the point:
the numeric that is made of them denotes it and has no zero digit at either end. -/
lemma assembled_value (sign : NumericSign) {s : ℕ} {u : ℤ} {pre post : List ℤ} (hu : u ≠ 0)
    (hpre : Radix.Digits NBASE pre) (hpost : Radix.Digits NBASE post)
    (hprev : Radix.value NBASE pre = u / 10 ^ s) (hpostv : u % 10 ^ s * 10000 ^ post.length
      = Radix.value NBASE post * 10 ^ s)
    (hhead : ∀ d ∈ pre.head?, d ≠ 0) (hlast : ∀ d ∈ post.getLast?, d ≠ 0) :
    ∀ v : NumericVar, v = (if pre ≠ [] then
        if post ≠ [] then ⟨sign, pre.length - 1, s, pre ++ post⟩
        else ⟨sign, pre.length - 1, s, Radix.rstrip pre⟩
      else ⟨sign, (postWeight 0 post).1, s, (postWeight 0 post).2⟩) →
    v.Normalized ∧ v.absVal = u / 10 ^ s ∧ v.dscale = s ∧ v.sign = sign := by
  intro v hv
  have h10 : (10 : ℚ) ^ s ≠ 0 := by positivity
  have hk : (10000 : ℚ) ^ post.length ≠ 0 := by positivity
  have hdm : (u : ℚ) = 10 ^ s * (u / 10 ^ s : ℤ) + (u % 10 ^ s : ℤ) := by
    exact_mod_cast (Int.mul_ediv_add_emod u (10 ^ s)).symm
  have hpq : ((u % 10 ^ s : ℤ) : ℚ) * 10000 ^ post.length = Radix.value NBASE post * 10 ^ s := by
    exact_mod_cast hpostv
  by_cases h1 : pre = []
  · -- a pure fraction: leading zero digits are dropped
    rw [if_neg (not_not.mpr h1)] at hv
    have hq0 : u / 10 ^ s = 0 := by rw [← hprev, h1]; rfl
    have hpostne : post ≠ [] := by
      rintro rfl
      simp only [List.length_nil, pow_zero, mul_one, Radix.value_nil, zero_mul] at hpostv
      rw [hq0, hpostv] at hdm
      apply hu
      exact_mod_cast (by simpa using hdm)
    have hex : ∃ d ∈ post, d ≠ 0 :=
      ⟨post.getLast hpostne, List.getLast_mem hpostne,
        hlast _ (List.getLast?_eq_getLast_of_ne_nil hpostne)⟩
    obtain ⟨hw2, hw1⟩ := postWeight_eq hex 0
    rw [hw1, hw2] at hv
    have hle : (Radix.lstrip post).length ≤ post.length := (Radix.lstrip_suffix post).length_le
    have habs : v.absVal = u / 10 ^ s := by
      have hexp : v.ascale = post.length := by
        rw [hv]
        simp only [NumericVar.ascale, NumericVar.ndigits]
        omega
      have hman : v.mantissa = Radix.value NBASE post := by
        rw [hv]
        exact Radix.value_lstrip post
      rw [NumericVar.absVal, hexp, hman, zpow_neg, zpow_natCast, ← div_eq_mul_inv,
        div_eq_div_iff hk h10, ← hpq, hdm, hq0]
      simp
    refine ⟨normalized_of_value hu ?_ ?_ ?_ (by rw [habs, hv]), habs, by rw [hv], by rw [hv]⟩
    · rw [hv]
      exact hpost.lstrip
    · rw [hv]
      exact Radix.head_lstrip
    · rw [hv]
      exact fun d hd => hlast d (Radix.getLast?_lstrip hd)
  rw [if_pos h1] at hv
  by_cases h2 : post = []
  · -- an integer: trailing zero digits are dropped
    rw [if_neg (not_not.mpr h2)] at hv
    have hz : u % 10 ^ s = 0 := by
      rw [h2] at hpostv
      simpa using hpostv
    have hle : (Radix.rstrip pre).length ≤ pre.length := (Radix.rstrip_isPre pre).length_le
    have habs : v.absVal = u / 10 ^ s := by
      have hexp : -v.ascale = ((pre.length - (Radix.rstrip pre).length : ℕ) : ℤ) := by
        rw [hv]
        simp only [NumericVar.ascale, NumericVar.ndigits]
        omega
      have hman : ((u / 10 ^ s : ℤ) : ℚ) = (v.mantissa : ℚ)
          * 10000 ^ (pre.length - (Radix.rstrip pre).length) := by
        rw [hv, ← hprev, Radix.value_rstrip pre]
        push_cast
        rfl
      rw [NumericVar.absVal, hexp, zpow_natCast, ← hman, eq_div_iff h10, hdm, hz]
      push_cast
      ring
    refine ⟨normalized_of_value hu ?_ ?_ ?_ (by rw [habs, hv]), habs, by rw [hv], by rw [hv]⟩
    · rw [hv]
      exact hpre.rstrip
    · rw [hv]
      exact fun d hd => hhead d (Radix.head?_rstrip hd)
    · rw [hv]
      exact Radix.getLast_rstrip
  · rw [if_pos h2] at hv
    have habs : v.absVal = u / 10 ^ s := by
      have hexp : v.ascale = post.length := by
        rw [hv]
        simp only [NumericVar.ascale, NumericVar.ndigits, List.length_append]
        omega
      have hman : (v.mantissa : ℚ) = (u / 10 ^ s : ℤ) * 10000 ^ post.length + Radix.value NBASE post := by
        rw [hv]
        simp only [NumericVar.mantissa, Radix.value_append, hprev]
        push_cast
        rfl
      rw [NumericVar.absVal, hexp, hman, zpow_neg, zpow_natCast, ← div_eq_mul_inv,
        div_eq_div_iff hk h10, add_mul, ← hpq, hdm]
      ring
    refine ⟨normalized_of_value hu ?_ ?_ ?_ (by rw [habs, hv]), habs, by rw [hv], by rw [hv]⟩
    · rw [hv]
      exact Radix.digits_append.mpr ⟨hpre, hpost⟩
    · rw [hv]
      intro d hd
      obtain ⟨x, xs, hx⟩ := List.exists_cons_of_ne_nil h1
      rw [hx, List.cons_append, List.head?_cons] at hd
      exact hhead d (by rw [hx]; exact hd)
    · rw [hv]
      intro d hd
      rw [List.getLast?_append_of_ne_nil _ h2] at hd
      exact hlast d hd

/-- The common conversion: enough room, tables long enough, and the value comes out. -/
lemma convertIntToNumeric_eq {room top : ℕ} {power : ℤ → Run ℤ} (hw : 0 < width)
    (hpower : ∀ i : ℕ, i + 4 ≤ top → power i = pure (10 ^ i)) (htop : top ≤ 38) (hroom : top ≤ 4 * room)
    (hbuf : (2 : ℤ) ^ (width - 1) < 10000 ^ room) (hdata : InRange width data) {scale : ℕ} (hs : scale ≤ top) :
    ∃ v : NumericVar, convertIntToNumeric width room power data scale
        = (noteMin width data >>= fun _ => pure v) ∧
      v.Normalized ∧ v.toRat = data / 10 ^ scale ∧ v.dscale = scale := by
  have hm : (0 : ℤ) < 10 ^ scale := by positivity
  unfold convertIntToNumeric
  rw [unsignedData_eq hw hdata, bind_assoc]
  simp only [pure_bind]
  by_cases h0 : data = 0
  · refine ⟨⟨.pos, 0, scale, []⟩, by rw [h0, abs_zero, if_pos rfl], ?_, ?_, rfl⟩
    · refine ⟨Radix.Digits.nil, by simp, by simp, fun _ => ⟨rfl, rfl⟩, 0, ?_⟩
      rw [absVal_of_digits_nil rfl]
      simp
    · rw [toRat_of_digits_nil rfl, h0]
      simp
  have hne : |data| ≠ 0 := abs_ne_zero.mpr h0
  have hle : |data| / 10 ^ scale ≤ |data| := Int.ediv_le_self _ (abs_nonneg _)
  have hlt : |data| / 10 ^ scale < 10000 ^ room :=
    hle.trans_lt (hdata.abs_le_pow.trans_lt hbuf)
  obtain ⟨pre, hprerun, hpre, hprev, hhead, hprenil⟩ :=
    preLoop_eq room _ [] (Int.ediv_nonneg (abs_nonneg data) hm.le) hlt
  obtain ⟨post, hpostrun, hpost, hpostv, hlast, hpostnil⟩ :=
    postLoop_eq hpower room scale _ hs (by omega) (Int.emod_nonneg |data| hm.ne')
      (Int.emod_lt_of_pos _ hm)
  rw [List.append_nil] at hprerun
  obtain ⟨hnorm, hval, hds, hsign⟩ := assembled_value (if data < 0 then .neg else .pos) hne hpre
    hpost hprev hpostv hhead hlast _ rfl
  refine ⟨_, ?_, hnorm, ?_, hds⟩
  · congr 1
    funext _
    rw [if_neg hne, getScaleMultiplier_eq (by omega), pure_bind, hprerun, pure_bind, hpostrun, pure_bind]
    split
    · split <;> rfl
    · rfl
  · rw [NumericVar.toRat, hval, hsign]
    by_cases hneg : data < 0
    · rw [if_pos hneg, abs_of_neg hneg]
      simp only [NumericSign.toInt]
      push_cast
      ring
    · rw [if_neg hneg, abs_of_nonneg (not_lt.mp hneg)]
      simp only [NumericSign.toInt]
      push_cast
      ring

lemma convertInt64ToNumeric_eq (hdata : InRange 64 data) {s : ℕ} (hs : s ≤ 19) :
    ∃ v : NumericVar, convertInt64ToNumeric data s = (noteMin 64 data >>= fun _ => pure v) ∧
      v.Normalized ∧ v.toRat = data / 10 ^ s ∧ v.dscale = s :=
  convertIntToNumeric_eq (by norm_num) (fun _ hi => scaleMultipler_eq (by omega)) (by norm_num)
    (by norm_num) (by norm_num) hdata hs

lemma convertInt128ToNumeric_eq (hdata : InRange 128 data) {s : ℕ} (hs : s ≤ 38) :
    ∃ v : NumericVar, convertInt128ToNumeric data s = (noteMin 128 data >>= fun _ => pure v) ∧
      v.Normalized ∧ v.toRat = data / 10 ^ s ∧ v.dscale = s :=
  convertIntToNumeric_eq (by norm_num) (fun _ hi => getScaleMultiplier_eq (by omega)) (by norm_num)
    (by norm_num) (by norm_num) hdata hs

/-! ## The round trip -/

lemma noteMin_of_ne (h : data ≠ -2 ^ (width - 1)) : noteMin width data = pure () := if_neg h

/-- A run of `noteMin` sets the flag or leaves it. -/
lemma noteMin_run (width : ℕ) (data : ℤ) (v : NumericVar) :
    ∃ flag, (noteMin width data >>= fun _ => pure v).run false = some (v, flag) := by
  unfold noteMin
  split
  · exact ⟨true, rfl⟩
  · exact ⟨false, rfl⟩

/-- Going back to the plain format from the scale and the value of a plain numeric finds that numeric. -/
lemma makeNumericNormal_of_fast {v : NumericVar} (hv : v.Normalized) {res : Numeric} {r : ℤ}
    (hval : v.toRat = r / 10 ^ v.dscale)
    (hres : (res = .bi64 r v.dscale ∧ |r| < 10 ^ 18 ∧ v.dscale ≤ 18) ∨
      (res = .bi128 r v.dscale ∧ |r| < 10 ^ 38 ∧ v.dscale ≤ 38)) :
    res.Valid ∧ makeNumericNormal res = pure v := by
  rcases hres with ⟨rfl, hr, hs⟩ | ⟨rfl, hr, hs⟩
  · have hlt := hr.trans (by norm_num : (10 : ℤ) ^ 18 < 2 ^ 63)
    have hin : InRange 64 r := inRange_of_abs_lt hlt
    obtain ⟨w, hrun, hw, hwv, hws⟩ := convertInt64ToNumeric_eq hin (s := v.dscale) (by omega)
    have heq : w = v := hw.ext hv (by rw [hwv, hval]) hws
    have hne : r ≠ -2 ^ (64 - 1) := by
      rintro rfl
      norm_num at hlt
    refine ⟨⟨hin, by norm_num; omega⟩, ?_⟩
    rw [makeNumericNormal, hrun, noteMin_of_ne hne, pure_bind, heq]
  · have hlt := hr.trans (by norm_num : (10 : ℤ) ^ 38 < 2 ^ 127)
    have hin : InRange 128 r := inRange_of_abs_lt hlt
    obtain ⟨w, hrun, hw, hwv, hws⟩ := convertInt128ToNumeric_eq hin (s := v.dscale) hs
    have heq : w = v := hw.ext hv (by rw [hwv, hval]) hws
    have hne : r ≠ -2 ^ (128 - 1) := by
      rintro rfl
      norm_num at hlt
    refine ⟨⟨hin, hs⟩, ?_⟩
    rw [makeNumericNormal, hrun, noteMin_of_ne hne, pure_bind, heq]

/-- The conversions between the plain format and big integers lose nothing. A normalized plain numeric
stays as it is or becomes a big integer of its display scale and its value, without a power-of-ten index
outside its table, and going back returns it field for field; every `int64` with a scale up to 19 and
every `int128` with a scale up to 38 becomes a normalized plain numeric of the same value and scale
within the digit buffers. A run that left a table or a buffer would be `none`. -/
theorem numericFast_roundTrip : (∀ (enableFastNumeric : Bool) (v : NumericVar), v.Normalized →
      ∃ res, (tryConvertNumericNormalToFast enableFastNumeric (.plain v)).run false = some (res, false) ∧
        (res = .plain v ∨
          (res.Valid ∧ (∃ r, res = .bi64 r v.dscale ∨ res = .bi128 r v.dscale) ∧
            res.toRat? = some v.toRat ∧ (makeNumericNormal res).run false = some (v, false)))) ∧
    (∀ (data : ℤ) (scale : ℕ), InRange 64 data → scale ≤ MAXINT64DIGIT →
      ∃ v flag, (convertInt64ToNumeric data scale).run false = some (v, flag) ∧ v.Normalized ∧
        v.toRat = data / 10 ^ scale ∧ v.dscale = scale) ∧
    (∀ (data : ℤ) (scale : ℕ), InRange 128 data → scale ≤ MAXINT128DIGIT →
      ∃ v flag, (convertInt128ToNumeric data scale).run false = some (v, flag) ∧ v.Normalized ∧
        v.toRat = data / 10 ^ scale ∧ v.dscale = scale) := by
  refine ⟨?_, ?_, ?_⟩
  · intro enable v hv
    rcases tryConvertNumericNormalToFast_eq hv enable with h | ⟨r, hval, ⟨hr, hs, h⟩ | ⟨hr, hs, h⟩⟩
    · exact ⟨.plain v, by rw [h]; rfl, .inl rfl⟩
    · obtain ⟨hvalid, hback⟩ := makeNumericNormal_of_fast hv hval (.inl ⟨rfl, hr, hs⟩)
      exact ⟨_, by rw [h]; rfl, .inr ⟨hvalid, ⟨r, .inl rfl⟩, by rw [Numeric.toRat?, hval],
        by rw [hback]; rfl⟩⟩
    · obtain ⟨hvalid, hback⟩ := makeNumericNormal_of_fast hv hval (.inr ⟨rfl, hr, hs⟩)
      exact ⟨_, by rw [h]; rfl, .inr ⟨hvalid, ⟨r, .inr rfl⟩, by rw [Numeric.toRat?, hval],
        by rw [hback]; rfl⟩⟩
  · intro data scale hdata hs
    obtain ⟨v, hrun, hv, hval, hscale⟩ := convertInt64ToNumeric_eq hdata hs
    obtain ⟨flag, hflag⟩ := noteMin_run 64 data v
    exact ⟨v, flag, by rw [hrun, hflag], hv, hval, hscale⟩
  · intro data scale hdata hs
    obtain ⟨v, hrun, hv, hval, hscale⟩ := convertInt128ToNumeric_eq hdata hs
    obtain ⟨flag, hflag⟩ := noteMin_run 128 data v
    exact ⟨v, flag, by rw [hrun, hflag], hv, hval, hscale⟩

/-- `12.05` with five digits after the point, and the least `int64`. -/
theorem numericFast_roundTrip_cases :
    (tryConvertNumericNormalToFast true (.plain ⟨.pos, 0, 5, [12, 500]⟩)).run false
        = some (.bi64 1205000 5, false) ∧
    (∃ res, (tryConvertNumericNormalToFast true (.plain ⟨.pos, 0, 5, [12, 500]⟩)).run false
        = some (res, false)) ∧
    ∃ v flag, (convertInt64ToNumeric (-2 ^ 63) 19).run false = some (v, flag) ∧ v.Normalized := by
  have hnorm : (⟨.pos, 0, 5, [12, 500]⟩ : NumericVar).Normalized := by
    refine ⟨?_, by decide, by decide, by simp, 1205000, ?_⟩
    · decide
    · norm_num [NumericVar.absVal, NumericVar.mantissa, NumericVar.ascale, NumericVar.ndigits,
        Radix.value]
  refine ⟨by decide, ?_, ?_⟩
  · obtain ⟨res, hres, _⟩ := numericFast_roundTrip.1 true _ hnorm
    exact ⟨res, hres⟩
  · obtain ⟨v, flag, h1, h2, _⟩ := numericFast_roundTrip.2.1 (-2 ^ 63) 19 (by decide) (by decide)
    exact ⟨v, flag, h1, h2⟩

end GaussKernel.Adt
