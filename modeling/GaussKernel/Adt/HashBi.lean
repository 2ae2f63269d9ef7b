import GaussKernel.Adt.Convert

/-!
# Hashing numerics in any format

`hashBi` has one routine for each format. A big integer drops its trailing decimal zeros and hashes what
is left together with the scale; a plain numeric is first turned into an `int128` on one of three ways
(all of its display scale, the part before the point, or its digits up to the last decimal digit that is
not zero), and is hashed digit by digit when it does not fit. All of them agree because the integer and
the scale without trailing zeros are determined by the number alone.
-/

namespace GaussKernel.Adt

/-! ## Hash functions -/

def rot (x : BitVec 32) (k : ℕ) : BitVec 32 := (x <<< k) ||| (x >>> (32 - k))

def hashUint32 (k : BitVec 32) : BitVec 32 :=
  let a := (0x9e3779b9#32 + 4#32 + 3923095#32) + k
  let b := 0x9e3779b9#32 + 4#32 + 3923095#32
  let c := 0x9e3779b9#32 + 4#32 + 3923095#32
  let c := (c ^^^ b) - rot b 14
  let a := (a ^^^ c) - rot c 11
  let b := (b ^^^ a) - rot a 25
  let c := (c ^^^ b) - rot b 16
  let a := (a ^^^ c) - rot c 4
  let b := (b ^^^ a) - rot a 14
  (c ^^^ b) - rot b 24

/-- The loop both integer hashes start with: trailing decimal zeros and the scale go together. -/
def normalizeNum : ℕ → ℤ → ℤ × ℕ
  | 0, num => (num, 0)
  | scale + 1, num => if num.tmod 10 = 0 then normalizeNum scale (num.tdiv 10) else (num, scale + 1)

def int64HashBi (num : ℤ) (scale : ℕ) : BitVec 32 :=
  if num = 0 then hashUint32 0 ^^^ 0
  else
    let (num, scale) := normalizeNum scale num
    let lohalf := BitVec.ofInt 32 num
    let hihalf := (BitVec.ofInt 64 num >>> 32).truncate 32
    let lohalf := lohalf ^^^ if 0 ≤ num then hihalf else ~~~hihalf
    hashUint32 lohalf ^^^ BitVec.ofNat 32 scale

def int128HashBi (num : ℤ) (scale : ℕ) : BitVec 32 :=
  if num = 0 then hashUint32 0 ^^^ 0
  else
    let (num, scale) := normalizeNum scale num
    if num = toInt64 num then int64HashBi num scale
    else
      let lohalf64 := BitVec.ofInt 64 num
      let hihalf64 := (BitVec.ofInt 128 num >>> 64).truncate 64
      let lohalf64 := lohalf64 ^^^ if 0 ≤ num then hihalf64 else ~~~hihalf64
      let lohalf32 := lohalf64.truncate 32
      let hihalf32 := (lohalf64 >>> 32).truncate 32
      let lohalf32 := lohalf32 ^^^ if 0 ≤ num then hihalf32 else ~~~hihalf32
      hashUint32 lohalf32 ^^^ BitVec.ofNat 32 scale

/-- `hash_numeric` over a byte-string hash: digits without zeros at either end, and the weight of the
first of them. -/
def hashNumeric (hashAny : List ℤ → BitVec 32) (v : NumericVar) : BitVec 32 :=
  let stripped := Radix.lstrip v.digits
  if stripped = [] then -1
  else hashAny (Radix.rstrip stripped)
    ^^^ BitVec.ofInt 32 (v.weight - (v.digits.length - stripped.length))

/-! ## Plain numerics -/

/-- Step 2, for a number without a fraction; `none` when `__builtin_mul_overflow` or
`__builtin_add_overflow` says so. -/
def preData (numSign : ℤ) : ℤ → List ℤ → ℤ → Run (Option ℤ)
  | _, [], data => pure (some data)
  | place, d :: ds, data => do
    let m ← getScaleMultiplier (place * DEC_DIGITS)
    if InRange 128 (numSign * d * m) then
      if InRange 128 (data + numSign * d * m) then preData numSign (place - 1) ds (data + numSign * d * m)
      else pure none
    else pure none

/-- One round of step 4. -/
def appendDigit (numSign base : ℤ) (data d : ℤ) : Option ℤ :=
  if InRange 128 (data * base) then
    if InRange 128 (d * numSign + data * base) then some (d * numSign + data * base) else none
  else none

/-- Step 3: the last digit without its trailing zeros, the power of ten it is worth and the number of
zeros that went. -/
def trimDigit (d : ℤ) : ℤ × ℤ × ℕ :=
  if d % 1000 = 0 then (d / 1000, 10, 3)
  else if d % 100 = 0 then (d / 100, 100, 2)
  else if d % 10 = 0 then (d / 10, 1000, 1)
  else (d, 10000, 0)

section Hash

variable (callHashNumeric : NumericVar → BitVec 32)

def numericHashBi (v : NumericVar) : Run (BitVec 32) :=
  if v.ndigits = 0 then pure (hashUint32 0 ^^^ 0)
  else if 10 ≤ v.weight then pure (callHashNumeric v)
  else if (0 ≤ v.weight ∧ v.weight * DEC_DIGITS + DEC_DIGITS + v.dscale ≤ (MAXINT128DIGIT : ℤ)) ∨
      (v.weight < 0 ∧ v.dscale ≤ MAXINT128DIGIT) then do
    let data ← convertShortNumericToInt128ByScale v v.dscale
    pure (int128HashBi data v.dscale)
  else if 0 ≤ v.weight ∧ (v.ndigits : ℤ) ≤ v.weight + 1 then do
    let data ← preData v.sign.toInt v.weight v.digits 0
    match data with
    | some data => pure (int128HashBi data 0)
    | none => pure (callHashNumeric v)
  else
    let (lastDigit, lastBase, zeros) := trimDigit (v.digits.getLastD 0)
    let dscale : ℤ := (v.ndigits - v.weight - 1) * DEC_DIGITS - zeros
    match v.digits.dropLast.foldlM (appendDigit v.sign.toInt NBASE) 0 with
    | none => pure (callHashNumeric v)
    | some data =>
      match appendDigit v.sign.toInt lastBase data lastDigit with
      | none => pure (callHashNumeric v)
      | some data => pure (int128HashBi data dscale.toNat)

def hashBi : Numeric → Run (BitVec 32)
  | .nan => pure 0
  | .bi64 value scale => pure (int64HashBi value scale)
  | .bi128 value scale => pure (int128HashBi value scale)
  | .plain v => numericHashBi callHashNumeric v

end Hash

/-! ## The integer and the scale of a number -/

/-- The scale cannot be lowered any more. -/
def Canonical (m : ℤ) (s : ℕ) : Prop := s = 0 ∨ m % 10 ≠ 0

lemma normalizeNum_eq : ∀ (scale : ℕ) (num : ℤ), ∃ k, num = (normalizeNum scale num).1 * 10 ^ k ∧
    scale = (normalizeNum scale num).2 + k ∧ Canonical (normalizeNum scale num).1 (normalizeNum scale num).2 := by
  intro scale
  induction scale with
  | zero =>
    intro num
    exact ⟨0, by simp [normalizeNum], by simp [normalizeNum], .inl rfl⟩
  | succ scale ih =>
    intro num
    by_cases h : num.tmod 10 = 0
    · obtain ⟨x, rfl⟩ := Int.dvd_of_tmod_eq_zero h
      have hd : (10 * x).tdiv 10 = x := Int.mul_tdiv_cancel_left x (by norm_num)
      obtain ⟨k, hk, hs, hc⟩ := ih x
      rw [normalizeNum, if_pos h, hd]
      refine ⟨k + 1, ?_, by omega, hc⟩
      rw [pow_succ, ← mul_assoc, ← hk]
      ring
    · rw [normalizeNum, if_neg h]
      refine ⟨0, by simp, by simp, .inr ?_⟩
      intro hmod
      exact h (Int.tmod_eq_zero_of_dvd (Int.dvd_of_emod_eq_zero hmod))

/-- Numbers with one value have one integer and one scale without trailing zeros. -/
lemma Canonical.unique {m n : ℤ} {s t : ℕ} (hm : Canonical m s) (hn : Canonical n t)
    (h : (m : ℚ) / 10 ^ s = n / 10 ^ t) : m = n ∧ s = t := by
  -- the larger of the two scales leaves a trailing zero
  have key : ∀ {m n : ℤ} {s t : ℕ}, Canonical n t → (m : ℚ) / 10 ^ s = n / 10 ^ t → ¬ s < t := by
    intro m n s t hn h hlt
    obtain ⟨k, rfl⟩ : ∃ k, t = s + (k + 1) := ⟨t - s - 1, by omega⟩
    rw [div_eq_div_iff (by positivity) (by positivity), pow_add, mul_left_comm, mul_comm (n : ℚ)] at h
    have h' : (m : ℚ) * 10 ^ (k + 1) = n := mul_left_cancel₀ (by positivity) h
    have hz : m * 10 ^ (k + 1) = n := by exact_mod_cast h'
    rcases hn with hn | hn
    · omega
    · apply hn
      rw [← hz, pow_succ, ← mul_assoc]
      exact Int.mul_emod_left _ _
  have hst : s = t := le_antisymm (not_lt.mp (key hm h.symm)) (not_lt.mp (key hn h))
  subst hst
  refine ⟨?_, rfl⟩
  have hp : (10 : ℚ) ^ s ≠ 0 := by positivity
  rw [div_left_inj' hp] at h
  exact_mod_cast h

lemma Canonical.normalizeNum_eq_self {m : ℤ} {s : ℕ} (h : Canonical m s) :
    normalizeNum s m = (m, s) := by
  cases s with
  | zero => rfl
  | succ s =>
    rcases h with h | h
    · omega
    · rw [normalizeNum, if_neg]
      intro hmod
      exact h (Int.emod_eq_zero_of_dvd (Int.dvd_of_tmod_eq_zero hmod))

lemma normalizeNum_value (scale : ℕ) (num : ℤ) :
    ((normalizeNum scale num).1 : ℚ) / 10 ^ (normalizeNum scale num).2 = num / 10 ^ scale := by
  obtain ⟨k, hk, hs, _⟩ := normalizeNum_eq scale num
  have hq : (num : ℚ) = (normalizeNum scale num).1 * 10 ^ k := by exact_mod_cast hk
  rw [hq, div_eq_div_iff (by positivity) (by positivity)]
  conv_rhs => rw [mul_assoc, ← pow_add, add_comm k, ← hs]

variable {scale : ℕ}

/-- The loop finds the canonical pair of its value. -/
lemma normalizeNum_of_value {m num : ℤ} {s : ℕ} (hc : Canonical m s) (h : (num : ℚ) / 10 ^ scale = m / 10 ^ s) :
    normalizeNum scale num = (m, s) ∧ ∃ k, num = m * 10 ^ k := by
  obtain ⟨k, hk, _, hc'⟩ := normalizeNum_eq scale num
  obtain ⟨h1, h2⟩ := hc'.unique hc ((normalizeNum_value scale num).trans h)
  refine ⟨Prod.ext h1 h2, k, ?_⟩
  rw [← h1]
  exact hk

lemma InRange.of_mul_pow {w k : ℕ} {m : ℤ} (h : InRange w (m * 10 ^ k)) : InRange w m := by
  have hp : (1 : ℤ) ≤ 10 ^ k := one_le_pow₀ (by norm_num)
  rcases le_or_gt 0 m with hm | hm
  · have h1 : m ≤ m * 10 ^ k := le_mul_of_one_le_right hm hp
    have hpos : (0 : ℤ) < 2 ^ (w - 1) := by positivity
    exact ⟨by linarith, h1.trans_lt h.2⟩
  · have h1 : m * 10 ^ k ≤ m := by nlinarith
    have hpos : (0 : ℤ) < 2 ^ (w - 1) := by positivity
    exact ⟨h.1.trans h1, by linarith⟩

/-- The hash of a big integer is the hash of its canonical pair. -/
lemma int128HashBi_of_value {m num : ℤ} {s : ℕ} (hc : Canonical m s) (h : (num : ℚ) / 10 ^ scale = m / 10 ^ s) :
    int128HashBi num scale = int128HashBi m s := by
  obtain ⟨hn, k, hk⟩ := normalizeNum_of_value hc h
  have hz : num = 0 ↔ m = 0 := by
    rw [hk, mul_eq_zero]
    simp
  unfold int128HashBi
  rw [hn, hc.normalizeNum_eq_self]
  by_cases h0 : m = 0
  · rw [if_pos h0, if_pos (hz.mpr h0)]
  · rw [if_neg h0, if_neg (fun h => h0 (hz.mp h))]

lemma int64HashBi_of_value {m num : ℤ} {s : ℕ} (hc : Canonical m s) (h : (num : ℚ) / 10 ^ scale = m / 10 ^ s)
    (hr : InRange 64 num) : int64HashBi num scale = int128HashBi m s := by
  obtain ⟨hn, k, hk⟩ := normalizeNum_of_value hc h
  have hz : num = 0 ↔ m = 0 := by
    rw [hk, mul_eq_zero]
    simp
  have hm : InRange 64 m := InRange.of_mul_pow (hk ▸ hr)
  unfold int128HashBi
  rw [hc.normalizeNum_eq_self]
  by_cases h0 : m = 0
  · rw [if_pos h0, int64HashBi, if_pos (hz.mpr h0)]
  · rw [if_neg h0]
    dsimp only
    rw [if_pos (toInt64_of_inRange hm).symm]
    unfold int64HashBi
    rw [if_neg h0, if_neg (fun h => h0 (hz.mp h)), hn, hc.normalizeNum_eq_self]

/-! ## Overflow of the loops -/

/-- With one sign all the way, an intermediate result fits when the result does. -/
lemma InRange.of_le {sign : NumericSign} {w : ℕ} {a b : ℤ} (h : InRange w (sign.toInt * b))
    (ha : 0 ≤ a) (hab : a ≤ b) : InRange w (sign.toInt * a) := by
  have hpos : (0 : ℤ) < 2 ^ (w - 1) := by positivity
  obtain ⟨h1, h2⟩ := h
  cases sign
  · simp only [NumericSign.toInt, one_mul] at h1 h2 ⊢
    exact ⟨by linarith, by linarith⟩
  · simp only [NumericSign.toInt] at h1 h2 ⊢
    exact ⟨by linarith, by linarith⟩

/-- Step 2 gathers the number when it fits and gives up when it does not. -/
lemma preData_eq (sign : NumericSign) (e : ℕ) : ∀ (ds : List ℤ) (t : ℤ),
    Radix.Digits NBASE ds → ds.length + e ≤ 10 → 0 ≤ t → InRange 128 (sign.toInt * t) →
    preData sign.toInt ((ds.length : ℤ) + e - 1) ds (sign.toInt * t)
      = pure (if InRange 128 (sign.toInt * (t + Radix.value NBASE ds * 10000 ^ e))
          then some (sign.toInt * (t + Radix.value NBASE ds * 10000 ^ e)) else none) := by
  intro ds
  induction ds with
  | nil =>
    intro t _ _ _ ht
    simp [preData, ht]
  | cons d ds ih =>
    intro t hds hlen h0 ht
    obtain ⟨⟨hd0, _⟩, hds'⟩ := Radix.digits_cons.mp hds
    rw [List.length_cons] at hlen
    have hidx : (((d :: ds).length : ℤ) + e - 1) * DEC_DIGITS = (((ds.length + e) * 4 : ℕ) : ℤ) := by
      rw [List.length_cons]
      simp only [DEC_DIGITS]
      push_cast
      ring
    have hmul : getScaleMultiplier ((((d :: ds).length : ℤ) + e - 1) * DEC_DIGITS)
        = pure (10000 ^ (ds.length + e)) := by
      rw [hidx, getScaleMultiplier_eq (by omega), mul_comm, pow_mul]
      norm_num
    have hp : (0 : ℤ) < 10000 ^ (ds.length + e) := by positivity
    have hv := mul_nonneg (Radix.value_nonneg hds') (by positivity : (0 : ℤ) ≤ 10000 ^ e)
    have hdm := mul_nonneg hd0 hp.le
    have hT : t + Radix.value NBASE (d :: ds) * 10000 ^ e
        = t + d * 10000 ^ (ds.length + e) + Radix.value NBASE ds * 10000 ^ e := by
      rw [Radix.value_cons, pow_add]
      simp only [NBASE]
      ring
    have hsum : sign.toInt * t + sign.toInt * d * 10000 ^ (ds.length + e)
        = sign.toInt * (t + d * 10000 ^ (ds.length + e)) := by ring
    rw [preData, hmul, pure_bind, hT, mul_assoc]
    rw [mul_assoc] at hsum
    by_cases h1 : InRange 128 (sign.toInt * (d * 10000 ^ (ds.length + e)))
    · rw [if_pos h1, hsum]
      by_cases h2 : InRange 128 (sign.toInt * (t + d * 10000 ^ (ds.length + e)))
      · have hnext := ih _ hds' (by omega) (by linarith) h2
        rw [if_pos h2, show (((d :: ds).length : ℤ) + e - 1 - 1) = (ds.length : ℤ) + e - 1 by
          rw [List.length_cons]; push_cast; ring, hnext]
      · have hout : ¬ InRange 128 (sign.toInt
            * (t + d * 10000 ^ (ds.length + e) + Radix.value NBASE ds * 10000 ^ e)) :=
          fun h => h2 (h.of_le (by linarith) (by linarith))
        rw [if_neg h2, if_neg hout]
    · have hout : ¬ InRange 128 (sign.toInt
          * (t + d * 10000 ^ (ds.length + e) + Radix.value NBASE ds * 10000 ^ e)) :=
        fun h => h1 (h.of_le hdm (by linarith))
      rw [if_neg h1, if_neg hout]

lemma appendDigit_eq (sign : NumericSign) {base t d : ℤ} (hbase : 1 ≤ base) (ht : 0 ≤ t) (hd : 0 ≤ d) :
    appendDigit sign.toInt base (sign.toInt * t) d
      = if InRange 128 (sign.toInt * (t * base + d)) then some (sign.toInt * (t * base + d)) else none := by
  have hmul := mul_nonneg ht (by linarith : 0 ≤ base)
  have hsum : d * sign.toInt + sign.toInt * t * base = sign.toInt * (t * base + d) := by ring
  rw [appendDigit, hsum, mul_assoc]
  by_cases h : InRange 128 (sign.toInt * (t * base + d))
  · rw [if_pos (h.of_le hmul (by linarith)), if_pos h]
  · rw [if_neg h, ite_self]

/-- Step 4 up to the last digit. -/
lemma foldlM_appendDigit (sign : NumericSign) : ∀ (ds : List ℤ) (t : ℤ),
    Radix.Digits NBASE ds → 0 ≤ t → InRange 128 (sign.toInt * t) →
    ds.foldlM (appendDigit sign.toInt NBASE) (sign.toInt * t)
      = if InRange 128 (sign.toInt * (t * 10000 ^ ds.length + Radix.value NBASE ds))
          then some (sign.toInt * (t * 10000 ^ ds.length + Radix.value NBASE ds)) else none := by
  intro ds
  induction ds with
  | nil =>
    intro t _ _ ht
    simp [ht]
  | cons d ds ih =>
    intro t hds h0 ht
    obtain ⟨⟨hd0, _⟩, hds'⟩ := Radix.digits_cons.mp hds
    have hv := Radix.value_nonneg hds'
    have hp : (1 : ℤ) ≤ 10000 ^ ds.length := one_le_pow₀ (by norm_num)
    have hnext : 0 ≤ t * NBASE + d := by
      simp only [NBASE]
      linarith
    have hT : t * 10000 ^ (d :: ds).length + Radix.value NBASE (d :: ds)
        = (t * NBASE + d) * 10000 ^ ds.length + Radix.value NBASE ds := by
      rw [Radix.value_cons, List.length_cons, pow_succ]
      simp only [NBASE]
      ring
    rw [List.foldlM_cons, appendDigit_eq sign (by norm_num) h0 hd0, hT]
    by_cases h1 : InRange 128 (sign.toInt * (t * NBASE + d))
    · rw [if_pos h1]
      exact ih _ hds' hnext h1
    · have hout : ¬ InRange 128 (sign.toInt
          * ((t * NBASE + d) * 10000 ^ ds.length + Radix.value NBASE ds)) := by
        intro h
        refine h1 (h.of_le hnext ?_)
        have := le_mul_of_one_le_right hnext hp
        linarith
      rw [if_neg h1, if_neg hout]
      rfl

/-- The trimmed digit ends in no zero, and with its zeros it is the digit. -/
lemma trimDigit_eq {d : ℤ} (h0 : 0 < d) (h1 : d < 10000) :
    d = (trimDigit d).1 * 10 ^ (trimDigit d).2.2 ∧ (trimDigit d).2.2 ≤ 3 ∧
    (trimDigit d).2.1 * 10 ^ (trimDigit d).2.2 = 10000 ∧ (trimDigit d).1 % 10 ≠ 0 ∧
    (trimDigit d).2.1 % 10 = 0 ∧ 1 ≤ (trimDigit d).2.1 ∧ 0 ≤ (trimDigit d).1 := by
  unfold trimDigit
  split
  · norm_num
    omega
  · split
    · norm_num
      omega
    · split
      · norm_num
        omega
      · norm_num
        omega

/-! ## Equal numbers, equal hashes -/

section Equality

variable {v : NumericVar} {m : ℤ} {s : ℕ}

/-- A weight of 10 or more is beyond an `int128`. -/
lemma not_inRange_of_weight (hv : v.Normalized) (hne : v.digits ≠ []) (hw : 10 ≤ v.weight)
    (hval : v.toRat = m / 10 ^ s) : ¬ InRange 128 m := by
  intro hr
  have h1 : (10000 : ℚ) ^ (10 : ℤ) ≤ 10000 ^ v.weight := zpow_le_zpow_right₀ (by norm_num) hw
  have h2 := hv.pow_le_absVal hne
  rw [← abs_toRat hv.digits, hval, abs_div, abs_of_pos (by positivity : (0 : ℚ) < 10 ^ s)] at h2
  have h3 : |(m : ℚ)| / 10 ^ s ≤ |(m : ℚ)| :=
    div_le_self (abs_nonneg _) (one_le_pow₀ (by norm_num))
  have h4 : |(m : ℚ)| ≤ 2 ^ 127 := by exact_mod_cast hr.abs_le_pow
  norm_num at h1
  norm_num at h4
  linarith

/-- Step 1 is taken only for numbers of at most 38 decimal digits. -/
lemma lt_of_step1 (hv : v.Normalized) {r : ℤ} (h : v.absVal = r / 10 ^ v.dscale)
    (hcond : (0 ≤ v.weight ∧ v.weight * DEC_DIGITS + DEC_DIGITS + v.dscale ≤ (MAXINT128DIGIT : ℤ)) ∨
      (v.weight < 0 ∧ v.dscale ≤ MAXINT128DIGIT)) : r < 10 ^ 38 ∧ v.dscale ≤ 38 := by
  have hlt := absVal_lt_pow hv.digits
  have h4 : (10000 : ℚ) ^ (v.weight + 1) = 10 ^ (4 * (v.weight + 1)) := by
    rw [zpow_mul]
    norm_num
  rw [h4] at hlt
  simp only [DEC_DIGITS, MAXINT128DIGIT] at hcond
  rcases hcond with ⟨hw, hc⟩ | ⟨hw, hc⟩
  · exact ⟨lt_pow_of_absVal_lt h hlt (by push_cast at hc ⊢; linarith), by omega⟩
  · exact ⟨lt_pow_of_absVal_lt h hlt (by push_cast; omega), hc⟩

/-- A number without a fraction is the integer step 2 gathers. -/
lemma canonical_of_integer (e : ℕ) (he : (v.ndigits : ℤ) + e = v.weight + 1) (hc : Canonical m s)
    (hval : v.toRat = m / 10 ^ s) : m = v.sign.toInt * (v.mantissa * 10000 ^ e) ∧ s = 0 := by
  have hint : v.toRat = ((v.sign.toInt * (v.mantissa * 10000 ^ e) : ℤ) : ℚ) / 10 ^ 0 := by
    have hasc : -v.ascale = (e : ℕ) := by
      unfold NumericVar.ascale
      omega
    rw [NumericVar.toRat, NumericVar.absVal, hasc, zpow_natCast]
    push_cast
    ring
  exact hc.unique (.inl rfl) (hval.symm.trans hint)

/-- A number with a fraction, its last digit trimmed, is the integer step 4 gathers. -/
lemma canonical_of_fraction (hv : v.Normalized) (hne : v.digits ≠ []) (ha : 1 ≤ v.ascale)
    {d b : ℤ} {z : ℕ} (ht : trimDigit (v.digits.getLastD 0) = (d, b, z)) (hc : Canonical m s)
    (hval : v.toRat = m / 10 ^ s) :
    m = v.sign.toInt * (Radix.value NBASE v.digits.dropLast * b + d) ∧ (s : ℤ) = 4 * v.ascale - z ∧
      1 ≤ b ∧ 0 ≤ d := by
  have hlast := getLastD_digits hne
  have hmem := hv.digits _ (List.getLast_mem hne)
  have hnz := hv.last _ (List.getLast?_eq_getLast_of_ne_nil hne)
  rw [← hlast] at hmem hnz
  obtain ⟨h1, h2, h3, h4, h5, h6, h7⟩ := trimDigit_eq (lt_of_le_of_ne hmem.1 (Ne.symm hnz)) hmem.2
  simp only [ht] at h1 h2 h3 h4 h5 h6 h7
  have hman : v.mantissa = (Radix.value NBASE v.digits.dropLast * b + d) * 10 ^ z := by
    rw [mantissa_split hne, h1, ← h3]
    ring
  obtain ⟨t, ht'⟩ : ∃ t : ℕ, 4 * v.ascale - z = t := ⟨(4 * v.ascale - z).toNat, by omega⟩
  have hcan : Canonical (v.sign.toInt * (Radix.value NBASE v.digits.dropLast * b + d)) t := by
    right
    have hb : (Radix.value NBASE v.digits.dropLast * b + d) % 10 = d % 10 := by
      obtain ⟨b', rfl⟩ := Int.dvd_of_emod_eq_zero h5
      rw [mul_left_comm, add_comm, Int.add_mul_emod_self_left]
    cases v.sign <;> simp only [NumericSign.toInt] <;> omega
  have hfrac : v.toRat
      = ((v.sign.toInt * (Radix.value NBASE v.digits.dropLast * b + d) : ℤ) : ℚ) / 10 ^ t := by
    have h10 : (10000 : ℚ) ^ (-v.ascale) = (10 : ℚ) ^ (-(4 * v.ascale)) := by
      rw [show (10000 : ℚ) = 10 ^ (4 : ℤ) by norm_num, ← zpow_mul]
      congr 1
      ring
    rw [NumericVar.toRat, NumericVar.absVal, hman, h10, show -(4 * v.ascale) = -(t : ℤ) + -(z : ℤ) by omega,
      zpow_add₀ (by norm_num), zpow_neg, zpow_neg, zpow_natCast, zpow_natCast]
    push_cast
    field_simp
  obtain ⟨hm, hs⟩ := hc.unique hcan (hval.symm.trans hfrac)
  exact ⟨hm, by omega, h6, h7⟩

/-- The hash of a plain numeric: the one of its canonical pair when its integer fits, and the digit
hash when it does not. -/
lemma numericHashBi_eq (f : NumericVar → BitVec 32) (hv : v.Normalized) (hc : Canonical m s)
    (hval : v.toRat = m / 10 ^ s) :
    numericHashBi f v = pure (if InRange 128 m then int128HashBi m s else f v) := by
  have hp : (10 : ℚ) ^ s ≠ 0 := by positivity
  unfold numericHashBi
  by_cases hn : v.ndigits = 0
  · have hnil : v.digits = [] := List.length_eq_zero_iff.mp hn
    have hm : m = 0 := by
      rw [toRat_of_digits_nil hnil, eq_comm, div_eq_zero_iff] at hval
      rcases hval with h | h
      · exact_mod_cast h
      · exact absurd h hp
    rw [if_pos hn, hm, if_pos (inRange_zero 128), int128HashBi, if_pos rfl]
  have hne : v.digits ≠ [] := fun h => hn (by simp [NumericVar.ndigits, h])
  rw [if_neg hn]
  by_cases hw : 10 ≤ v.weight
  · rw [if_pos hw, if_neg (not_inRange_of_weight hv hne hw hval)]
  rw [if_neg hw]
  split
  · -- step 1
    rename_i hcond
    obtain ⟨r, hr⟩ := hv.dscale
    obtain ⟨hr38, hs38⟩ := lt_of_step1 hv hr hcond
    have hr0 := unscaled_nonneg hv hr
    have hq : ((v.sign.toInt * r : ℤ) : ℚ) / 10 ^ v.dscale = m / 10 ^ s := by
      rw [← hval, NumericVar.toRat, hr]
      push_cast
      ring
    have hfit : InRange 128 (v.sign.toInt * r) := by
      apply inRange_of_abs_lt
      have : |v.sign.toInt * r| = r := by
        cases v.sign <;> simp [NumericSign.toInt, abs_of_nonneg hr0]
      rw [this]
      exact hr38.trans (by norm_num)
    obtain ⟨_, k, hk⟩ := normalizeNum_of_value hc hq
    have hin : InRange 128 m := InRange.of_mul_pow (hk ▸ hfit)
    rw [convertShortNumericToInt128ByScale_eq hv hr hr38 hs38, pure_bind, if_pos hin,
      int128HashBi_of_value hc hq]
  rename_i hcond1
  split
  · -- step 2
    rename_i hcond
    obtain ⟨e, he⟩ : ∃ e : ℕ, (v.ndigits : ℤ) + e = v.weight + 1 :=
      ⟨(v.weight + 1 - v.ndigits).toNat, by omega⟩
    obtain ⟨hm, hs⟩ := canonical_of_integer e he hc hval
    have hlen : v.digits.length + e ≤ 10 := by
      unfold NumericVar.ndigits at he
      omega
    have hpre := preData_eq v.sign e v.digits 0 hv.digits hlen (le_refl 0)
      (by rw [mul_zero]; exact inRange_zero 128)
    have hplace : (v.digits.length : ℤ) + e - 1 = v.weight := by
      unfold NumericVar.ndigits at he
      omega
    rw [mul_zero, hplace, zero_add] at hpre
    rw [hpre, pure_bind, hm, hs]
    by_cases hin : InRange 128 (v.sign.toInt * (v.mantissa * 10000 ^ e))
    · rw [if_pos hin]
      simp only [NumericVar.mantissa] at hin ⊢
      rw [if_pos hin]
    · rw [if_neg hin]
      simp only [NumericVar.mantissa] at hin ⊢
      rw [if_neg hin]
  · -- steps 3 and 4
    rename_i hcond
    have ha : 1 ≤ v.ascale := by
      have : 0 < v.ndigits := Nat.pos_of_ne_zero hn
      unfold NumericVar.ascale
      by_cases h0 : 0 ≤ v.weight
      · have := fun h => hcond ⟨h0, h⟩
        omega
      · omega
    obtain ⟨d, b, z, ht⟩ : ∃ d b z, trimDigit (v.digits.getLastD 0) = (d, b, z) := ⟨_, _, _, rfl⟩
    obtain ⟨hm, hs, hb, hd⟩ := canonical_of_fraction hv hne ha ht hc hval
    have hdl : Radix.Digits NBASE v.digits.dropLast :=
      fun d hd => hv.digits d (List.dropLast_subset _ hd)
    have hfold := foldlM_appendDigit v.sign v.digits.dropLast 0 hdl (le_refl 0)
      (by rw [mul_zero]; exact inRange_zero 128)
    have hscale : ((v.ndigits - v.weight - 1) * DEC_DIGITS - z : ℤ).toNat = s := by
      have : (v.ndigits - v.weight - 1) * DEC_DIGITS - z = (s : ℤ) := by
        rw [hs]
        unfold NumericVar.ascale
        ring
      rw [this, Int.toNat_natCast]
    have hpre0 := Radix.value_nonneg hdl
    rw [mul_zero, zero_mul, zero_add] at hfold
    simp only [ht, hfold, hscale]
    by_cases h1 : InRange 128 (v.sign.toInt * Radix.value NBASE v.digits.dropLast)
    · rw [if_pos h1]
      dsimp only
      rw [appendDigit_eq v.sign hb hpre0 hd, ← hm]
      by_cases hin : InRange 128 m
      · rw [if_pos hin, if_pos hin]
      · rw [if_neg hin, if_neg hin]
    · have hout : ¬ InRange 128 m := by
        rw [hm]
        intro h
        refine h1 (h.of_le hpre0 ?_)
        have := le_mul_of_one_le_right hpre0 hb
        linarith
      rw [if_neg h1, if_neg hout]

/-- The canonical pair of a valid numeric, and what its hash is in terms of it. -/
lemma hashBi_eq (f : NumericVar → BitVec 32) {x : Numeric} (hx : x.Valid) {q : ℚ}
    (hq : x.toRat? = some q) (hc : Canonical m s) (hval : q = m / 10 ^ s) :
    (InRange 128 m ∧ hashBi f x = pure (int128HashBi m s)) ∨
    (¬ InRange 128 m ∧ ∃ v, x = .plain v ∧ hashBi f x = pure (f v)) := by
  cases x with
  | nan => cases hq
  | bi64 num scale =>
    have hv : (num : ℚ) / 10 ^ scale = m / 10 ^ s := by
      rw [Numeric.toRat?, Option.some_inj] at hq
      rw [hq, hval]
    obtain ⟨_, k, hk⟩ := normalizeNum_of_value hc hv
    left
    refine ⟨(InRange.of_mul_pow (hk ▸ hx.1)).mono (by norm_num), ?_⟩
    rw [hashBi, int64HashBi_of_value hc hv hx.1]
  | bi128 num scale =>
    have hv : (num : ℚ) / 10 ^ scale = m / 10 ^ s := by
      rw [Numeric.toRat?, Option.some_inj] at hq
      rw [hq, hval]
    obtain ⟨_, k, hk⟩ := normalizeNum_of_value hc hv
    left
    refine ⟨InRange.of_mul_pow (hk ▸ hx.1), ?_⟩
    rw [hashBi, int128HashBi_of_value hc hv]
  | plain v =>
    have hv : v.toRat = m / 10 ^ s := by
      rw [Numeric.toRat?, Option.some_inj] at hq
      rw [hq, hval]
    have h := numericHashBi_eq f hx hc hv
    by_cases hin : InRange 128 m
    · rw [if_pos hin] at h
      exact .inl ⟨hin, h⟩
    · rw [if_neg hin] at h
      exact .inr ⟨hin, v, rfl, h⟩

/-- Every number a valid numeric denotes has a canonical pair. -/
lemma exists_canonical {x : Numeric} (hx : x.Valid) {q : ℚ} (hq : x.toRat? = some q) :
    ∃ m s, Canonical m s ∧ q = m / 10 ^ s := by
  have key : ∀ (num : ℤ) (scale : ℕ), q = num / 10 ^ scale →
      ∃ (m : ℤ) (s : ℕ), Canonical m s ∧ q = m / 10 ^ s := by
    intro num scale h
    obtain ⟨_, _, _, hc⟩ := normalizeNum_eq scale num
    exact ⟨_, _, hc, h.trans (normalizeNum_value scale num).symm⟩
  cases x with
  | nan => cases hq
  | bi64 num scale => exact key num scale (Option.some_inj.mp hq).symm
  | bi128 num scale => exact key num scale (Option.some_inj.mp hq).symm
  | plain v =>
    obtain ⟨r, hr⟩ := hx.dscale
    refine key (v.sign.toInt * r) v.dscale ?_
    rw [← Option.some_inj.mp hq, NumericVar.toRat, hr]
    push_cast
    ring

end Equality

/-- Numerics that denote the same number hash to the same value, whichever formats they are in, when
the digit hash of equal plain numerics is the same. -/
theorem hashBi_eq_of_toRat_eq (callHashNumeric : NumericVar → BitVec 32)
    (hhash : ∀ v w : NumericVar, v.Normalized → w.Normalized → v.toRat = w.toRat →
      callHashNumeric v = callHashNumeric w)
    (x y : Numeric) (hx : x.Valid) (hy : y.Valid) (q : ℚ) (hxq : x.toRat? = some q)
    (hyq : y.toRat? = some q) :
    ∃ h, (hashBi callHashNumeric x).run false = some (h, false) ∧
      (hashBi callHashNumeric y).run false = some (h, false) := by
  obtain ⟨m, s, hc, hval⟩ := exists_canonical hx hxq
  rcases hashBi_eq callHashNumeric hx hxq hc hval with ⟨hin, h1⟩ | ⟨hout, v, rfl, h1⟩
  · rcases hashBi_eq callHashNumeric hy hyq hc hval with ⟨_, h2⟩ | ⟨hout, _⟩
    · exact ⟨_, by rw [h1]; rfl, by rw [h2]; rfl⟩
    · exact absurd hin hout
  · rcases hashBi_eq callHashNumeric hy hyq hc hval with ⟨hin, _⟩ | ⟨_, w, rfl, h2⟩
    · exact absurd hin hout
    · have heq := hhash v w hx hy ((Option.some_inj.mp hxq).trans (Option.some_inj.mp hyq).symm)
      exact ⟨callHashNumeric v, by rw [h1]; rfl, by rw [h2, heq]; rfl⟩

/-- Equal plain numerics have the same digits and the same weight, and so the same digit hash. -/
lemma hashNumeric_congr (hashAny : List ℤ → BitVec 32) {v w : NumericVar}
    (hv : v.Normalized) (hw : w.Normalized) (h : v.toRat = w.toRat) :
    hashNumeric hashAny v = hashNumeric hashAny w := by
  obtain ⟨_, h2, h3⟩ := hv.fields_eq hw h
  unfold hashNumeric
  rw [h2, h3]

/-- `1.00` as a `bi64`, `1.0000` as a `bi128` and `1` with fifty digits after the point. -/
theorem hashBi_eq_of_toRat_eq_one :
    (∃ h, (hashBi (hashNumeric fun _ => 0) (.bi64 100 2)).run false = some (h, false) ∧
      (hashBi (hashNumeric fun _ => 0) (.plain ⟨.pos, 0, 50, [1]⟩)).run false = some (h, false)) ∧
    (hashBi (hashNumeric fun _ => 0) (.bi128 10000 4)).run false
      = (hashBi (hashNumeric fun _ => 0) (.plain ⟨.pos, 0, 50, [1]⟩)).run false := by
  have hone : (⟨.pos, 0, 50, [1]⟩ : NumericVar).toRat = 1 := by
    norm_num [NumericVar.toRat, NumericVar.absVal, NumericVar.mantissa, NumericVar.ascale,
      NumericVar.ndigits, NumericSign.toInt, Radix.value]
  have hnorm : (⟨.pos, 0, 50, [1]⟩ : NumericVar).Normalized := by
    refine ⟨by decide, by decide, by decide, by simp, 10 ^ 50, ?_⟩
    norm_num [NumericVar.absVal, NumericVar.mantissa, NumericVar.ascale, NumericVar.ndigits, Radix.value]
  constructor
  · exact hashBi_eq_of_toRat_eq _ (fun _ _ => hashNumeric_congr _) (.bi64 100 2) (.plain _)
      ⟨by decide, by decide⟩ hnorm 1 (by norm_num [Numeric.toRat?]) (by rw [Numeric.toRat?, hone])
  · obtain ⟨h, h1, h2⟩ := hashBi_eq_of_toRat_eq (hashNumeric fun _ => 0) (fun _ _ => hashNumeric_congr _)
      (.bi128 10000 4) (.plain ⟨.pos, 0, 50, [1]⟩) ⟨by decide, by decide⟩ hnorm 1
      (by norm_num [Numeric.toRat?]) (by rw [Numeric.toRat?, hone])
    rw [h1, h2]

end GaussKernel.Adt
