import GaussKernel.Adt.Convert

/-!
# Arithmetic on plain numerics

The digit-by-digit routines big integers fall back on: `addAbs`, `subAbs` and `cmpAbs` on absolute
values, `mulVar` with its accumulator of unnormalized digits and the rounding behind it, and the signed
operations made of them. They are exact on normalized numerics: the product is asked for with all of its
decimal digits, so the rounding has nothing to round.
-/

namespace GaussKernel.Adt

/-! ## Routines -/

def stripVar (v : NumericVar) : NumericVar :=
  let digits := Radix.lstrip v.digits
  let weight := v.weight - (v.digits.length - digits.length)
  let digits := Radix.rstrip digits
  if digits = [] then { v with sign := .pos, weight := 0, digits := [] }
  else { v with weight := weight, digits := digits }

/-- `make_result`: the stripping once more, and an error when a field does not fit its header. -/
def makeResult (v : NumericVar) : Run NumericVar :=
  let r := stripVar v
  if -2 ^ 15 ≤ r.weight ∧ r.weight < 2 ^ 15 ∧ r.dscale ≤ 0x3FFF then pure r else failure

def zeroVar (dscale : ℕ) : NumericVar := { sign := .pos, weight := 0, dscale := dscale, digits := [] }

def addStep (s : ℤ) : ℤ × ℤ := if NBASE ≤ s then (s - NBASE, 1) else (s, 0)

def subStep (s : ℤ) : ℤ × ℤ := if s < 0 then (s + NBASE, -1) else (s, 0)

/-- The columns the loops of `add_abs` and `sub_abs` run over: in round `j` the indices `i1` and `i2`
are `res_rscale + weight - j`, and a digit outside its string counts as zero. -/
def columns (f : ℤ → ℤ → ℤ) (var1 var2 : NumericVar) (resRscale : ℤ) (resNdigits : ℕ) : List ℤ :=
  (List.range resNdigits).map fun j : ℕ =>
    f (Radix.digitAt var1.digits (resRscale + var1.weight + 1 - 1 - j))
      (Radix.digitAt var2.digits (resRscale + var2.weight + 1 - 1 - j))

/-- The shared shape of `add_abs` and `sub_abs`, which differ in the weight of the result and in what
they do with a column. -/
def combineAbs (f : ℤ → ℤ → ℤ) (step : ℤ → ℤ × ℤ) (resWeight : ℤ) (var1 var2 : NumericVar) :
    NumericVar :=
  let resRscale := max var1.ascale var2.ascale
  let resNdigits := resRscale + resWeight + 1
  let resNdigits := if resNdigits ≤ 0 then 1 else resNdigits
  let digits := (Radix.carryLoop step 0 [] (columns f var1 var2 resRscale resNdigits.toNat)).1
  stripVar { sign := .pos, weight := resWeight, dscale := max var1.dscale var2.dscale, digits := digits }

def addAbs (var1 var2 : NumericVar) : NumericVar :=
  combineAbs (· + ·) addStep (max var1.weight var2.weight + 1) var1 var2

def subAbs (var1 var2 : NumericVar) : NumericVar :=
  combineAbs (· - ·) subStep var1.weight var1 var2

/-- The digits in front of the first common place; `none` when one of them is not zero. -/
def skipLeading : ℤ → ℤ → List ℤ → Option (ℤ × List ℤ)
  | w1, _, [] => some (w1, [])
  | w1, w2, d :: ds =>
    if w2 < w1 then
      if d ≠ 0 then none else skipLeading (w1 - 1) w2 ds
    else some (w1, d :: ds)

/-- The common digits, and what is left of both strings behind them. -/
def cmpCommon : List ℤ → List ℤ → ℤ ⊕ (List ℤ × List ℤ)
  | d1 :: ds1, d2 :: ds2 =>
    if d1 - d2 ≠ 0 then .inl (if 0 < d1 - d2 then 1 else -1) else cmpCommon ds1 ds2
  | ds1, ds2 => .inr (ds1, ds2)

def cmpRest (ds1 ds2 : List ℤ) : ℤ :=
  if ds1.any (· != 0) then 1 else if ds2.any (· != 0) then -1 else 0

def cmpAbs (var1 var2 : NumericVar) : ℤ :=
  match skipLeading var1.weight var2.weight var1.digits with
  | none => 1
  | some (w1, ds1) =>
    match skipLeading var2.weight w1 var2.digits with
    | none => -1
    | some (w2, ds2) =>
      if w1 = w2 then
        match cmpCommon ds1 ds2 with
        | .inl c => c
        | .inr (ds1, ds2) => cmpRest ds1 ds2
      else cmpRest ds1 ds2

def cmpVar (var1 var2 : NumericVar) : ℤ :=
  if var1.ndigits = 0 then
    if var2.ndigits = 0 then 0 else if var2.sign = .neg then 1 else -1
  else if var2.ndigits = 0 then
    if var1.sign = .pos then 1 else -1
  else if var1.sign = .pos then
    if var2.sign = .neg then 1 else cmpAbs var1 var2
  else if var2.sign = .pos then -1
  else cmpAbs var2 var1

/-- Values of opposite sign: the larger absolute value decides. -/
def diffAbs (var1 var2 : NumericVar) (sign1 sign2 : NumericSign) : NumericVar :=
  match cmpAbs var1 var2 with
  | 0 => zeroVar (max var1.dscale var2.dscale)
  | 1 => { subAbs var1 var2 with sign := sign1 }
  | _ => { subAbs var2 var1 with sign := sign2 }

def addVar (var1 var2 : NumericVar) : NumericVar :=
  match var1.sign, var2.sign with
  | .pos, .pos => { addAbs var1 var2 with sign := .pos }
  | .pos, .neg => diffAbs var1 var2 .pos .neg
  | .neg, .pos => diffAbs var1 var2 .neg .pos
  | .neg, .neg => { addAbs var1 var2 with sign := .neg }

def subVar (var1 var2 : NumericVar) : NumericVar :=
  match var1.sign, var2.sign with
  | .pos, .neg => { addAbs var1 var2 with sign := .pos }
  | .pos, .pos => diffAbs var1 var2 .pos .neg
  | .neg, .neg => diffAbs var1 var2 .neg .pos
  | .neg, .pos => { addAbs var1 var2 with sign := .neg }

/-- A carry goes through the nines in front of the last kept digit; `digits` is read from its end, and
the spare digit before the first one takes the last carry. -/
def propagate : List ℤ → List ℤ
  | [] => [1]
  | d :: ds => if NBASE ≤ 1 + d then (1 + d - NBASE) :: propagate ds else (1 + d) :: ds

def roundPowers : ℤ → ℤ
  | 1 => 1000
  | 2 => 100
  | 3 => 10
  | _ => 0

/-- The digits `round_var` keeps, and whether they are rounded up. -/
def roundDigits (digits : List ℤ) (ndigits : ℕ) (di : ℤ) : List ℤ × Bool :=
  if di = 0 then (digits.take ndigits, decide (5000 ≤ digits.getD ndigits 0))
  else
    let pow10 := roundPowers di
    let kept := digits.take (ndigits - 1)
    let last := digits.getD (ndigits - 1) 0
    let extra := last % pow10
    let last := last - extra
    if pow10 / 2 ≤ extra then
      if NBASE ≤ pow10 + last then (kept ++ [pow10 + last - NBASE], true)
      else (kept ++ [pow10 + last], false)
    else (kept ++ [last], false)

/-- The carry of a rounded last digit starts in front of it; of a dropped digit, at the last one. -/
def roundCarry (di : ℤ) (digits : List ℤ) : List ℤ :=
  if di = 0 then (propagate digits.reverse).reverse
  else (propagate digits.dropLast.reverse).reverse ++ [digits.getLastD 0]

def roundVar (v : NumericVar) (rscale : ℕ) : NumericVar :=
  let di := (v.weight + 1) * DEC_DIGITS + rscale
  if di < 0 then { sign := .pos, weight := 0, dscale := rscale, digits := [] }
  else
    let ndigits := ((di + DEC_DIGITS - 1) / DEC_DIGITS).toNat
    let di := di % DEC_DIGITS
    if ndigits < v.ndigits ∨ (ndigits = v.ndigits ∧ 0 < di) then
      match roundDigits v.digits ndigits di with
      | (digits, false) => { v with dscale := rscale, digits := digits }
      | (digits, true) =>
        let rounded := roundCarry di digits
        { v with dscale := rscale, digits := rounded,
                 weight := v.weight + (rounded.length - digits.length) }
    else { v with dscale := rscale }

def mulStep (s : ℤ) : ℤ × ℤ := if NBASE ≤ s then (s - s / NBASE * NBASE, s / NBASE) else (s, 0)

/-- One pass of carries over the accumulator, from its last place. -/
def normalizeDig (dig : List ℤ) : List ℤ := (Radix.carryLoop mulStep 0 [] dig.reverse).1

/-- The inner loop: `var1digit` times the digits of `var2` is added from place `i1 + 2` on. -/
def addRow (var2digits : List ℤ) (resNdigits i1 : ℕ) (var1digit : ℤ) (dig : List ℤ) : List ℤ :=
  let i2limit := min var2digits.length (resNdigits - i1 - 2)
  dig.mapIdx fun p x => x + var1digit * Radix.digitAt (var2digits.take i2limit) ((p : ℤ) - (i1 + 2 : ℕ))

abbrev maxdigLimit : ℤ := (2147483647 - 2147483647 / NBASE) / (NBASE - 1)

/-- One round of the outer loop. The accumulator is normalized before its entries could pass `INT_MAX`:
`maxdig` bounds them in units of `NBASE - 1`. -/
def mulRound (var1digits var2digits : List ℤ) (resNdigits : ℕ) (st : List ℤ × ℤ) (i1 : ℕ) :
    List ℤ × ℤ :=
  let var1digit := var1digits.getD i1 0
  if var1digit = 0 then st
  else if maxdigLimit < st.2 + var1digit then
    (addRow var2digits resNdigits i1 var1digit (normalizeDig st.1), 1 + var1digit)
  else (addRow var2digits resNdigits i1 var1digit st.1, st.2 + var1digit)

/-- The body of `mul_var`, with `var1` the shorter operand. -/
def mulVarShort (var1 var2 : NumericVar) (rscale : ℕ) : NumericVar :=
  if var1.ndigits = 0 ∨ var2.ndigits = 0 then zeroVar rscale
  else
    let resSign := if var1.sign = var2.sign then NumericSign.pos else NumericSign.neg
    let resWeight := var1.weight + var2.weight + 2
    let maxdigits : ℤ := resWeight + 1 + ((rscale + 4 - 1) / 4 : ℕ) + 2
    let resNdigits : ℤ := min (var1.ndigits + var2.ndigits + 1 : ℕ) maxdigits
    if resNdigits < 3 then zeroVar rscale
    else
      let n := resNdigits.toNat
      let rounds := (List.range (min var1.ndigits (n - 2))).reverse
      let dig := (rounds.foldl (mulRound var1.digits var2.digits n) (List.replicate n 0, 0)).1
      stripVar (roundVar { sign := resSign, weight := resWeight, dscale := 0,
                           digits := normalizeDig dig } rscale)

def mulVar (var1 var2 : NumericVar) (rscale : ℕ) : NumericVar :=
  if var2.ndigits < var1.ndigits then mulVarShort var2 var1 rscale else mulVarShort var1 var2 rscale

def numericAdd (num1 num2 : NumericVar) : Run NumericVar := makeResult (addVar num1 num2)

def numericSub (num1 num2 : NumericVar) : Run NumericVar := makeResult (subVar num1 num2)

def numericMul (num1 num2 : NumericVar) : Run NumericVar :=
  makeResult (mulVar num1 num2 (num1.dscale + num2.dscale))

def cmpNumerics (num1 num2 : NumericVar) : ℤ := cmpVar num1 num2

/-! ## Stripping -/

lemma stripVar_absVal (v : NumericVar) : (stripVar v).absVal = v.absVal := by
  have hle1 := (Radix.lstrip_suffix v.digits).length_le
  have hle2 := (Radix.rstrip_isPre (Radix.lstrip v.digits)).length_le
  have hval : v.mantissa = Radix.value NBASE (Radix.rstrip (Radix.lstrip v.digits))
      * 10000 ^ ((Radix.lstrip v.digits).length - (Radix.rstrip (Radix.lstrip v.digits)).length) := by
    rw [NumericVar.mantissa, ← Radix.value_lstrip, Radix.value_rstrip (Radix.lstrip v.digits)]
  unfold stripVar
  dsimp only
  split
  · rename_i hnil
    rw [absVal_of_digits_nil rfl, NumericVar.absVal, hval, hnil]
    simp
  · simp only [NumericVar.absVal, hval]
    simp only [NumericVar.mantissa, NumericVar.ascale, NumericVar.ndigits]
    push_cast
    rw [mul_assoc, ← zpow_natCast, ← zpow_add₀ (by norm_num)]
    congr 2
    omega

@[simp] lemma stripVar_dscale (v : NumericVar) : (stripVar v).dscale = v.dscale := by
  unfold stripVar
  dsimp only
  split <;> rfl

variable {v : NumericVar} {ds : List ℤ}

lemma stripVar_digits (h : Radix.Digits NBASE v.digits) : Radix.Digits NBASE (stripVar v).digits := by
  unfold stripVar
  dsimp only
  split
  · exact Radix.Digits.nil
  · exact h.lstrip.rstrip

lemma stripVar_toRat (v : NumericVar) : (stripVar v).toRat = v.toRat := by
  have habs := stripVar_absVal v
  by_cases hnil : (stripVar v).digits = []
  · rw [absVal_of_digits_nil hnil] at habs
    rw [toRat_of_digits_nil hnil, NumericVar.toRat, ← habs, mul_zero]
  · have hsign : (stripVar v).sign = v.sign := by
      unfold stripVar at hnil ⊢
      dsimp only at hnil ⊢
      split
      · rename_i h
        rw [if_pos h] at hnil
        exact absurd rfl hnil
      · rfl
    rw [NumericVar.toRat, hsign, habs, NumericVar.toRat]

/-- A stripped value whose display scale covers its digits is normalized. -/
lemma stripVar_normalized (h : Radix.Digits NBASE v.digits) (hs : ∃ m : ℤ, v.absVal = m / 10 ^ v.dscale) :
    (stripVar v).Normalized where
  digits := stripVar_digits h
  head := by
    unfold stripVar
    dsimp only
    split
    · simp
    · exact fun d hd => Radix.head_lstrip d (Radix.head?_rstrip hd)
  last := by
    unfold stripVar
    dsimp only
    split
    · simp
    · exact Radix.getLast_rstrip
  zero := by
    unfold stripVar
    dsimp only
    split
    · exact fun _ => ⟨rfl, rfl⟩
    · rename_i hne
      exact fun h => absurd h hne
  dscale := by
    rw [stripVar_absVal, stripVar_dscale]
    exact hs

/-- The display scale of a normalized value is not shorter than its digits by a whole digit. -/
lemma NumericVar.Normalized.ascale_le (hv : v.Normalized) (hne : v.digits ≠ []) :
    4 * v.ascale - v.dscale ≤ 3 := by
  obtain ⟨r, hr⟩ := hv.dscale
  rcases unscaled_cases hr with ⟨k, hk, _⟩ | ⟨k, _, hk, hm⟩
  · omega
  · have := hv.hidden_le hne hm
    omega

/-- Bounds on the weight of a normalized value by its size and its display scale. -/
lemma NumericVar.Normalized.weight_mem (hv : v.Normalized) (hd : v.dscale ≤ 1000)
    (hlt : v.absVal < 10000 ^ (100 : ℤ)) : -2 ^ 15 ≤ v.weight ∧ v.weight < 2 ^ 15 := by
  by_cases hne : v.digits = []
  · rw [(hv.zero hne).1]
    norm_num
  · have hn : 0 < v.ndigits := List.length_pos_iff.mpr hne
    have hasc := hv.ascale_le hne
    have hw : v.weight < 100 :=
      (zpow_lt_zpow_iff_right₀ (by norm_num)).mp ((hv.pow_le_absVal hne).trans_lt hlt)
    unfold NumericVar.ascale at hasc
    constructor
    · norm_num
      omega
    · norm_num
      omega

/-- `make_result` packs every value whose display scale and size are those of a sum or a product of big
integers. -/
lemma makeResult_eq (h : Radix.Digits NBASE v.digits) (hs : ∃ m : ℤ, v.absVal = m / 10 ^ v.dscale)
    (hd : v.dscale ≤ 1000) (hlt : v.absVal < 10000 ^ (100 : ℤ)) :
    ∃ r : NumericVar, makeResult v = pure r ∧ r.Normalized ∧ r.toRat = v.toRat ∧ r.dscale = v.dscale := by
  have hnorm := stripVar_normalized h hs
  have hw := hnorm.weight_mem (by rw [stripVar_dscale]; exact hd) (by rw [stripVar_absVal]; exact hlt)
  refine ⟨stripVar v, ?_, hnorm, stripVar_toRat v, stripVar_dscale v⟩
  unfold makeResult
  dsimp only
  rw [if_pos ⟨hw.1, hw.2, by rw [stripVar_dscale]; omega⟩]

/-! ## Sums and differences of absolute values -/

section Abs

variable {v1 v2 : NumericVar} {v : NumericVar} {R : ℤ} {k : ℕ}

/-- The columns of one operand, `R` places behind the point and covering it, add up to the mantissa at
that scale. -/
lemma sum_column (hR : v.ascale ≤ R) (hk : v.digits = [] ∨ R + v.weight + 1 ≤ k) :
    ∑ j ∈ Finset.range k, Radix.digitAt v.digits (R + v.weight + 1 - 1 - j) * NBASE ^ j
      = v.mantissa * 10000 ^ (R - v.ascale).toNat := by
  rcases hk with hnil | hk
  · simp [NumericVar.mantissa, hnil, Radix.digitAt]
  · have hasc : v.ascale = v.digits.length - v.weight - 1 := rfl
    have hi : ((R + v.weight + 1).toNat : ℤ) = R + v.weight + 1 := by omega
    have hw := Radix.sum_window (B := NBASE) v.digits (R + v.weight + 1).toNat k (by omega) (by omega)
    rw [hi] at hw
    rw [hw, show (R + v.weight + 1).toNat - v.digits.length = (R - v.ascale).toNat by omega]
    rfl

/-- The value of an operand at a scale that covers it. -/
lemma absVal_eq_scaled (hR : v.ascale ≤ R) :
    v.absVal = ((v.mantissa * 10000 ^ (R - v.ascale).toNat : ℤ) : ℚ) * (10000 : ℚ) ^ (-R) := by
  have hk : (((R - v.ascale).toNat : ℕ) : ℤ) = R - v.ascale := by omega
  rw [NumericVar.absVal]
  push_cast
  rw [mul_assoc, ← zpow_natCast, ← zpow_add₀ (by norm_num), hk]
  congr 2
  ring

lemma scaled_lt (hd : Radix.Digits NBASE v.digits) (hR : v.ascale ≤ R) (hk : R + v.weight + 1 ≤ k) :
    v.mantissa * 10000 ^ (R - v.ascale).toNat < 10000 ^ k := by
  have hasc : v.ascale = v.ndigits - v.weight - 1 := rfl
  have hp : (0 : ℤ) < 10000 ^ (R - v.ascale).toNat := by positivity
  calc v.mantissa * 10000 ^ (R - v.ascale).toNat
      < 10000 ^ v.ndigits * 10000 ^ (R - v.ascale).toNat :=
        mul_lt_mul_of_pos_right (mantissa_lt_pow hd) hp
    _ = 10000 ^ (v.ndigits + (R - v.ascale).toNat) := by rw [pow_add]
    _ ≤ 10000 ^ k := pow_le_pow_right₀ (by norm_num) (by omega)

/-- Both loops, once it is known that no carry is left over. -/
lemma combineAbs_eq {f : ℤ → ℤ → ℤ} {step : ℤ → ℤ × ℤ} {W : ℤ} (hk : max v1.ascale v2.ascale + W + 1 = k)
    (hk0 : 0 < k) (hstep : ∀ s, (step s).1 + NBASE * (step s).2 = s)
    (hdig : Radix.Digits NBASE (Radix.carryLoop step 0 [] (columns f v1 v2 (max v1.ascale v2.ascale) k)).1)
    (hcarry : (Radix.carryLoop step 0 [] (columns f v1 v2 (max v1.ascale v2.ascale) k)).2 = 0) :
    (combineAbs f step W v1 v2).absVal
        = (Radix.colSum NBASE (columns f v1 v2 (max v1.ascale v2.ascale) k) : ℚ)
          * (10000 : ℚ) ^ (-max v1.ascale v2.ascale) ∧
      Radix.Digits NBASE (combineAbs f step W v1 v2).digits := by
  have hlen : (columns f v1 v2 (max v1.ascale v2.ascale) k).length = k := by simp [columns]
  have hval := Radix.carryLoop_value hstep (columns f v1 v2 (max v1.ascale v2.ascale) k) 0 []
  have hll := Radix.carryLoop_length step (columns f v1 v2 (max v1.ascale v2.ascale) k) 0 []
  rw [hcarry, zero_mul, add_zero, List.length_nil, pow_zero, mul_one, zero_add, Radix.value_nil,
    zero_add] at hval
  rw [List.length_nil, zero_add, hlen] at hll
  unfold combineAbs
  simp only [hk]
  rw [if_neg (by omega), Int.toNat_natCast]
  refine ⟨?_, stripVar_digits hdig⟩
  rw [stripVar_absVal, NumericVar.absVal, NumericVar.mantissa, hval]
  congr 2
  change -(((Radix.carryLoop step 0 [] (columns f v1 v2 (max v1.ascale v2.ascale) k)).1.length : ℤ)
    - W - 1) = _
  rw [hll]
  omega

lemma addStep_value (s : ℤ) : (addStep s).1 + NBASE * (addStep s).2 = s := by
  unfold addStep
  split
  · ring
  · ring

lemma subStep_value (s : ℤ) : (subStep s).1 + NBASE * (subStep s).2 = s := by
  unfold subStep
  split
  · ring
  · ring

lemma mem_columns {f : ℤ → ℤ → ℤ} {x : ℤ} (hx : x ∈ columns f v1 v2 R k) (h1 : Radix.Digits NBASE v1.digits)
    (h2 : Radix.Digits NBASE v2.digits) : ∃ a b, x = f a b ∧ (0 ≤ a ∧ a < 10000) ∧ (0 ≤ b ∧ b < 10000) := by
  obtain ⟨j, _, rfl⟩ := List.mem_map.mp hx
  exact ⟨_, _, rfl, Radix.digitAt_mem (by norm_num) h1 _, Radix.digitAt_mem (by norm_num) h2 _⟩

/-- `add_abs` adds the absolute values. -/
lemma addAbs_eq (h1 : Radix.Digits NBASE v1.digits) (h2 : Radix.Digits NBASE v2.digits) :
    (addAbs v1 v2).absVal = v1.absVal + v2.absVal ∧ Radix.Digits NBASE (addAbs v1 v2).digits := by
  have hle1 : v1.ascale ≤ max v1.ascale v2.ascale := le_max_left _ _
  have hle2 : v2.ascale ≤ max v1.ascale v2.ascale := le_max_right _ _
  have hw1 : v1.weight ≤ max v1.weight v2.weight := le_max_left _ _
  have hw2 : v2.weight ≤ max v1.weight v2.weight := le_max_right _ _
  have ha1 : v1.ascale = v1.ndigits - v1.weight - 1 := rfl
  obtain ⟨k, hk⟩ : ∃ k : ℕ, max v1.ascale v2.ascale + (max v1.weight v2.weight + 1) + 1 = (k + 1 : ℕ) :=
    ⟨(max v1.ascale v2.ascale + max v1.weight v2.weight + 1).toNat, by omega⟩
  have hS : Radix.colSum NBASE (columns (· + ·) v1 v2 (max v1.ascale v2.ascale) (k + 1))
      = v1.mantissa * 10000 ^ (max v1.ascale v2.ascale - v1.ascale).toNat
        + v2.mantissa * 10000 ^ (max v1.ascale v2.ascale - v2.ascale).toNat := by
    rw [columns, Radix.colSum_map_range, ← sum_column (k := k + 1) hle1 (.inr (by omega)),
      ← sum_column (k := k + 1) hle2 (.inr (by omega)), ← Finset.sum_add_distrib]
    exact Finset.sum_congr rfl fun j _ => add_mul _ _ _
  -- a column and the carry stay below twice the base
  have hloop := Radix.carryLoop_digits (B := NBASE) addStep (fun c => c = 0 ∨ c = 1)
    (columns (· + ·) v1 v2 (max v1.ascale v2.ascale) (k + 1)) (by
      intro c x hc hx
      obtain ⟨a, b, rfl, ha, hb⟩ := mem_columns hx h1 h2
      unfold addStep
      simp only [NBASE]
      split
      · exact ⟨.inr rfl, by dsimp only; omega, by dsimp only; omega⟩
      · exact ⟨.inl rfl, by dsimp only; omega, by dsimp only; omega⟩)
    0 (.inl rfl) Radix.Digits.nil
  have hcarry : (Radix.carryLoop addStep 0 []
      (columns (· + ·) v1 v2 (max v1.ascale v2.ascale) (k + 1))).2 = 0 := by
    have hval := Radix.carryLoop_value (B := NBASE) addStep_value
      (columns (· + ·) v1 v2 (max v1.ascale v2.ascale) (k + 1)) 0 []
    have hlen : (columns (· + ·) v1 v2 (max v1.ascale v2.ascale) (k + 1)).length = k + 1 := by
      simp [columns]
    rw [hS, hlen, List.length_nil, pow_zero, mul_one, zero_add, zero_add, Radix.value_nil, zero_add] at hval
    have hb1 := scaled_lt h1 (k := k) hle1 (by omega)
    have hb2 := scaled_lt h2 (k := k) hle2 (by omega)
    have hv0 := Radix.value_nonneg hloop.2
    rcases hloop.1 with h | h
    · exact h
    · rw [h, one_mul, pow_succ] at hval
      simp only [NBASE] at hval hv0
      have : (0 : ℤ) < 10000 ^ k := by positivity
      linarith
  obtain ⟨habs, hdig⟩ := combineAbs_eq hk (by omega) addStep_value hloop.2 hcarry
  refine ⟨?_, hdig⟩
  rw [addAbs, habs, hS, absVal_eq_scaled hle1, absVal_eq_scaled hle2]
  push_cast
  ring

/-- `sub_abs` subtracts, "ABS(var1) MUST BE GREATER OR EQUAL ABS(var2)". -/
lemma subAbs_eq (h1 : v1.Normalized) (h2 : v2.Normalized) (hne : v1.digits ≠ [])
    (hle : v2.absVal ≤ v1.absVal) :
    (subAbs v1 v2).absVal = v1.absVal - v2.absVal ∧ Radix.Digits NBASE (subAbs v1 v2).digits := by
  have hle1 : v1.ascale ≤ max v1.ascale v2.ascale := le_max_left _ _
  have hle2 : v2.ascale ≤ max v1.ascale v2.ascale := le_max_right _ _
  have ha1 : v1.ascale = v1.ndigits - v1.weight - 1 := rfl
  have hn1 : 0 < v1.ndigits := List.length_pos_iff.mpr hne
  have hw : v2.digits = [] ∨ v2.weight ≤ v1.weight := by
    by_cases hnil : v2.digits = []
    · exact .inl hnil
    · right
      have := (h2.pow_le_absVal hnil).trans_lt (hle.trans_lt (absVal_lt_pow h1.digits))
      have := (zpow_lt_zpow_iff_right₀ (by norm_num : (1 : ℚ) < 10000)).mp this
      omega
  obtain ⟨k, hk⟩ : ∃ k : ℕ, max v1.ascale v2.ascale + v1.weight + 1 = k :=
    ⟨(max v1.ascale v2.ascale + v1.weight + 1).toNat, by omega⟩
  have hcov : v2.digits = [] ∨ max v1.ascale v2.ascale + v2.weight + 1 ≤ k := by
    rcases hw with hnil | hw
    · exact .inl hnil
    · exact .inr (by omega)
  have hS : Radix.colSum NBASE (columns (· - ·) v1 v2 (max v1.ascale v2.ascale) k)
      = v1.mantissa * 10000 ^ (max v1.ascale v2.ascale - v1.ascale).toNat
        - v2.mantissa * 10000 ^ (max v1.ascale v2.ascale - v2.ascale).toNat := by
    rw [columns, Radix.colSum_map_range, ← sum_column (k := k) hle1 (.inr (by omega)),
      ← sum_column (k := k) hle2 hcov, ← Finset.sum_sub_distrib]
    exact Finset.sum_congr rfl fun j _ => sub_mul _ _ _
  have hS0 : 0 ≤ Radix.colSum NBASE (columns (· - ·) v1 v2 (max v1.ascale v2.ascale) k) := by
    rw [absVal_eq_scaled hle1, absVal_eq_scaled hle2] at hle
    have hp : (0 : ℚ) < 10000 ^ (-max v1.ascale v2.ascale) := by positivity
    have hz := le_of_mul_le_mul_right hle hp
    rw [hS, sub_nonneg]
    exact_mod_cast hz
  have hloop := Radix.carryLoop_digits (B := NBASE) subStep (fun c => c = 0 ∨ c = -1)
    (columns (· - ·) v1 v2 (max v1.ascale v2.ascale) k) (by
      intro c x hc hx
      obtain ⟨a, b, rfl, ha, hb⟩ := mem_columns hx h1.digits h2.digits
      unfold subStep
      simp only [NBASE]
      split
      · exact ⟨.inr rfl, by dsimp only; omega, by dsimp only; omega⟩
      · exact ⟨.inl rfl, by dsimp only; omega, by dsimp only; omega⟩)
    0 (.inl rfl) Radix.Digits.nil
  have hcarry : (Radix.carryLoop subStep 0 []
      (columns (· - ·) v1 v2 (max v1.ascale v2.ascale) k)).2 = 0 := by
    have hval := Radix.carryLoop_value (B := NBASE) subStep_value
      (columns (· - ·) v1 v2 (max v1.ascale v2.ascale) k) 0 []
    have hlen : (columns (· - ·) v1 v2 (max v1.ascale v2.ascale) k).length = k := by simp [columns]
    have hll := Radix.carryLoop_length subStep (columns (· - ·) v1 v2 (max v1.ascale v2.ascale) k) 0 []
    have hlt := Radix.value_lt_pow (B := NBASE) (by norm_num) hloop.2
    rw [hlen, List.length_nil, pow_zero, mul_one, zero_add, zero_add, Radix.value_nil, zero_add] at hval
    rw [hll, hlen, List.length_nil, zero_add] at hlt
    rcases hloop.1 with h | h
    · exact h
    · rw [h] at hval
      linarith
  obtain ⟨habs, hdig⟩ := combineAbs_eq hk (by omega) subStep_value hloop.2 hcarry
  refine ⟨?_, hdig⟩
  rw [subAbs, habs, hS, absVal_eq_scaled hle1, absVal_eq_scaled hle2]
  push_cast
  ring

end Abs

/-! ## Comparison -/

/-- The result a comparison routine returns for two ordered values. -/
def orderSign {α : Type*} [LinearOrder α] (x y : α) : ℤ :=
  if x < y then -1 else if y < x then 1 else 0

section OrderSign

variable {α : Type*} [LinearOrder α]

lemma orderSign_lt {x y : α} (h : x < y) : orderSign x y = -1 := if_pos h

lemma orderSign_gt {x y : α} (h : y < x) : orderSign x y = 1 := by
  rw [orderSign, if_neg (not_lt.mpr h.le), if_pos h]

lemma orderSign_self (x : α) : orderSign x x = 0 := by
  rw [orderSign, if_neg (lt_irrefl x), if_neg (lt_irrefl x)]

lemma orderSign_congr {β : Type*} [LinearOrder β] {x y : α} {x' y' : β} (h1 : x < y ↔ x' < y')
    (h2 : y < x ↔ y' < x') : orderSign x y = orderSign x' y' := by
  simp only [orderSign, h1, h2]

end OrderSign

lemma any_ne_zero_iff (h : Radix.Digits NBASE ds) : ds.any (· != 0) = true ↔ 0 < Radix.value NBASE ds := by
  induction ds with
  | nil => simp
  | cons d ds ih =>
    obtain ⟨⟨hd0, _⟩, hds⟩ := Radix.digits_cons.mp h
    have hv := Radix.value_nonneg hds
    have hp : (0 : ℤ) < NBASE ^ ds.length := by positivity
    rw [List.any_cons, Bool.or_eq_true, ih hds, Radix.value_cons, bne_iff_ne]
    constructor
    · rintro (hd | hpos)
      · have := mul_pos (lt_of_le_of_ne hd0 (Ne.symm hd)) hp
        linarith
      · have := mul_nonneg hd0 hp.le
        linarith
    · intro hpos
      by_cases hd : d = 0
      · right
        rw [hd, zero_mul, zero_add] at hpos
        exact hpos
      · exact .inl hd

lemma cmpRest_nil_left (h : Radix.Digits NBASE ds) :
    cmpRest [] ds = orderSign 0 (Radix.value NBASE ds) := by
  rw [cmpRest, if_neg (by simp)]
  by_cases hp : 0 < Radix.value NBASE ds
  · rw [if_pos ((any_ne_zero_iff h).mpr hp), orderSign_lt hp]
  · have hz : Radix.value NBASE ds = 0 := le_antisymm (not_lt.mp hp) (Radix.value_nonneg h)
    rw [if_neg (fun ha => hp ((any_ne_zero_iff h).mp ha)), hz, orderSign_self]

lemma cmpRest_nil_right (h : Radix.Digits NBASE ds) :
    cmpRest ds [] = orderSign (Radix.value NBASE ds) 0 := by
  rw [cmpRest]
  by_cases hp : 0 < Radix.value NBASE ds
  · rw [if_pos ((any_ne_zero_iff h).mpr hp), orderSign_gt hp]
  · have hz : Radix.value NBASE ds = 0 := le_antisymm (not_lt.mp hp) (Radix.value_nonneg h)
    rw [if_neg (fun ha => hp ((any_ne_zero_iff h).mp ha)), if_neg (by simp), hz, orderSign_self]

/-- What comes after the first common place, both strings padded to one length. -/
def cmpDigits (ds1 ds2 : List ℤ) : ℤ :=
  match cmpCommon ds1 ds2 with
  | .inl c => c
  | .inr (ds1, ds2) => cmpRest ds1 ds2

/-- A smaller leading digit makes a smaller number, whatever follows. -/
lemma value_lt_of_head_lt {d1 d2 : ℤ} {ds1 ds2 : List ℤ} (h1 : Radix.Digits NBASE (d1 :: ds1))
    (h2 : Radix.Digits NBASE (d2 :: ds2)) (hlt : d1 < d2) :
    Radix.value NBASE (d1 :: ds1) * NBASE ^ (d2 :: ds2).length
      < Radix.value NBASE (d2 :: ds2) * NBASE ^ (d1 :: ds1).length := by
  obtain ⟨_, hds1⟩ := Radix.digits_cons.mp h1
  obtain ⟨_, hds2⟩ := Radix.digits_cons.mp h2
  have hp1 : (0 : ℤ) < NBASE ^ ds1.length := by positivity
  have hp2 : (0 : ℤ) < NBASE ^ (ds2.length + 1) := by positivity
  have hp3 : (0 : ℤ) < NBASE ^ (ds1.length + 1) := by positivity
  have hv1 := Radix.value_lt_pow (B := NBASE) (by norm_num) hds1
  have hv2 := Radix.value_nonneg hds2
  have hd : (d1 + 1) * NBASE ^ ds1.length ≤ d2 * NBASE ^ ds1.length :=
    mul_le_mul_of_nonneg_right hlt hp1.le
  rw [Radix.value_cons, Radix.value_cons, List.length_cons, List.length_cons]
  calc (d1 * NBASE ^ ds1.length + Radix.value NBASE ds1) * NBASE ^ (ds2.length + 1)
      < d2 * NBASE ^ ds1.length * NBASE ^ (ds2.length + 1) :=
        mul_lt_mul_of_pos_right (by linarith) hp2
    _ = d2 * NBASE ^ ds2.length * NBASE ^ (ds1.length + 1) := by ring
    _ ≤ (d2 * NBASE ^ ds2.length + Radix.value NBASE ds2) * NBASE ^ (ds1.length + 1) :=
        mul_le_mul_of_nonneg_right (by linarith) hp3.le

lemma cmpDigits_eq : ∀ {ds1 ds2 : List ℤ}, Radix.Digits NBASE ds1 → Radix.Digits NBASE ds2 →
    cmpDigits ds1 ds2 = orderSign (Radix.value NBASE ds1 * NBASE ^ ds2.length)
      (Radix.value NBASE ds2 * NBASE ^ ds1.length) := by
  intro ds1
  induction ds1 with
  | nil =>
    intro ds2 _ h2
    have hc : cmpDigits [] ds2 = cmpRest [] ds2 := by cases ds2 <;> rfl
    rw [hc, cmpRest_nil_left h2]
    simp
  | cons d1 ds1 ih =>
    intro ds2 h1 h2
    cases ds2 with
    | nil =>
      have hc : cmpDigits (d1 :: ds1) [] = cmpRest (d1 :: ds1) [] := rfl
      rw [hc, cmpRest_nil_right h1]
      simp
    | cons d2 ds2 =>
      obtain ⟨_, hds1⟩ := Radix.digits_cons.mp h1
      obtain ⟨_, hds2⟩ := Radix.digits_cons.mp h2
      rcases lt_trichotomy d1 d2 with hlt | heq | hgt
      · have h := value_lt_of_head_lt h1 h2 hlt
        rw [orderSign_lt h, cmpDigits, cmpCommon, if_pos (by omega), if_neg (by omega)]
      · have hrec := ih hds1 hds2
        have hstep : cmpDigits (d1 :: ds1) (d2 :: ds2) = cmpDigits ds1 ds2 := by
          rw [cmpDigits, cmpCommon, if_neg (by omega), cmpDigits]
        rw [hstep, hrec, heq]
        -- the equal head adds the same amount on both sides
        have hx : Radix.value NBASE (d2 :: ds1) * NBASE ^ (d2 :: ds2).length
            - Radix.value NBASE (d2 :: ds2) * NBASE ^ (d2 :: ds1).length
            = NBASE * (Radix.value NBASE ds1 * NBASE ^ ds2.length
              - Radix.value NBASE ds2 * NBASE ^ ds1.length) := by
          rw [Radix.value_cons, Radix.value_cons, List.length_cons, List.length_cons]
          ring
        simp only [NBASE] at hx ⊢
        apply orderSign_congr
        · constructor <;> intro h <;> linarith
        · constructor <;> intro h <;> linarith
      · have h := value_lt_of_head_lt h2 h1 hgt
        rw [orderSign_gt h, cmpDigits, cmpCommon, if_pos (by omega), if_pos (by omega)]

section Cmp

variable {v1 v2 : NumericVar}

lemma absVal_lt_of_weight_lt (h1 : Radix.Digits NBASE v1.digits) (h2 : v2.Normalized)
    (hne : v2.digits ≠ []) (hw : v1.weight < v2.weight) : v1.absVal < v2.absVal :=
  calc v1.absVal < 10000 ^ (v1.weight + 1) := absVal_lt_pow h1
    _ ≤ 10000 ^ v2.weight := zpow_le_zpow_right₀ (by norm_num) (by omega)
    _ ≤ v2.absVal := h2.pow_le_absVal hne

/-- Numbers of one weight compare as their digit strings. -/
lemma orderSign_of_weight_eq (hw : v1.weight = v2.weight) :
    orderSign v1.absVal v2.absVal = orderSign (v1.mantissa * NBASE ^ v2.ndigits)
      (v2.mantissa * NBASE ^ v1.ndigits) := by
  have hp : (0 : ℚ) < 10000 ^ ((v1.ndigits : ℤ) + v2.ndigits - v1.weight - 1) := by positivity
  have e1 : v1.absVal * 10000 ^ ((v1.ndigits : ℤ) + v2.ndigits - v1.weight - 1)
      = ((v1.mantissa * NBASE ^ v2.ndigits : ℤ) : ℚ) := by
    rw [NumericVar.absVal, mul_assoc, ← zpow_add₀ (by norm_num),
      show -v1.ascale + ((v1.ndigits : ℤ) + v2.ndigits - v1.weight - 1) = (v2.ndigits : ℕ) by
        unfold NumericVar.ascale; omega, zpow_natCast]
    push_cast
    rfl
  have e2 : v2.absVal * 10000 ^ ((v1.ndigits : ℤ) + v2.ndigits - v1.weight - 1)
      = ((v2.mantissa * NBASE ^ v1.ndigits : ℤ) : ℚ) := by
    rw [NumericVar.absVal, mul_assoc, ← zpow_add₀ (by norm_num),
      show -v2.ascale + ((v1.ndigits : ℤ) + v2.ndigits - v1.weight - 1) = (v1.ndigits : ℕ) by
        unfold NumericVar.ascale; omega, zpow_natCast]
    push_cast
    rfl
  apply orderSign_congr
  · rw [← mul_lt_mul_iff_left₀ hp, e1, e2, Int.cast_lt]
  · rw [← mul_lt_mul_iff_left₀ hp, e1, e2, Int.cast_lt]

lemma skipLeading_of_le {w1 w2 : ℤ} (h : w1 ≤ w2) (ds : List ℤ) :
    skipLeading w1 w2 ds = some (w1, ds) := by
  cases ds with
  | nil => rfl
  | cons d ds => rw [skipLeading, if_neg (not_lt.mpr h)]

lemma skipLeading_of_lt {w1 w2 d : ℤ} (h : w2 < w1) (hd : d ≠ 0) (ds : List ℤ) :
    skipLeading w1 w2 (d :: ds) = none := by
  rw [skipLeading, if_pos h, if_pos hd]

/-- `cmp_abs` compares the absolute values. -/
lemma cmpAbs_eq (h1 : v1.Normalized) (h2 : v2.Normalized) :
    cmpAbs v1 v2 = orderSign v1.absVal v2.absVal := by
  have hrest1 : ∀ w1 w2 : ℤ, v1.digits = [] → (if w1 = w2 then cmpDigits v1.digits v2.digits
      else cmpRest v1.digits v2.digits) = orderSign v1.absVal v2.absVal := by
    intro w1 w2 hnil
    have hd : cmpDigits [] v2.digits = cmpRest [] v2.digits := by cases v2.digits <;> rfl
    have h0 : orderSign v1.absVal v2.absVal = orderSign 0 (Radix.value NBASE v2.digits) := by
      rw [absVal_of_digits_nil hnil]
      have hp : (0 : ℚ) < 10000 ^ (-v2.ascale) := by positivity
      apply orderSign_congr
      · rw [NumericVar.absVal, mul_pos_iff_of_pos_right hp]
        exact Int.cast_pos
      · rw [NumericVar.absVal, mul_neg_iff]
        constructor
        · rintro (⟨_, h⟩ | ⟨h, _⟩)
          · exact absurd h (not_lt.mpr hp.le)
          · exact Int.cast_lt_zero.mp h
        · exact fun h => .inr ⟨Int.cast_lt_zero.mpr h, hp⟩
    rw [hnil, hd, ite_self, cmpRest_nil_left h2.digits, h0]
  by_cases hnil1 : v1.digits = []
  · unfold cmpAbs
    rw [hnil1, skipLeading]
    dsimp only
    by_cases hw : v2.weight ≤ v1.weight
    · rw [skipLeading_of_le hw]
      have := hrest1 v1.weight v2.weight hnil1
      rw [hnil1] at this
      exact this
    · by_cases hnil2 : v2.digits = []
      · rw [(h1.zero hnil1).1, (h2.zero hnil2).1] at hw
        exact absurd (le_refl _) hw
      · obtain ⟨d, ds, hd⟩ := List.exists_cons_of_ne_nil hnil2
        rw [hd, skipLeading_of_lt (not_le.mp hw) (h2.head d (by simp [hd])),
          absVal_of_digits_nil hnil1, orderSign_lt (h2.absVal_pos hnil2)]
  obtain ⟨d1, ds1, hd1⟩ := List.exists_cons_of_ne_nil hnil1
  unfold cmpAbs
  by_cases hw : v2.weight < v1.weight
  · rw [hd1, skipLeading_of_lt hw (h1.head d1 (by simp [hd1]))]
    exact (orderSign_gt (absVal_lt_of_weight_lt h2.digits h1 hnil1 hw)).symm
  rw [skipLeading_of_le (not_lt.mp hw)]
  dsimp only
  by_cases hnil2 : v2.digits = []
  · -- nothing is left of the second number
    rw [hnil2, skipLeading]
    have hany : v1.digits.any (· != 0) = true := by
      simp [hd1, h1.head d1 (by simp [hd1])]
    have hcr : cmpRest v1.digits [] = 1 := by rw [cmpRest, if_pos hany]
    have hcd : cmpDigits v1.digits [] = 1 := by
      have : cmpDigits v1.digits [] = cmpRest v1.digits [] := by cases v1.digits <;> rfl
      rw [this, hcr]
    rw [absVal_of_digits_nil hnil2, orderSign_gt (h1.absVal_pos hnil1)]
    dsimp only
    split
    · exact hcd
    · exact hcr
  obtain ⟨d2, ds2, hd2⟩ := List.exists_cons_of_ne_nil hnil2
  by_cases hw' : v1.weight < v2.weight
  · rw [hd2, skipLeading_of_lt hw' (h2.head d2 (by simp [hd2]))]
    exact (orderSign_lt (absVal_lt_of_weight_lt h1.digits h2 hnil2 hw')).symm
  · have heq : v1.weight = v2.weight := by omega
    rw [skipLeading_of_le (not_lt.mp hw'), orderSign_of_weight_eq heq]
    dsimp only
    rw [if_pos heq]
    exact cmpDigits_eq h1.digits h2.digits

lemma toRat_of_pos (h : v1.sign = .pos) : v1.toRat = v1.absVal := by
  rw [NumericVar.toRat, h]
  simp [NumericSign.toInt]

lemma toRat_of_neg (h : v1.sign = .neg) : v1.toRat = -v1.absVal := by
  rw [NumericVar.toRat, h]
  simp [NumericSign.toInt]

lemma sign_cases (v : NumericVar) : v.sign = .pos ∨ v.sign = .neg := by
  cases v.sign
  · exact .inl rfl
  · exact .inr rfl

/-- `cmp_var_common` compares the numbers. -/
lemma cmpVar_eq (h1 : v1.Normalized) (h2 : v2.Normalized) :
    cmpVar v1 v2 = orderSign v1.toRat v2.toRat := by
  have hn1 : v1.ndigits = 0 ↔ v1.digits = [] := List.length_eq_zero_iff
  have hn2 : v2.ndigits = 0 ↔ v2.digits = [] := List.length_eq_zero_iff
  unfold cmpVar
  by_cases e1 : v1.digits = []
  · rw [if_pos (hn1.mpr e1), toRat_of_digits_nil e1]
    by_cases e2 : v2.digits = []
    · rw [if_pos (hn2.mpr e2), toRat_of_digits_nil e2, orderSign_self]
    · have hp := h2.absVal_pos e2
      rw [if_neg (fun h => e2 (hn2.mp h))]
      rcases sign_cases v2 with hs | hs
      · rw [if_neg (by rw [hs]; decide), toRat_of_pos hs, orderSign_lt hp]
      · rw [if_pos hs, toRat_of_neg hs, orderSign_gt (by linarith)]
  have hp1 := h1.absVal_pos e1
  rw [if_neg (fun h => e1 (hn1.mp h))]
  by_cases e2 : v2.digits = []
  · rw [if_pos (hn2.mpr e2), toRat_of_digits_nil e2]
    rcases sign_cases v1 with hs | hs
    · rw [if_pos hs, toRat_of_pos hs, orderSign_gt hp1]
    · rw [if_neg (by rw [hs]; decide), toRat_of_neg hs, orderSign_lt (by linarith)]
  have hp2 := h2.absVal_pos e2
  rw [if_neg (fun h => e2 (hn2.mp h))]
  rcases sign_cases v1 with hs1 | hs1
  · rw [if_pos hs1, toRat_of_pos hs1]
    rcases sign_cases v2 with hs2 | hs2
    · rw [if_neg (by rw [hs2]; decide), toRat_of_pos hs2, cmpAbs_eq h1 h2]
    · rw [if_pos hs2, toRat_of_neg hs2, orderSign_gt (by linarith)]
  · rw [if_neg (by rw [hs1]; decide), toRat_of_neg hs1]
    rcases sign_cases v2 with hs2 | hs2
    · rw [if_pos hs2, toRat_of_pos hs2, orderSign_lt (by linarith)]
    · rw [if_neg (by rw [hs2]; decide), toRat_of_neg hs2, cmpAbs_eq h2 h1]
      exact orderSign_congr neg_lt_neg_iff.symm neg_lt_neg_iff.symm

end Cmp

/-! ## Sums and differences -/

section Sum

variable {v1 v2 : NumericVar}

/-- The digits of an unpacked result, its display scale and the number it denotes. -/
def IsResult (v : NumericVar) (dscale : ℕ) (q : ℚ) : Prop :=
  Radix.Digits NBASE v.digits ∧ v.dscale = dscale ∧ v.toRat = q

lemma combineAbs_dscale (f : ℤ → ℤ → ℤ) (step : ℤ → ℤ × ℤ) (w : ℤ) :
    (combineAbs f step w v1 v2).dscale = max v1.dscale v2.dscale := by
  unfold combineAbs
  rw [stripVar_dscale]

lemma isResult_of_pos {v : NumericVar} {s : ℕ} {q : ℚ} (hd : Radix.Digits NBASE v.digits)
    (hs : v.dscale = s) (hq : v.absVal = q) : IsResult { v with sign := .pos } s q := by
  refine ⟨hd, hs, ?_⟩
  rw [toRat_of_pos rfl, ← hq]
  rfl

lemma isResult_of_neg {v : NumericVar} {s : ℕ} {q : ℚ} (hd : Radix.Digits NBASE v.digits)
    (hs : v.dscale = s) (hq : v.absVal = -q) : IsResult { v with sign := .neg } s q := by
  refine ⟨hd, hs, ?_⟩
  rw [toRat_of_neg rfl, ← neg_neg q, ← hq]
  rfl

/-- The difference of two absolute values, with the sign of the larger one. -/
lemma diffAbs_eq (h1 : v1.Normalized) (h2 : v2.Normalized) :
    IsResult (diffAbs v1 v2 .pos .neg) (max v1.dscale v2.dscale) (v1.absVal - v2.absVal) ∧
    IsResult (diffAbs v1 v2 .neg .pos) (max v1.dscale v2.dscale) (v2.absVal - v1.absVal) := by
  have hc := cmpAbs_eq h1 h2
  unfold diffAbs
  rcases lt_trichotomy v1.absVal v2.absVal with hlt | heq | hgt
  · rw [orderSign_lt hlt] at hc
    have hne : v2.digits ≠ [] := by
      intro hnil
      rw [absVal_of_digits_nil hnil] at hlt
      exact absurd (absVal_nonneg h1.digits) (not_le.mpr hlt)
    obtain ⟨habs, hdig⟩ := subAbs_eq h2 h1 hne hlt.le
    have hs : (subAbs v2 v1).dscale = max v1.dscale v2.dscale := by
      rw [subAbs, combineAbs_dscale, max_comm]
    simp only [hc]
    exact ⟨isResult_of_neg hdig hs (by rw [habs]; ring), isResult_of_pos hdig hs habs⟩
  · rw [heq, orderSign_self] at hc
    simp only [hc]
    rw [heq, sub_self]
    have hz : IsResult (zeroVar (max v1.dscale v2.dscale)) (max v1.dscale v2.dscale) 0 :=
      ⟨Radix.Digits.nil, rfl, toRat_of_digits_nil rfl⟩
    exact ⟨hz, hz⟩
  · rw [orderSign_gt hgt] at hc
    have hne : v1.digits ≠ [] := by
      intro hnil
      rw [absVal_of_digits_nil hnil] at hgt
      exact absurd (absVal_nonneg h2.digits) (not_le.mpr hgt)
    obtain ⟨habs, hdig⟩ := subAbs_eq h1 h2 hne hgt.le
    have hs : (subAbs v1 v2).dscale = max v1.dscale v2.dscale := by
      rw [subAbs, combineAbs_dscale]
    simp only [hc]
    exact ⟨isResult_of_pos hdig hs habs, isResult_of_neg hdig hs (by rw [habs]; ring)⟩

lemma addVar_eq (h1 : v1.Normalized) (h2 : v2.Normalized) :
    IsResult (addVar v1 v2) (max v1.dscale v2.dscale) (v1.toRat + v2.toRat) := by
  obtain ⟨habs, hdig⟩ := addAbs_eq h1.digits h2.digits
  have hs : (addAbs v1 v2).dscale = max v1.dscale v2.dscale := combineAbs_dscale _ _ _
  obtain ⟨hd1, hd2⟩ := diffAbs_eq h1 h2
  unfold addVar
  rcases sign_cases v1 with hs1 | hs1 <;> rcases sign_cases v2 with hs2 | hs2 <;> simp only [hs1, hs2]
  · rw [toRat_of_pos hs1, toRat_of_pos hs2]
    exact isResult_of_pos hdig hs habs
  · rw [toRat_of_pos hs1, toRat_of_neg hs2, ← sub_eq_add_neg]
    exact hd1
  · rw [toRat_of_neg hs1, toRat_of_pos hs2, neg_add_eq_sub]
    exact hd2
  · rw [toRat_of_neg hs1, toRat_of_neg hs2]
    exact isResult_of_neg hdig hs (by rw [habs]; ring)

lemma subVar_eq (h1 : v1.Normalized) (h2 : v2.Normalized) :
    IsResult (subVar v1 v2) (max v1.dscale v2.dscale) (v1.toRat - v2.toRat) := by
  obtain ⟨habs, hdig⟩ := addAbs_eq h1.digits h2.digits
  have hs : (addAbs v1 v2).dscale = max v1.dscale v2.dscale := combineAbs_dscale _ _ _
  obtain ⟨hd1, hd2⟩ := diffAbs_eq h1 h2
  unfold subVar
  rcases sign_cases v1 with hs1 | hs1 <;> rcases sign_cases v2 with hs2 | hs2 <;> simp only [hs1, hs2]
  · rw [toRat_of_pos hs1, toRat_of_pos hs2]
    exact hd1
  · rw [toRat_of_pos hs1, toRat_of_neg hs2, sub_neg_eq_add]
    exact isResult_of_pos hdig hs habs
  · rw [toRat_of_neg hs1, toRat_of_pos hs2]
    exact isResult_of_neg hdig hs (by rw [habs]; ring)
  · rw [toRat_of_neg hs1, toRat_of_neg hs2, neg_sub_neg]
    exact hd2

end Sum

/-! ## Products -/

section Product

lemma mulStep_value (s : ℤ) : (mulStep s).1 + NBASE * (mulStep s).2 = s := by
  unfold mulStep
  split
  · ring
  · ring

variable {dig ds2 ds1 ds : List ℤ}

/-- A pass of carries keeps the value of an accumulator and leaves digits. -/
lemma normalizeDig_eq (h0 : ∀ x ∈ dig, 0 ≤ x) (hlt : Radix.value NBASE dig < NBASE ^ dig.length) :
    Radix.value NBASE (normalizeDig dig) = Radix.value NBASE dig ∧
    Radix.Digits NBASE (normalizeDig dig) ∧ (normalizeDig dig).length = dig.length := by
  have hloop := Radix.carryLoop_digits (B := NBASE) mulStep (fun c => 0 ≤ c)
    (dig.reverse) (by
      intro c x hc hx
      have hx0 := h0 x (List.mem_reverse.mp hx)
      unfold mulStep
      simp only [NBASE]
      split
      · exact ⟨by dsimp only; omega, by dsimp only; omega, by dsimp only; omega⟩
      · exact ⟨le_refl 0, by dsimp only; omega, by dsimp only; omega⟩)
    0 (le_refl 0) Radix.Digits.nil
  have hval := Radix.carryLoop_value (B := NBASE) mulStep_value dig.reverse 0 []
  have hlen := Radix.carryLoop_length mulStep dig.reverse 0 []
  rw [Radix.colSum_reverse, List.length_nil, pow_zero, mul_one, zero_add, zero_add, Radix.value_nil,
    zero_add, List.length_reverse] at hval
  rw [List.length_nil, zero_add, List.length_reverse] at hlen
  have hv0 := Radix.value_nonneg hloop.2
  have hcarry : (Radix.carryLoop mulStep 0 [] dig.reverse).2 = 0 := by
    by_contra hne
    have h1 : 1 ≤ (Radix.carryLoop mulStep 0 [] dig.reverse).2 := by
      have h2 : 0 ≤ (Radix.carryLoop mulStep 0 [] dig.reverse).2 := hloop.1
      omega
    have hp : (0 : ℤ) < NBASE ^ dig.length := by positivity
    have := mul_le_mul_of_nonneg_right h1 hp.le
    linarith
  rw [hcarry, zero_mul, add_zero] at hval
  exact ⟨hval, hloop.2, hlen⟩

/-- The inner loop adds one row of the school multiplication. -/
lemma addRow_eq {L : ℕ} (i1 : ℕ) (ds2 : List ℤ) (hi : i1 + 2 + ds2.length ≤ L) {c : ℤ}
    (hlen : dig.length = L) :
    Radix.value NBASE (addRow ds2 L i1 c dig)
      = Radix.value NBASE dig + c * (Radix.value NBASE ds2 * NBASE ^ (L - (i1 + 2) - ds2.length)) ∧
    (addRow ds2 L i1 c dig).length = L := by
  unfold addRow
  dsimp only
  rw [show min ds2.length (L - i1 - 2) = ds2.length by omega, List.take_length]
  refine ⟨?_, by rw [List.length_mapIdx, hlen]⟩
  rw [Radix.value_mapIdx_add, hlen, ← Radix.value_row ds2 L (i1 + 2) hi, ← Radix.value_map_mul,
    List.map_map]
  rfl

lemma addRow_nonneg (h2 : Radix.Digits NBASE ds2) {L i1 : ℕ} {c : ℤ} (hc : 0 ≤ c) (h0 : ∀ x ∈ dig, 0 ≤ x) :
    ∀ x ∈ addRow ds2 L i1 c dig, 0 ≤ x := by
  intro x hx
  unfold addRow at hx
  obtain ⟨p, hp, rfl⟩ := List.mem_mapIdx.mp hx
  have htake : Radix.Digits NBASE (ds2.take (min ds2.length (L - i1 - 2))) :=
    fun d hd => h2 d (List.mem_of_mem_take hd)
  have hd := (Radix.digitAt_mem (B := NBASE) (by norm_num) htake ((p : ℤ) - (i1 + 2 : ℕ))).1
  have := mul_nonneg hc hd
  have := h0 _ (List.getElem_mem hp)
  linarith

/-- The accumulator after the rounds of the digits of `var1` from index `j` on. -/
structure MulInv (ds1 ds2 : List ℤ) (j : ℕ) (dig : List ℤ) : Prop where
  length : dig.length = ds1.length + ds2.length + 1
  nonneg : ∀ x ∈ dig, 0 ≤ x
  value : Radix.value NBASE dig = Radix.value NBASE (ds1.drop j) * Radix.value NBASE ds2

section

variable (h1 : Radix.Digits NBASE ds1) (h2 : Radix.Digits NBASE ds2)
include h1 h2

lemma MulInv.value_lt {j : ℕ} (h : MulInv ds1 ds2 j dig) : Radix.value NBASE dig < NBASE ^ dig.length := by
  have hd : Radix.Digits NBASE (ds1.drop j) := fun d hd => h1 d (List.mem_of_mem_drop hd)
  have hb1 : Radix.value NBASE (ds1.drop j) < NBASE ^ ds1.length :=
    (Radix.value_lt_pow (by norm_num) hd).trans_le
      (pow_le_pow_right₀ (by norm_num) (by rw [List.length_drop]; omega))
  have hb2 := Radix.value_lt_pow (B := NBASE) (by norm_num) h2
  have h02 := Radix.value_nonneg h2
  have hp : (0 : ℤ) < NBASE ^ ds1.length := by positivity
  rw [h.value, h.length]
  calc Radix.value NBASE (ds1.drop j) * Radix.value NBASE ds2
      ≤ NBASE ^ ds1.length * Radix.value NBASE ds2 := mul_le_mul_of_nonneg_right hb1.le h02
    _ < NBASE ^ ds1.length * NBASE ^ ds2.length := mul_lt_mul_of_pos_left hb2 hp
    _ ≤ NBASE ^ (ds1.length + ds2.length + 1) := by
      rw [← pow_add]
      exact pow_le_pow_right₀ (by norm_num) (by omega)

lemma MulInv.addRow {i1 : ℕ} (hi : i1 < ds1.length) (h : MulInv ds1 ds2 (i1 + 1) dig) :
    MulInv ds1 ds2 i1 (addRow ds2 (ds1.length + ds2.length + 1) i1 (ds1.getD i1 0) dig) := by
  have hget : ds1.getD i1 0 = ds1[i1] := by
    rw [List.getD_eq_getElem?_getD, List.getElem?_eq_getElem hi, Option.getD_some]
  have hdrop : ds1.drop i1 = ds1[i1] :: ds1.drop (i1 + 1) := List.drop_eq_getElem_cons hi
  obtain ⟨hval, hlen⟩ := addRow_eq i1 ds2 (by omega) (c := ds1.getD i1 0) h.length
  refine ⟨hlen, ?_, ?_⟩
  · exact addRow_nonneg h2 (by rw [hget]; exact (h1 _ (List.getElem_mem hi)).1) h.nonneg
  · rw [hval, h.value, hdrop, Radix.value_cons, hget, List.length_drop,
      show ds1.length + ds2.length + 1 - (i1 + 2) - ds2.length = ds1.length - (i1 + 1) by omega]
    ring

lemma MulInv.mulRound {i1 : ℕ} (hi : i1 < ds1.length) {st : List ℤ × ℤ} (h : MulInv ds1 ds2 (i1 + 1) st.1) :
    MulInv ds1 ds2 i1 (mulRound ds1 ds2 (ds1.length + ds2.length + 1) st i1).1 := by
  have hget : ds1.getD i1 0 = ds1[i1] := by
    rw [List.getD_eq_getElem?_getD, List.getElem?_eq_getElem hi, Option.getD_some]
  unfold Adt.mulRound
  by_cases hz : ds1.getD i1 0 = 0
  · -- a zero digit is skipped and adds nothing
    dsimp only
    rw [if_pos hz]
    refine ⟨h.length, h.nonneg, ?_⟩
    rw [h.value, List.drop_eq_getElem_cons hi, Radix.value_cons, ← hget, hz, zero_mul, zero_add]
  · dsimp only
    rw [if_neg hz]
    split
    · obtain ⟨hv, hd, hl⟩ := normalizeDig_eq h.nonneg (h.value_lt h1 h2)
      have hn : MulInv ds1 ds2 (i1 + 1) (normalizeDig st.1) :=
        ⟨by rw [hl, h.length], fun x hx => (hd x hx).1, by rw [hv, h.value]⟩
      exact hn.addRow h1 h2 hi
    · exact h.addRow h1 h2 hi

/-- All the rounds. -/
lemma MulInv.rounds :
    ∀ (m : ℕ) (st : List ℤ × ℤ), m ≤ ds1.length → MulInv ds1 ds2 m st.1 →
    MulInv ds1 ds2 0
      ((List.range m).reverse.foldl (Adt.mulRound ds1 ds2 (ds1.length + ds2.length + 1)) st).1 := by
  intro m
  induction m with
  | zero =>
    intro st _ h
    exact h
  | succ m ih =>
    intro st hm h
    rw [List.range_succ, List.reverse_append, List.reverse_singleton, List.singleton_append,
      List.foldl_cons]
    exact ih _ (by omega) (h.mulRound h1 h2 (by omega))

end

lemma digits_zero_of_value (h : Radix.Digits NBASE ds) (hz : Radix.value NBASE ds = 0) :
    ∀ d ∈ ds, d = 0 := by
  intro d hd
  by_contra hne
  have hany : ds.any (· != 0) = true := List.any_eq_true.mpr ⟨d, hd, by simp [hne]⟩
  have := (any_ne_zero_iff h).mp hany
  omega

/-- When the places behind the first `n` are a multiple of their weight, they are zeros. -/
lemma value_drop_eq_zero (h : Radix.Digits NBASE ds) {n q : ℕ} (hn : n + q = ds.length)
    (hdvd : NBASE ^ q ∣ Radix.value NBASE ds) :
    Radix.value NBASE (ds.drop n) = 0 ∧
    Radix.value NBASE ds = Radix.value NBASE (ds.take n) * NBASE ^ q := by
  have hd : Radix.Digits NBASE (ds.drop n) := fun d hd => h d (List.mem_of_mem_drop hd)
  have hlen : (ds.drop n).length = q := by rw [List.length_drop]; omega
  have hsplit : Radix.value NBASE ds
      = Radix.value NBASE (ds.take n) * NBASE ^ q + Radix.value NBASE (ds.drop n) := by
    conv_lhs => rw [← List.take_append_drop n ds, Radix.value_append, hlen]
  have hlt := Radix.value_lt_pow (B := NBASE) (by norm_num) hd
  rw [hlen] at hlt
  have hz : Radix.value NBASE (ds.drop n) = 0 := by
    rw [hsplit] at hdvd
    have hdvd' := (Int.dvd_add_right (Dvd.intro_left _ rfl)).mp hdvd
    exact Int.eq_zero_of_dvd_of_nonneg_of_lt (Radix.value_nonneg hd) hlt hdvd'
  refine ⟨hz, ?_⟩
  rw [hsplit, hz, add_zero]

/-- What rounding keeps when there is nothing to round away: the digits up to the requested scale. -/
lemma roundDigits_exact (h : Radix.Digits NBASE ds) {n q t : ℕ} (hn : n + q = ds.length) (hn0 : 0 < n)
    (ht : t ≤ 3) (hqt : 0 < q + t) (hdvd : (10 : ℤ) ^ (4 * q + t) ∣ Radix.value NBASE ds) :
    roundDigits ds n ((4 - t : ℤ) % 4) = (ds.take n, false) := by
  have hpow : NBASE ^ q ∣ (10 : ℤ) ^ (4 * q + t) := by
    rw [pow_add, pow_mul]
    exact ⟨10 ^ t, by norm_num⟩
  obtain ⟨hz, hval⟩ := value_drop_eq_zero h hn (hpow.trans hdvd)
  unfold roundDigits
  by_cases h0 : t = 0
  · -- the cut is between two digits, and the first dropped one is zero
    have hlt : n < ds.length := by omega
    have hget : ds.getD n 0 = 0 := by
      rw [List.getD_eq_getElem?_getD, List.getElem?_eq_getElem hlt, Option.getD_some]
      refine digits_zero_of_value (fun d hd => h d (List.mem_of_mem_drop hd)) hz _ ?_
      rw [List.drop_eq_getElem_cons hlt]
      exact List.mem_cons_self
    rw [h0, if_pos (by norm_num), hget]
    rfl
  · have hmod : (4 - t : ℤ) % 4 = 4 - t := by omega
    have hne : (4 - t : ℤ) ≠ 0 := by omega
    have hp : roundPowers (4 - t : ℤ) = 10 ^ t := by
      have : t = 1 ∨ t = 2 ∨ t = 3 := by omega
      rcases this with rfl | rfl | rfl <;> rfl
    have hidx : n - 1 < ds.length := by omega
    have htake : ds.take n = ds.take (n - 1) ++ [ds.getD (n - 1) 0] := by
      rw [List.getD_eq_getElem?_getD, List.getElem?_eq_getElem hidx, Option.getD_some]
      conv_lhs => rw [show n = n - 1 + 1 by omega, List.take_add_one, List.getElem?_eq_getElem hidx]
      rfl
    -- the part of the last kept digit behind the cut is zero too
    have hlast : ds.getD (n - 1) 0 % 10 ^ t = 0 := by
      have hp0 : (NBASE : ℤ) ^ q ≠ 0 := by positivity
      have hd1 : (10 : ℤ) ^ t ∣ Radix.value NBASE (ds.take n) := by
        rw [hval, pow_add, pow_mul, mul_comm] at hdvd
        exact (mul_dvd_mul_iff_right hp0).mp (by simpa using hdvd)
      rw [htake, Radix.value_concat] at hd1
      have hd2 : (10 : ℤ) ^ t ∣ NBASE := by
        have : t = 1 ∨ t = 2 ∨ t = 3 := by omega
        rcases this with rfl | rfl | rfl <;> decide
      exact Int.emod_eq_zero_of_dvd ((Int.dvd_add_right (hd2.mul_left _)).mp hd1)
    have hpos : ¬ (10 : ℤ) ^ t / 2 ≤ 0 := by
      have : t = 1 ∨ t = 2 ∨ t = 3 := by omega
      rcases this with rfl | rfl | rfl <;> decide
    rw [hmod, if_neg hne, hp]
    dsimp only
    rw [hlast, if_neg hpos, sub_zero, ← htake]

/-- Rounding to a scale that shows every digit changes nothing but the digits that are zeros. -/
lemma roundVar_exact {v : NumericVar} {rscale : ℕ} (hd : Radix.Digits NBASE v.digits)
    (hpos : 0 < v.mantissa) {m : ℤ} (hm : v.absVal = m / 10 ^ rscale) :
    (roundVar v rscale).absVal = v.absVal ∧ Radix.Digits NBASE (roundVar v rscale).digits ∧
    (roundVar v rscale).dscale = rscale ∧ (roundVar v rscale).sign = v.sign := by
  have hasc : v.ascale = v.ndigits - v.weight - 1 := rfl
  rcases unscaled_cases hm with ⟨k, hk, _⟩ | ⟨k, hk0, hk, hman⟩
  · -- the last digit is in front of the requested scale
    have hdi : (v.weight + 1) * DEC_DIGITS + rscale = 4 * v.ndigits + k := by
      simp only [DEC_DIGITS]
      omega
    have hcond : ¬ ((((4 * v.ndigits + k : ℤ) + DEC_DIGITS - 1) / DEC_DIGITS).toNat < v.ndigits ∨
        ((((4 * v.ndigits + k : ℤ) + DEC_DIGITS - 1) / DEC_DIGITS).toNat = v.ndigits ∧
          0 < (4 * v.ndigits + k : ℤ) % DEC_DIGITS)) := by
      simp only [DEC_DIGITS]
      omega
    unfold roundVar
    rw [hdi]
    dsimp only
    rw [if_neg (by omega), if_neg hcond]
    exact ⟨rfl, hd, rfl, rfl⟩
  · have hk4 : k < 4 * v.ndigits := by
      have hm1 : 1 ≤ m := by
        by_contra hm0
        have : m * 10 ^ k ≤ 0 := mul_nonpos_of_nonpos_of_nonneg (by omega) (by positivity)
        omega
      have h1 : (10 : ℤ) ^ k ≤ v.mantissa := by
        rw [hman]
        exact le_mul_of_one_le_left (by positivity) hm1
      have h2 : v.mantissa < 10 ^ (4 * v.ndigits) := by
        rw [pow_mul]
        exact mantissa_lt_pow hd
      exact (pow_lt_pow_iff_right₀ (by norm_num : (1 : ℤ) < 10)).mp (h1.trans_lt h2)
    obtain ⟨q, t, ht, rfl⟩ : ∃ q t, t ≤ 3 ∧ k = 4 * q + t := ⟨k / 4, k % 4, by omega, by omega⟩
    obtain ⟨n, hn⟩ : ∃ n, n + q = v.ndigits := ⟨v.ndigits - q, by omega⟩
    have hdi : (v.weight + 1) * DEC_DIGITS + rscale = 4 * n - t := by
      simp only [DEC_DIGITS]
      omega
    have hcount : (((4 * n - t : ℤ) + DEC_DIGITS - 1) / DEC_DIGITS).toNat = n := by
      simp only [DEC_DIGITS]
      omega
    have hmod : (4 * n - t : ℤ) % DEC_DIGITS = (4 - t : ℤ) % 4 := by
      simp only [DEC_DIGITS]
      omega
    have hcond : n < v.ndigits ∨ (n = v.ndigits ∧ 0 < (4 - t : ℤ) % 4) := by omega
    have hround := roundDigits_exact hd hn (by omega) ht (by omega) ⟨m, by rw [mul_comm]; exact hman⟩
    have hval := (value_drop_eq_zero hd hn (by
      rw [show Radix.value NBASE v.digits = v.mantissa from rfl, hman, pow_add, pow_mul]
      exact ⟨m * 10 ^ t, by norm_num; ring⟩)).2
    unfold roundVar
    rw [hdi]
    dsimp only
    rw [hcount, hmod, if_neg (by omega), if_pos hcond, hround]
    refine ⟨?_, fun d hd' => hd d (List.mem_of_mem_take hd'), rfl, rfl⟩
    have hlen : (v.digits.take n).length = n := by
      rw [List.length_take]
      unfold NumericVar.ndigits at hn
      omega
    rw [NumericVar.absVal, NumericVar.absVal, show v.mantissa = _ from hval]
    simp only [NumericVar.mantissa, NumericVar.ascale, NumericVar.ndigits, hlen]
    push_cast
    rw [mul_assoc, ← zpow_natCast, ← zpow_add₀ (by norm_num)]
    congr 2
    unfold NumericVar.ndigits at hn
    omega

variable {v1 v2 : NumericVar}

/-- `mul_var` asked for all the decimal digits of a product returns it exactly. -/
lemma mulVarShort_eq (h1 : v1.Normalized) (h2 : v2.Normalized) {rscale : ℕ}
    (hr : rscale = v1.dscale + v2.dscale) :
    IsResult (mulVarShort v1 v2 rscale) rscale (v1.toRat * v2.toRat) := by
  unfold mulVarShort
  by_cases hz : v1.ndigits = 0 ∨ v2.ndigits = 0
  · rw [if_pos hz]
    refine ⟨Radix.Digits.nil, rfl, ?_⟩
    rw [toRat_of_digits_nil rfl]
    rcases hz with hz | hz
    · rw [toRat_of_digits_nil (List.length_eq_zero_iff.mp hz), zero_mul]
    · rw [toRat_of_digits_nil (v := v2) (List.length_eq_zero_iff.mp hz), mul_zero]
  obtain ⟨hn1, hn2⟩ := not_or.mp hz
  have hne1 : v1.digits ≠ [] := fun h => hn1 (by simp [NumericVar.ndigits, h])
  have hne2 : v2.digits ≠ [] := fun h => hn2 (by simp [NumericVar.ndigits, h])
  have ha1 : v1.ascale = v1.ndigits - v1.weight - 1 := rfl
  have ha2 : v2.ascale = v2.ndigits - v2.weight - 1 := rfl
  have hb1 := h1.ascale_le hne1
  have hb2 := h2.ascale_le hne2
  -- no digit of the exact product is left out
  have hmin : min ((v1.ndigits + v2.ndigits + 1 : ℕ) : ℤ)
      (v1.weight + v2.weight + 2 + 1 + ((rscale + 4 - 1) / 4 : ℕ) + 2)
      = (v1.ndigits + v2.ndigits + 1 : ℕ) := by
    apply min_eq_left
    omega
  rw [if_neg hz]
  dsimp only
  rw [hmin, if_neg (by omega), Int.toNat_natCast,
    show min v1.ndigits (v1.ndigits + v2.ndigits + 1 - 2) = v1.ndigits by omega]
  have hinit : MulInv v1.digits v2.digits v1.ndigits (List.replicate (v1.ndigits + v2.ndigits + 1) 0) := by
    refine ⟨by simp [NumericVar.ndigits], fun x hx => ?_, ?_⟩
    · rw [(List.mem_replicate.mp hx).2]
    · rw [Radix.value_zeros, NumericVar.ndigits, List.drop_length, Radix.value_nil, zero_mul]
  have hinv := MulInv.rounds h1.digits h2.digits v1.ndigits
    (List.replicate (v1.ndigits + v2.ndigits + 1) 0, 0) (le_refl _) hinit
  generalize hdig : (List.foldl (mulRound v1.digits v2.digits (v1.ndigits + v2.ndigits + 1))
    (List.replicate (v1.ndigits + v2.ndigits + 1) 0, 0) (List.range v1.ndigits).reverse).1 = dig
  have hinv' : MulInv v1.digits v2.digits 0 dig := hdig ▸ hinv
  obtain ⟨hv, hd, hl⟩ := normalizeDig_eq hinv'.nonneg (hinv'.value_lt h1.digits h2.digits)
  rw [hinv'.value, List.drop_zero] at hv
  rw [hinv'.length] at hl
  generalize hw : (⟨if v1.sign = v2.sign then .pos else .neg, v1.weight + v2.weight + 2, 0,
    normalizeDig dig⟩ : NumericVar) = w
  have hwd : w.digits = normalizeDig dig := by rw [← hw]
  have hwm : w.mantissa = v1.mantissa * v2.mantissa := by
    rw [NumericVar.mantissa, hwd, hv]
    rfl
  have hwa : w.ascale = v1.ascale + v2.ascale := by
    rw [ha1, ha2, ← hw]
    simp only [NumericVar.ascale, NumericVar.ndigits, hl]
    push_cast
    ring
  have hwabs : w.absVal = v1.absVal * v2.absVal := by
    rw [NumericVar.absVal, NumericVar.absVal, NumericVar.absVal, hwm, hwa, neg_add,
      zpow_add₀ (by norm_num)]
    push_cast
    ring
  obtain ⟨r1, hr1⟩ := h1.dscale
  obtain ⟨r2, hr2⟩ := h2.dscale
  have hwr : w.absVal = ((r1 * r2 : ℤ) : ℚ) / 10 ^ rscale := by
    rw [hwabs, hr1, hr2, hr, pow_add]
    push_cast
    rw [div_mul_div_comm]
  have hpos : 0 < w.mantissa := by
    rw [hwm]
    exact mul_pos (h1.mantissa_pos hne1) (h2.mantissa_pos hne2)
  obtain ⟨hra, hrd, hrs, hrsign⟩ := roundVar_exact (hwd ▸ hd) hpos hwr
  refine ⟨stripVar_digits hrd, by rw [stripVar_dscale, hrs], ?_⟩
  rw [stripVar_toRat, NumericVar.toRat, hra, hrsign, hwabs, ← hw, NumericVar.toRat, NumericVar.toRat]
  rcases sign_cases v1 with hs1 | hs1 <;> rcases sign_cases v2 with hs2 | hs2 <;>
    simp [hs1, hs2, NumericSign.toInt]

lemma mulVar_eq (h1 : v1.Normalized) (h2 : v2.Normalized) :
    IsResult (mulVar v1 v2 (v1.dscale + v2.dscale)) (v1.dscale + v2.dscale) (v1.toRat * v2.toRat) := by
  unfold mulVar
  split
  · rw [mul_comm]
    exact mulVarShort_eq h2 h1 (add_comm _ _)
  · exact mulVarShort_eq h1 h2 rfl

end Product

/-! ## Exact results -/

section Exact

variable {v1 v2 : NumericVar}

lemma makeResult_of_isResult {v : NumericVar} {s : ℕ} {q : ℚ} (h : IsResult v s q) {m : ℤ}
    (hm : q = m / 10 ^ s) (hs : s ≤ 1000) (hq : |q| < 10000 ^ (100 : ℤ)) :
    ∃ r : NumericVar, makeResult v = pure r ∧ r.Normalized ∧ r.toRat = q ∧ r.dscale = s := by
  obtain ⟨hd, hds, hval⟩ := h
  have habs : v.absVal = |q| := by rw [← abs_toRat hd, hval]
  have hint : v.absVal = (|m| : ℤ) / 10 ^ v.dscale := by
    rw [habs, hm, abs_div, abs_of_pos (by positivity : (0 : ℚ) < 10 ^ s), hds, Int.cast_abs]
  obtain ⟨r, hr, hn, hrv, hrs⟩ := makeResult_eq hd ⟨_, hint⟩ (by omega) (by rw [habs]; exact hq)
  exact ⟨r, hr, hn, hrv.trans hval, hrs.trans hds⟩

/-- A normalized value has an integer at its display scale. -/
lemma NumericVar.Normalized.exists_unscaled {v : NumericVar} (hv : v.Normalized) :
    ∃ m : ℤ, v.toRat = m / 10 ^ v.dscale := by
  obtain ⟨r, hr⟩ := hv.dscale
  refine ⟨v.sign.toInt * r, ?_⟩
  rw [NumericVar.toRat, hr]
  push_cast
  ring

lemma unscaled_at {m : ℤ} {s t : ℕ} (h : s ≤ t) :
    (m : ℚ) / 10 ^ s = ((m * 10 ^ (t - s) : ℤ) : ℚ) / 10 ^ t := by
  push_cast
  rw [div_eq_div_iff (by positivity) (by positivity), mul_assoc, ← pow_add, Nat.sub_add_cancel h]

/-- The size of the plain operands that come from big integers. -/
def Small (v : NumericVar) : Prop := v.dscale ≤ 38 ∧ |v.toRat| ≤ 2 ^ 127

section

variable (h1 : v1.Normalized) (h2 : v2.Normalized) (hs1 : Small v1) (hs2 : Small v2)
include h1 h2 hs1 hs2

theorem numericAdd_eq :
    ∃ r : NumericVar, numericAdd v1 v2 = pure r ∧ r.Normalized ∧ r.toRat = v1.toRat + v2.toRat ∧
      r.dscale = max v1.dscale v2.dscale := by
  obtain ⟨m1, hm1⟩ := h1.exists_unscaled
  obtain ⟨m2, hm2⟩ := h2.exists_unscaled
  have hsum : v1.toRat + v2.toRat = ((m1 * 10 ^ (max v1.dscale v2.dscale - v1.dscale)
      + m2 * 10 ^ (max v1.dscale v2.dscale - v2.dscale) : ℤ) : ℚ) / 10 ^ max v1.dscale v2.dscale := by
    rw [hm1.trans (unscaled_at (le_max_left _ v2.dscale)),
      hm2.trans (unscaled_at (le_max_right v1.dscale _)), ← add_div, Int.cast_add]
  refine makeResult_of_isResult (addVar_eq h1 h2) hsum ?_ ?_
  · exact max_le (hs1.1.trans (by norm_num)) (hs2.1.trans (by norm_num))
  · calc |v1.toRat + v2.toRat| ≤ |v1.toRat| + |v2.toRat| := abs_add_le _ _
      _ ≤ 2 ^ 127 + 2 ^ 127 := add_le_add hs1.2 hs2.2
      _ < 10000 ^ (100 : ℤ) := by norm_num

theorem numericSub_eq :
    ∃ r : NumericVar, numericSub v1 v2 = pure r ∧ r.Normalized ∧ r.toRat = v1.toRat - v2.toRat ∧
      r.dscale = max v1.dscale v2.dscale := by
  obtain ⟨m1, hm1⟩ := h1.exists_unscaled
  obtain ⟨m2, hm2⟩ := h2.exists_unscaled
  have hdiff : v1.toRat - v2.toRat = ((m1 * 10 ^ (max v1.dscale v2.dscale - v1.dscale)
      - m2 * 10 ^ (max v1.dscale v2.dscale - v2.dscale) : ℤ) : ℚ) / 10 ^ max v1.dscale v2.dscale := by
    rw [hm1.trans (unscaled_at (le_max_left _ v2.dscale)),
      hm2.trans (unscaled_at (le_max_right v1.dscale _)), ← sub_div, Int.cast_sub]
  refine makeResult_of_isResult (subVar_eq h1 h2) hdiff ?_ ?_
  · exact max_le (hs1.1.trans (by norm_num)) (hs2.1.trans (by norm_num))
  · calc |v1.toRat - v2.toRat| ≤ |v1.toRat| + |v2.toRat| := abs_sub _ _
      _ ≤ 2 ^ 127 + 2 ^ 127 := add_le_add hs1.2 hs2.2
      _ < 10000 ^ (100 : ℤ) := by norm_num

theorem numericMul_eq :
    ∃ r : NumericVar, numericMul v1 v2 = pure r ∧ r.Normalized ∧ r.toRat = v1.toRat * v2.toRat ∧
      r.dscale = v1.dscale + v2.dscale := by
  obtain ⟨m1, hm1⟩ := h1.exists_unscaled
  obtain ⟨m2, hm2⟩ := h2.exists_unscaled
  have hprod : v1.toRat * v2.toRat = ((m1 * m2 : ℤ) : ℚ) / 10 ^ (v1.dscale + v2.dscale) := by
    rw [hm1, hm2, div_mul_div_comm, ← pow_add]
    push_cast
    rfl
  refine makeResult_of_isResult (mulVar_eq h1 h2) hprod ?_ ?_
  · have := hs1.1
    have := hs2.1
    omega
  · calc |v1.toRat * v2.toRat| = |v1.toRat| * |v2.toRat| := abs_mul _ _
      _ ≤ 2 ^ 127 * 2 ^ 127 := mul_le_mul hs1.2 hs2.2 (abs_nonneg _) (by norm_num)
      _ < 10000 ^ (100 : ℤ) := by norm_num

end

theorem cmpNumerics_eq (h1 : v1.Normalized) (h2 : v2.Normalized) :
    cmpNumerics v1 v2 = orderSign v1.toRat v2.toRat :=
  cmpVar_eq h1 h2

end Exact

end GaussKernel.Adt
