import GaussKernel.Adt.Var

/-!
# Fast arithmetic on big integers

The functions behind `BiFunMatrix`: two big integers are brought to one scale when that fits their type
and are then added, subtracted, multiplied or compared as machine integers; what does not fit goes to
the next wider type and, last, to the plain format. The results are exact on every path, and no signed
operation on the way wraps around, with one exception that the code provides for: the plain path takes
the absolute value of an operand through its unsigned type, and the sign change before it wraps for the
least value of the type.
-/

namespace GaussKernel.Adt

/-! ## Bringing two values to one scale -/

inductive BiAdjustScale where
  | ajustTrue | leftOutOfBound | rightOutOfBound
  deriving DecidableEq

structure Adjusted where
  overflow : BiAdjustScale
  resultScale : ℕ
  xScaled : ℤ
  yScaled : ℤ

/-- "use negative number is to avoid" the least value times -1. -/
def negativeAbs (width : ℕ) (y : ℤ) : Run ℤ := if y < 0 then pure y else signed width (-y)

/-- The common body of `adjustBi64ToSameScale` and `adjustBi128ToSameScale`: the width and the tables are
their own. A scaled value that is out of bound is not computed. -/
def adjustToSameScale (width : ℕ) (quotient multiplier : ℤ → Run ℤ) (x : ℤ) (xScale : ℕ) (y : ℤ)
    (yScale : ℕ) : Run Adjusted := do
  let deltaScale : ℤ := xScale - yScale
  if 0 ≤ deltaScale then do
    let tmpval ← negativeAbs width y
    let bound ← quotient deltaScale
    if bound ≤ tmpval then do
      let m ← multiplier deltaScale
      let yScaled ← signed width (y * m)
      pure ⟨.ajustTrue, xScale, x, yScaled⟩
    else pure ⟨.rightOutOfBound, xScale, x, 0⟩
  else do
    let tmpval ← negativeAbs width x
    let bound ← quotient (-deltaScale)
    if bound ≤ tmpval then do
      let m ← multiplier (-deltaScale)
      let xScaled ← signed width (x * m)
      pure ⟨.ajustTrue, yScale, xScaled, y⟩
    else pure ⟨.leftOutOfBound, yScale, 0, y⟩

def adjustBi64ToSameScale (x : ℤ) (xScale : ℕ) (y : ℤ) (yScale : ℕ) : Run Adjusted :=
  adjustToSameScale 64 int64MultiOutOfBound scaleMultipler x xScale y yScale

def adjustBi128ToSameScale (x : ℤ) (xScale : ℕ) (y : ℤ) (yScale : ℕ) : Run Adjusted :=
  adjustToSameScale 128 getScaleQuotient getScaleMultiplier x xScale y yScale

/-! ## The operations -/

/-- `NUMERIC_64VALUE` and `NUMERIC_BI_SCALE` of a `bi64`. -/
def numeric64Value : Numeric → Run (ℤ × ℕ)
  | .bi64 value scale => pure (value, scale)
  | _ => failure

/-- `Int128GetVal`: the template parameter says which of the two formats is read. -/
def int128GetVal : Bool → Numeric → Run (ℤ × ℕ)
  | true, .bi128 value scale => pure (value, scale)
  | false, .bi64 value scale => pure (value, scale)
  | _, _ => failure

/-- The common body of `bi64add64` and `bi64sub64`. -/
def bi64Linear (op : ℤ → ℤ → ℤ) (larg rarg : Numeric) : Run Numeric := do
  let (leftval, lvalscale) ← numeric64Value larg
  let (rightval, rvalscale) ← numeric64Value rarg
  let a ← adjustBi64ToSameScale leftval lvalscale rightval rvalscale
  match a.overflow with
  | .ajustTrue =>
    if InRange 64 (op a.xScaled a.yScaled) then
      pure (makeNumeric64 (op a.xScaled a.yScaled) a.resultScale)
    else do
      let bigResult ← signed 128 (op a.xScaled a.yScaled)
      pure (makeNumeric128 bigResult a.resultScale)
  | .rightOutOfBound => do
    let m ← getScaleMultiplier (a.resultScale - rvalscale)
    let right ← signed 128 (rightval * m)
    let bigResult ← signed 128 (op leftval right)
    pure (makeNumeric128 bigResult a.resultScale)
  | .leftOutOfBound => do
    let m ← getScaleMultiplier (a.resultScale - lvalscale)
    let left ← signed 128 (leftval * m)
    let bigResult ← signed 128 (op left rightval)
    pure (makeNumeric128 bigResult a.resultScale)

def bi64add64 : Numeric → Numeric → Run Numeric := bi64Linear (· + ·)

def bi64sub64 : Numeric → Numeric → Run Numeric := bi64Linear (· - ·)

/-- The plain path: both operands are converted and the routine for plain numerics is called. -/
def viaPlain (f : NumericVar → NumericVar → Run NumericVar) (larg rarg : Numeric) : Run Numeric := do
  let num1 ← makeNumericNormal larg
  let num2 ← makeNumericNormal rarg
  let res ← f num1 num2
  pure (.plain res)

/-- The common body of `bi128add128` and `bi128sub128`. -/
def bi128Linear (op : ℤ → ℤ → ℤ) (plain : NumericVar → NumericVar → Run NumericVar)
    (largIsInt128 rargIsInt128 : Bool) (larg rarg : Numeric) : Run Numeric := do
  let (leftval, lvalscale) ← int128GetVal largIsInt128 larg
  let (rightval, rvalscale) ← int128GetVal rargIsInt128 rarg
  let a ← adjustBi128ToSameScale leftval lvalscale rightval rvalscale
  if a.overflow = .ajustTrue ∧ InRange 128 (op a.xScaled a.yScaled) then
    pure (makeNumeric128 (op a.xScaled a.yScaled) a.resultScale)
  else viaPlain plain larg rarg

def bi128add128 : Bool → Bool → Numeric → Numeric → Run Numeric := bi128Linear (· + ·) numericAdd

def bi128sub128 : Bool → Bool → Numeric → Numeric → Run Numeric := bi128Linear (· - ·) numericSub

def bi64mul64 (larg rarg : Numeric) : Run Numeric := do
  let (leftval, lvalscale) ← numeric64Value larg
  let (rightval, rvalscale) ← numeric64Value rarg
  let resScale := lvalscale + rvalscale
  if resScale ≤ MAXINT64DIGIT ∧ InRange 64 (leftval * rightval) then
    pure (makeNumeric64 (leftval * rightval) resScale)
  else do
    let result ← signed 128 (leftval * rightval)
    pure (makeNumeric128 result resScale)

def bi128mul128 (largIsInt128 rargIsInt128 : Bool) (larg rarg : Numeric) : Run Numeric := do
  let (leftval, lvalscale) ← int128GetVal largIsInt128 larg
  let (rightval, rvalscale) ← int128GetVal rargIsInt128 rarg
  let resScale := lvalscale + rvalscale
  if resScale ≤ MAXINT128DIGIT ∧ InRange 128 (leftval * rightval) then
    pure (makeNumeric128 (leftval * rightval) resScale)
  else viaPlain numericMul larg rarg

/-! ## The comparisons -/

inductive BiCmp where
  | eq | neq | le | lt | ge | gt | cmp
  deriving DecidableEq

/-- The value a comparison operator returns for two ordered values. -/
def cmpResult {α : Type*} [LinearOrder α] (op : BiCmp) (x y : α) : ℤ :=
  match op with
  | .eq => if x = y then 1 else 0
  | .neq => if x ≠ y then 1 else 0
  | .le => if x ≤ y then 1 else 0
  | .lt => if x < y then 1 else 0
  | .ge => if y ≤ x then 1 else 0
  | .gt => if y < x then 1 else 0
  | .cmp => if y < x then 1 else if x < y then -1 else 0

def bi64cmp64 (op : BiCmp) (larg rarg : Numeric) : Run ℤ := do
  let (leftval, lvalscale) ← numeric64Value larg
  let (rightval, rvalscale) ← numeric64Value rarg
  let a ← adjustBi64ToSameScale leftval lvalscale rightval rvalscale
  match a.overflow, op with
  | .ajustTrue, op => pure (cmpResult op a.xScaled a.yScaled)
  -- out of bound on one side, "so leftval_scaled != right_scaled"
  | _, .eq => pure 0
  | _, .neq => pure 1
  | .rightOutOfBound, op => do
    let m ← getScaleMultiplier (a.resultScale - rvalscale)
    let right ← signed 128 (rightval * m)
    pure (cmpResult op leftval right)
  | .leftOutOfBound, op => do
    let m ← getScaleMultiplier (a.resultScale - lvalscale)
    let left ← signed 128 (leftval * m)
    pure (cmpResult op left rightval)

def bi128cmp128 (op : BiCmp) (largIsInt128 rargIsInt128 : Bool) (larg rarg : Numeric) : Run ℤ := do
  let (leftval, lvalscale) ← int128GetVal largIsInt128 larg
  let (rightval, rvalscale) ← int128GetVal rargIsInt128 rarg
  let a ← adjustBi128ToSameScale leftval lvalscale rightval rvalscale
  match a.overflow, op with
  | .ajustTrue, op => pure (cmpResult op a.xScaled a.yScaled)
  | _, .eq => pure 0
  | _, .neq => pure 1
  | _, op => do
    let num1 ← makeNumericNormal larg
    let num2 ← makeNumericNormal rarg
    let c := cmpNumerics num1 num2
    pure (if op = .cmp then c else cmpResult op c 0)

/-! ## `BiFunMatrix` -/

inductive BiOp where
  | add | sub | mul
  deriving DecidableEq

def isBi128 : Numeric → Bool
  | .bi128 _ _ => true
  | _ => false

/-- The rows of `BiFunMatrix` for `+`, `-` and `*`. -/
def biFunMatrix : BiOp → Bool → Bool → Numeric → Numeric → Run Numeric
  | .add, false, false => bi64add64
  | .add, l, r => bi128add128 l r
  | .sub, false, false => bi64sub64
  | .sub, l, r => bi128sub128 l r
  | .mul, false, false => bi64mul64
  | .mul, l, r => bi128mul128 l r

/-- The rows of `BiFunMatrix` for the comparisons. -/
def biCmpMatrix : BiCmp → Bool → Bool → Numeric → Numeric → Run ℤ
  | op, false, false => bi64cmp64 op
  | op, l, r => bi128cmp128 op l r

def bipickfun (op : BiOp) (leftc rightc : Numeric) : Run Numeric :=
  biFunMatrix op (isBi128 leftc) (isBi128 rightc) leftc rightc

def bipickcmp (op : BiCmp) (leftc rightc : Numeric) : Run ℤ :=
  biCmpMatrix op (isBi128 leftc) (isBi128 rightc) leftc rightc

/-! ## Scaling within the type -/

/-- What the tables have to say about one difference of scales: the quotient separates the values whose
scaled value fits from the others, and the multiplier scales those that fit. -/
def TableEntry (width : ℕ) (quotient multiplier : ℤ → Run ℤ) (delta : ℕ) : Prop :=
  ∃ b m, quotient delta = pure b ∧ multiplier delta = pure m ∧ ∀ y, InRange width y →
    (b ≤ -|y| → InRange width (y * 10 ^ delta) ∧ y * m = y * 10 ^ delta) ∧
    (¬ b ≤ -|y| → ¬ InRange width (y * 10 ^ delta))

/-- `MIN / 10^i` separates: no power of two is a multiple of ten, so a product that reaches the least
value does not occur. -/
lemma quotient_separates {w i : ℕ} (h10 : (2 : ℤ) ^ (w - 1) % 10 ≠ 0) {y : ℤ} (hy : InRange w y) :
    ((-2 ^ (w - 1) : ℤ).tdiv (10 ^ i) ≤ -|y| → InRange w (y * 10 ^ i)) ∧
    (¬ (-2 ^ (w - 1) : ℤ).tdiv (10 ^ i) ≤ -|y| → ¬ InRange w (y * 10 ^ i)) := by
  have hp : (0 : ℤ) < 10 ^ i := by positivity
  have hq : (-2 ^ (w - 1) : ℤ).tdiv (10 ^ i) = -(2 ^ (w - 1) / 10 ^ i) := by
    rw [Int.neg_tdiv, Int.tdiv_eq_ediv_of_nonneg (by positivity)]
  have hiff : (-(2 ^ (w - 1) / 10 ^ i) ≤ -|y|) ↔ |y| * 10 ^ i ≤ 2 ^ (w - 1) := by
    rw [neg_le_neg_iff, Int.le_ediv_iff_mul_le hp]
  have habs : |y * 10 ^ i| = |y| * 10 ^ i := by rw [abs_mul, abs_of_pos hp]
  rw [hq, hiff]
  constructor
  · intro hle
    cases i with
    | zero => simpa using hy
    | succ i =>
      apply inRange_of_abs_lt
      rw [habs]
      refine lt_of_le_of_ne hle fun heq => h10 ?_
      rw [← heq, pow_succ, ← mul_assoc]
      exact Int.mul_emod_left _ _
  · intro hnle hr
    exact hnle (habs ▸ hr.abs_le_pow)

lemma tableEntry_64 {delta : ℕ} (h : delta ≤ 19) :
    TableEntry 64 int64MultiOutOfBound scaleMultipler delta := by
  rcases Nat.lt_or_ge delta 19 with hlt | hge
  · refine ⟨_, _, int64MultiOutOfBound_eq (by omega), scaleMultipler_eq (by omega), ?_⟩
    intro y hy
    obtain ⟨h1, h2⟩ := quotient_separates (w := 64) (i := delta) (by norm_num) hy
    exact ⟨fun hb => ⟨h1 hb, rfl⟩, h2⟩
  · -- `10^19` is no `int64`: only zero can be scaled by it
    have hd : delta = 19 := by omega
    subst hd
    refine ⟨_, _, int64MultiOutOfBound_nineteen, scaleMultipler_nineteen, ?_⟩
    intro y hy
    constructor
    · intro hb
      have hz : y = 0 := abs_eq_zero.mp (le_antisymm (by linarith) (abs_nonneg y))
      rw [hz]
      exact ⟨by rw [zero_mul]; exact inRange_zero 64, by ring⟩
    · intro hb hr
      have h1 : 1 ≤ |y| := by omega
      have h2 := hr.abs_le_pow
      rw [abs_mul] at h2
      norm_num at h2
      linarith

lemma tableEntry_128 {delta : ℕ} (h : delta ≤ 38) :
    TableEntry 128 getScaleQuotient getScaleMultiplier delta := by
  refine ⟨_, _, getScaleQuotient_eq h, getScaleMultiplier_eq h, ?_⟩
  intro y hy
  obtain ⟨h1, h2⟩ := quotient_separates (w := 128) (i := delta) (by norm_num) hy
  exact ⟨fun hb => ⟨h1 hb, rfl⟩, h2⟩

variable {y x : Numeric} {qx qy : ℚ} {width xs ys : ℕ} {op : ℤ → ℤ → ℤ} {opq : ℚ → ℚ → ℚ}

lemma negativeAbs_eq {y : ℤ} (h : InRange width y) : negativeAbs width y = pure (-|y|) := by
  unfold negativeAbs
  by_cases hy : y < 0
  · rw [if_pos hy, abs_of_neg hy, neg_neg]
  · rw [if_neg hy, abs_of_nonneg (not_lt.mp hy)]
    refine signed_of_inRange ⟨?_, ?_⟩
    · linarith [h.2]
    · have : (0 : ℤ) < 2 ^ (width - 1) := by positivity
      linarith

/-- The outcome of bringing two values to the larger of their scales. -/
def AdjustSpec (width : ℕ) (x : ℤ) (xs : ℕ) (y : ℤ) (ys : ℕ) (a : Adjusted) : Prop :=
  a.resultScale = max xs ys ∧
  match a.overflow with
  | .ajustTrue => a.xScaled = x * 10 ^ (max xs ys - xs) ∧ a.yScaled = y * 10 ^ (max xs ys - ys) ∧
      InRange width a.xScaled ∧ InRange width a.yScaled
  | .rightOutOfBound => max xs ys = xs ∧ ¬ InRange width (y * 10 ^ (max xs ys - ys))
  | .leftOutOfBound => max xs ys = ys ∧ ¬ InRange width (x * 10 ^ (max xs ys - xs))

lemma adjustToSameScale_eq {top : ℕ} {quotient multiplier : ℤ → Run ℤ}
    (htab : ∀ delta ≤ top, TableEntry width quotient multiplier delta) {x y : ℤ} (hx : InRange width x)
    (hy : InRange width y) (hxs : xs ≤ top) (hys : ys ≤ top) :
    ∃ a, adjustToSameScale width quotient multiplier x xs y ys = pure a ∧
      AdjustSpec width x xs y ys a := by
  unfold adjustToSameScale AdjustSpec
  by_cases hd : (0 : ℤ) ≤ (xs : ℤ) - ys
  · obtain ⟨b, m, hb, hm, hsep⟩ := htab (xs - ys) (by omega)
    have hcast : (xs : ℤ) - ys = ((xs - ys : ℕ) : ℤ) := by omega
    have hmax : max xs ys = xs := by omega
    rw [if_pos hd, hcast, hb, hm, negativeAbs_eq hy, pure_bind, pure_bind, hmax]
    by_cases hle : b ≤ -|y|
    · obtain ⟨hin, hmul⟩ := (hsep y hy).1 hle
      refine ⟨⟨.ajustTrue, xs, x, y * 10 ^ (xs - ys)⟩, ?_, rfl, by simp, rfl, hx, hin⟩
      rw [if_pos hle, pure_bind, hmul, signed_of_inRange hin, pure_bind]
    · exact ⟨⟨.rightOutOfBound, xs, x, 0⟩, by rw [if_neg hle], rfl, rfl, (hsep y hy).2 hle⟩
  · obtain ⟨b, m, hb, hm, hsep⟩ := htab (ys - xs) (by omega)
    have hcast : -((xs : ℤ) - ys) = ((ys - xs : ℕ) : ℤ) := by omega
    have hmax : max xs ys = ys := by omega
    rw [if_neg hd, hcast, hb, hm, negativeAbs_eq hx, pure_bind, pure_bind, hmax]
    by_cases hle : b ≤ -|x|
    · obtain ⟨hin, hmul⟩ := (hsep x hx).1 hle
      refine ⟨⟨.ajustTrue, ys, x * 10 ^ (ys - xs), y⟩, ?_, rfl, rfl, by simp, hin, hy⟩
      rw [if_pos hle, pure_bind, hmul, signed_of_inRange hin, pure_bind]
    · exact ⟨⟨.leftOutOfBound, ys, 0, y⟩, by rw [if_neg hle], rfl, rfl, (hsep x hx).2 hle⟩

/-! ## The plain path -/

/-- A big integer in either format. -/
def IsBi : Numeric → Prop
  | .bi64 _ _ => True
  | .bi128 _ _ => True
  | _ => False

/-- The sign change of the conversion to the plain format. -/
def noteSign : Numeric → Run Unit
  | .bi64 value _ => noteMin 64 value
  | .bi128 value _ => noteMin 128 value
  | _ => pure ()

/-- The exact result `q` at display scale `s`, in a format that can hold it. -/
def ExactResult (r : Numeric) (q : ℚ) (s : ℕ) : Prop :=
  r.Valid ∧ r.toRat? = some q ∧ r.displayScale = s

lemma small_of_inRange {v : NumericVar} {x : ℤ} {s : ℕ} (hx : InRange 128 x) (hs : s ≤ 38)
    (hv : v.toRat = x / 10 ^ s) (hd : v.dscale = s) : Small v := by
  refine ⟨by omega, ?_⟩
  rw [hv, abs_div, abs_of_pos (by positivity : (0 : ℚ) < 10 ^ s)]
  have h1 : |(x : ℚ)| / 10 ^ s ≤ |(x : ℚ)| := div_le_self (abs_nonneg _) (one_le_pow₀ (by norm_num))
  have h2 : |(x : ℚ)| ≤ 2 ^ 127 := by exact_mod_cast hx.abs_le_pow
  exact h1.trans h2

lemma makeNumericNormal_eq (hx : x.Valid) (hb : IsBi x) :
    ∃ v, makeNumericNormal x = (noteSign x >>= fun _ => pure v) ∧ v.Normalized ∧
      x.toRat? = some v.toRat ∧ v.dscale = x.displayScale ∧ Small v := by
  cases x with
  | nan => exact hb.elim
  | plain _ => exact hb.elim
  | bi64 x s =>
    obtain ⟨v, hrun, hn, hv, hs⟩ := convertInt64ToNumeric_eq hx.1 hx.2
    refine ⟨v, hrun, hn, by rw [Numeric.toRat?, hv], hs, ?_⟩
    exact small_of_inRange (hx.1.mono (by norm_num)) (hx.2.trans (by norm_num)) hv hs
  | bi128 x s =>
    obtain ⟨v, hrun, hn, hv, hs⟩ := convertInt128ToNumeric_eq hx.1 hx.2
    exact ⟨v, hrun, hn, by rw [Numeric.toRat?, hv], hs, small_of_inRange hx.1 hx.2 hv hs⟩

/-- The plain path of an operation whose routine for plain numerics is exact. -/
lemma viaPlain_eq {f : NumericVar → NumericVar → Run NumericVar} (op : ℚ → ℚ → ℚ) (sc : ℕ → ℕ → ℕ)
    (hf : ∀ {v1 v2 : NumericVar}, v1.Normalized → v2.Normalized → Small v1 → Small v2 → ∃ r, f v1 v2 = pure r ∧
      r.Normalized ∧ r.toRat = op v1.toRat v2.toRat ∧ r.dscale = sc v1.dscale v2.dscale)
    (hx : x.Valid) (hy : y.Valid) (hbx : IsBi x) (hby : IsBi y) (hqx : x.toRat? = some qx)
    (hqy : y.toRat? = some qy) :
    ∃ v, viaPlain f x y = (noteSign x >>= fun _ => noteSign y >>= fun _ => pure (.plain v)) ∧
      ExactResult (.plain v) (op qx qy) (sc x.displayScale y.displayScale) := by
  obtain ⟨v1, hrun1, hn1, hv1, hs1, hsm1⟩ := makeNumericNormal_eq hx hbx
  obtain ⟨v2, hrun2, hn2, hv2, hs2, hsm2⟩ := makeNumericNormal_eq hy hby
  obtain ⟨r, hr, hn, hv, hs⟩ := hf hn1 hn2 hsm1 hsm2
  refine ⟨r, ?_, hn, ?_, ?_⟩
  · simp only [viaPlain, hrun1, hrun2, bind_assoc, pure_bind, hr]
  · rw [Numeric.toRat?, hv, Option.some_inj.mp (hv1.symm.trans hqx),
      Option.some_inj.mp (hv2.symm.trans hqy)]
  · rw [Numeric.displayScale, hs, hs1, hs2]

/-! ## Sums, differences, products -/

/-- What the proofs use of `+` and `-`. -/
structure LinearOp (op : ℤ → ℤ → ℤ) (opq : ℚ → ℚ → ℚ) : Prop where
  abs_le : ∀ a b, |op a b| ≤ |a| + |b|
  cast : ∀ a b : ℤ, ((op a b : ℤ) : ℚ) = opq a b
  div : ∀ a b c : ℚ, opq (a / c) (b / c) = opq a b / c

lemma linearOp_add : LinearOp (· + ·) (· + ·) :=
  ⟨fun a b => abs_add_le a b, fun a b => Int.cast_add a b, fun a b c => (add_div a b c).symm⟩

lemma linearOp_sub : LinearOp (· - ·) (· - ·) :=
  ⟨fun a b => abs_sub a b, fun a b => Int.cast_sub a b, fun a b c => (sub_div a b c).symm⟩

/-- The operation on values brought to one scale. -/
lemma LinearOp.value (h : LinearOp op opq) (x y : ℤ) (xs ys : ℕ) :
    opq (x / 10 ^ xs) (y / 10 ^ ys)
      = ((op (x * 10 ^ (max xs ys - xs)) (y * 10 ^ (max xs ys - ys)) : ℤ) : ℚ) / 10 ^ max xs ys := by
  have e1 := unscaled_at (m := x) (le_max_left xs ys)
  have e2 := unscaled_at (m := y) (le_max_right xs ys)
  rw [e1, e2, h.div, h.cast]

lemma exact_makeNumeric64 {z : ℤ} {s : ℕ} (hz : InRange 64 z) (hs : s ≤ 19) :
    ExactResult (makeNumeric64 z s) (z / 10 ^ s) s := by
  have hm : s % 256 = s := Nat.mod_eq_of_lt (by omega)
  rw [makeNumeric64, hm]
  exact ⟨⟨hz, hs⟩, rfl, rfl⟩

lemma exact_makeNumeric128 {z : ℤ} {s : ℕ} (hz : InRange 128 z) (hs : s ≤ 38) :
    ExactResult (makeNumeric128 z s) (z / 10 ^ s) s := by
  have hm : s % 256 = s := Nat.mod_eq_of_lt (by omega)
  rw [makeNumeric128, hm]
  exact ⟨⟨hz, hs⟩, rfl, rfl⟩

/-- An `int64` scaled by a power of ten up to `10^19` is an `int128` with room for another `int64`. -/
lemma abs_scaled_le {x : ℤ} (hx : InRange 64 x) {k : ℕ} (hk : k ≤ 19) :
    |x * 10 ^ k| ≤ 2 ^ 63 * 10 ^ 19 := by
  rw [abs_mul, abs_of_pos (by positivity : (0 : ℤ) < 10 ^ k)]
  exact mul_le_mul hx.abs_le_pow (pow_le_pow_right₀ (by norm_num) hk) (by positivity) (by norm_num)

lemma bi64Linear_eq (h : LinearOp op opq) {x y : ℤ} (hx : InRange 64 x) (hy : InRange 64 y)
    (hxs : xs ≤ 19) (hys : ys ≤ 19) :
    ∃ r, bi64Linear op (.bi64 x xs) (.bi64 y ys) = pure r ∧
      ExactResult r (opq (x / 10 ^ xs) (y / 10 ^ ys)) (max xs ys) := by
  obtain ⟨a, hrun, hscale, ha⟩ := adjustToSameScale_eq (fun _ hd => tableEntry_64 hd) hx hy hxs hys
  have hmax : max xs ys ≤ 19 := max_le hxs hys
  have hX := abs_scaled_le hx (k := max xs ys - xs) (by omega)
  have hY := abs_scaled_le hy (k := max xs ys - ys) (by omega)
  have hx63 := hx.abs_le_pow
  have hy63 := hy.abs_le_pow
  have hXr : signed 128 (x * 10 ^ (max xs ys - xs)) = pure (x * 10 ^ (max xs ys - xs)) :=
    signed_of_inRange (inRange_of_abs_lt (hX.trans_lt (by norm_num)))
  have hYr : signed 128 (y * 10 ^ (max xs ys - ys)) = pure (y * 10 ^ (max xs ys - ys)) :=
    signed_of_inRange (inRange_of_abs_lt (hY.trans_lt (by norm_num)))
  rw [h.value]
  generalize hz : op (x * 10 ^ (max xs ys - xs)) (y * 10 ^ (max xs ys - ys)) = z
  have habs : |z| ≤ |x * 10 ^ (max xs ys - xs)| + |y * 10 ^ (max xs ys - ys)| := hz ▸ h.abs_le _ _
  unfold bi64Linear adjustBi64ToSameScale
  simp only [numeric64Value, pure_bind, hrun]
  cases hov : a.overflow with
  | ajustTrue =>
    rw [hov] at ha
    obtain ⟨e1, e2, r1, r2⟩ := ha
    have hzv : op a.xScaled a.yScaled = z := by rw [e1, e2, hz]
    have hb1 := r1.abs_le_pow
    have hb2 := r2.abs_le_pow
    have hz128 : InRange 128 z := by
      apply inRange_of_abs_lt
      rw [← hzv]
      exact (h.abs_le _ _).trans_lt (lt_of_le_of_lt (add_le_add hb1 hb2) (by norm_num))
    dsimp only
    rw [hzv, hscale]
    by_cases hin : InRange 64 z
    · exact ⟨_, if_pos hin, exact_makeNumeric64 hin hmax⟩
    · refine ⟨makeNumeric128 z (max xs ys), ?_, exact_makeNumeric128 hz128 (by omega)⟩
      rw [if_neg hin, signed_of_inRange hz128, pure_bind]
  | rightOutOfBound =>
    rw [hov] at ha
    have hleft : x * 10 ^ (max xs ys - xs) = x := by rw [ha.1, Nat.sub_self, pow_zero, mul_one]
    have hz128 : InRange 128 z := by
      apply inRange_of_abs_lt
      rw [hleft] at habs
      exact habs.trans_lt (lt_of_le_of_lt (add_le_add hx63 hY) (by norm_num))
    rw [hleft] at hz
    refine ⟨makeNumeric128 z (max xs ys), ?_, exact_makeNumeric128 hz128 (by omega)⟩
    dsimp only
    rw [hscale, show ((max xs ys : ℕ) : ℤ) - ys = ((max xs ys - ys : ℕ) : ℤ) by omega,
      getScaleMultiplier_eq (by omega), pure_bind, hYr, pure_bind, hz, signed_of_inRange hz128, pure_bind]
  | leftOutOfBound =>
    rw [hov] at ha
    have hright : y * 10 ^ (max xs ys - ys) = y := by rw [ha.1, Nat.sub_self, pow_zero, mul_one]
    have hz128 : InRange 128 z := by
      apply inRange_of_abs_lt
      rw [hright] at habs
      exact habs.trans_lt (lt_of_le_of_lt (add_le_add hX hy63) (by norm_num))
    rw [hright] at hz
    refine ⟨makeNumeric128 z (max xs ys), ?_, exact_makeNumeric128 hz128 (by omega)⟩
    dsimp only
    rw [hscale, show ((max xs ys : ℕ) : ℤ) - xs = ((max xs ys - xs : ℕ) : ℤ) by omega,
      getScaleMultiplier_eq (by omega), pure_bind, hXr, pure_bind, hz, signed_of_inRange hz128, pure_bind]

lemma bi64mul64_eq {x y : ℤ} (hx : InRange 64 x) (hy : InRange 64 y) (hxs : xs ≤ 19) (hys : ys ≤ 19) :
    ∃ r, bi64mul64 (.bi64 x xs) (.bi64 y ys) = pure r ∧
      ExactResult r (x / 10 ^ xs * (y / 10 ^ ys)) (xs + ys) := by
  have hq : (x : ℚ) / 10 ^ xs * (y / 10 ^ ys) = ((x * y : ℤ) : ℚ) / 10 ^ (xs + ys) := by
    rw [div_mul_div_comm, ← pow_add, Int.cast_mul]
  have hz128 : InRange 128 (x * y) := by
    apply inRange_of_abs_lt
    rw [abs_mul]
    exact lt_of_le_of_lt (mul_le_mul hx.abs_le_pow hy.abs_le_pow (abs_nonneg _) (by norm_num))
      (by norm_num)
  rw [hq]
  unfold bi64mul64
  simp only [numeric64Value, pure_bind]
  by_cases hc : xs + ys ≤ MAXINT64DIGIT ∧ InRange 64 (x * y)
  · exact ⟨_, if_pos hc, exact_makeNumeric64 hc.2 hc.1⟩
  · refine ⟨makeNumeric128 (x * y) (xs + ys), ?_, exact_makeNumeric128 hz128 (by omega)⟩
    rw [if_neg hc, signed_of_inRange hz128, pure_bind]

/-- An operand of the functions for 128 bits, in the format the template parameter names. -/
lemma int128GetVal_eq (hx : x.Valid) (hb : IsBi x) :
    ∃ z s, int128GetVal (isBi128 x) x = pure (z, s) ∧ InRange 128 z ∧ s ≤ 38 ∧
      x.toRat? = some ((z : ℚ) / 10 ^ s) ∧ x.displayScale = s := by
  cases x with
  | nan => exact hb.elim
  | plain _ => exact hb.elim
  | bi64 z s => exact ⟨z, s, rfl, hx.1.mono (by norm_num), hx.2.trans (by norm_num), rfl, rfl⟩
  | bi128 z s => exact ⟨z, s, rfl, hx.1, hx.2, rfl, rfl⟩

/-- A run that takes one of the integer paths, or the plain path with the sign changes in front. -/
def FastOrPlain (x y : Numeric) (run : Run Numeric) (r : Numeric) : Prop :=
  run = pure r ∨
    (∃ v, r = .plain v) ∧ run = (noteSign x >>= fun _ => noteSign y >>= fun _ => pure r)

lemma bi128Linear_eq (h : LinearOp op opq) {plain : NumericVar → NumericVar → Run NumericVar}
    (hp : ∀ {v1 v2 : NumericVar}, v1.Normalized → v2.Normalized → Small v1 → Small v2 → ∃ r, plain v1 v2 = pure r ∧
      r.Normalized ∧ r.toRat = opq v1.toRat v2.toRat ∧ r.dscale = max v1.dscale v2.dscale)
    (hx : x.Valid) (hy : y.Valid) (hbx : IsBi x) (hby : IsBi y) (hqx : x.toRat? = some qx)
    (hqy : y.toRat? = some qy) :
    ∃ r, FastOrPlain x y (bi128Linear op plain (isBi128 x) (isBi128 y) x y) r ∧
      ExactResult r (opq qx qy) (max x.displayScale y.displayScale) := by
  obtain ⟨zx, xs, hgx, hrx, hxs, hvx, hdx⟩ := int128GetVal_eq hx hbx
  obtain ⟨zy, ys, hgy, hry, hys, hvy, hdy⟩ := int128GetVal_eq hy hby
  obtain ⟨a, hrun, hscale, ha⟩ := adjustToSameScale_eq (fun _ hd => tableEntry_128 hd) hrx hry hxs hys
  obtain ⟨v, hplain, hexact⟩ := viaPlain_eq opq max hp hx hy hbx hby hqx hqy
  have hex : qx = zx / 10 ^ xs := Option.some_inj.mp (hqx.symm.trans hvx)
  have hey : qy = zy / 10 ^ ys := Option.some_inj.mp (hqy.symm.trans hvy)
  unfold bi128Linear adjustBi128ToSameScale
  simp only [hgx, hgy, pure_bind, hrun]
  by_cases hc : a.overflow = .ajustTrue ∧ InRange 128 (op a.xScaled a.yScaled)
  · rw [hc.1] at ha
    obtain ⟨e1, e2, _, _⟩ := ha
    refine ⟨makeNumeric128 (op a.xScaled a.yScaled) a.resultScale, .inl (if_pos hc), ?_⟩
    have := exact_makeNumeric128 hc.2 (s := max xs ys) (max_le hxs hys)
    rw [hscale, hex, hey, h.value, hdx, hdy, ← e1, ← e2]
    exact this
  · exact ⟨.plain v, .inr ⟨⟨v, rfl⟩, by rw [if_neg hc, hplain]⟩, hexact⟩

lemma bi128mul128_eq (hx : x.Valid) (hy : y.Valid) (hbx : IsBi x) (hby : IsBi y)
    (hqx : x.toRat? = some qx) (hqy : y.toRat? = some qy) :
    ∃ r, FastOrPlain x y (bi128mul128 (isBi128 x) (isBi128 y) x y) r ∧
      ExactResult r (qx * qy) (x.displayScale + y.displayScale) := by
  obtain ⟨zx, xs, hgx, hrx, hxs, hvx, hdx⟩ := int128GetVal_eq hx hbx
  obtain ⟨zy, ys, hgy, hry, hys, hvy, hdy⟩ := int128GetVal_eq hy hby
  obtain ⟨v, hplain, hexact⟩ := viaPlain_eq (· * ·) (· + ·) numericMul_eq hx hy hbx hby
    hqx hqy
  have hq : qx * qy = ((zx * zy : ℤ) : ℚ) / 10 ^ (xs + ys) := by
    rw [Option.some_inj.mp (hqx.symm.trans hvx), Option.some_inj.mp (hqy.symm.trans hvy),
      div_mul_div_comm, ← pow_add, Int.cast_mul]
  unfold bi128mul128
  simp only [hgx, hgy, pure_bind]
  by_cases hc : xs + ys ≤ MAXINT128DIGIT ∧ InRange 128 (zx * zy)
  · refine ⟨makeNumeric128 (zx * zy) (xs + ys), .inl (if_pos hc), ?_⟩
    rw [hq, hdx, hdy]
    exact exact_makeNumeric128 hc.2 hc.1
  · exact ⟨.plain v, .inr ⟨⟨v, rfl⟩, by rw [if_neg hc, hplain]⟩, hexact⟩

/-! ## Order -/

lemma cmpResult_strictMono {α β : Type*} [LinearOrder α] [LinearOrder β] {f : α → β} (hf : StrictMono f)
    (op : BiCmp) (x y : α) : cmpResult op (f x) (f y) = cmpResult op x y := by
  cases op <;> simp only [cmpResult, hf.lt_iff_lt, hf.le_iff_le, hf.injective.eq_iff, ne_eq]

/-- Two values at one scale compare as the rationals they stand for. -/
lemma cmpResult_scaled (op : BiCmp) (x y : ℤ) (xs ys : ℕ) :
    cmpResult op ((x : ℚ) / 10 ^ xs) (y / 10 ^ ys)
      = cmpResult op (x * 10 ^ (max xs ys - xs)) (y * 10 ^ (max xs ys - ys)) := by
  have e1 := unscaled_at (m := x) (le_max_left xs ys)
  have e2 := unscaled_at (m := y) (le_max_right xs ys)
  have hmono : StrictMono fun z : ℤ => (z : ℚ) / 10 ^ max xs ys := by
    intro a b hab
    exact div_lt_div_of_pos_right (Int.cast_lt.mpr hab) (by positivity)
  rw [e1, e2]
  exact cmpResult_strictMono hmono op _ _

lemma cmpResult_eq_of_ne {α : Type*} [LinearOrder α] {x y : α} (h : x ≠ y) : cmpResult .eq x y = 0 :=
  if_neg h

lemma cmpResult_neq_of_ne {α : Type*} [LinearOrder α] {x y : α} (h : x ≠ y) : cmpResult .neq x y = 1 :=
  if_pos h

/-- A side that is out of bound differs from the other side, which is not. -/
lemma AdjustSpec.ne {x y : ℤ} {a : Adjusted} (hx : InRange width x) (hy : InRange width y)
    (ha : AdjustSpec width x xs y ys a) (hov : a.overflow ≠ .ajustTrue) :
    x * 10 ^ (max xs ys - xs) ≠ y * 10 ^ (max xs ys - ys) := by
  obtain ⟨_, ha⟩ := ha
  cases h : a.overflow with
  | ajustTrue => exact (hov h).elim
  | rightOutOfBound =>
    rw [h] at ha
    intro heq
    refine ha.2 (heq ▸ ?_)
    rwa [ha.1, Nat.sub_self, pow_zero, mul_one]
  | leftOutOfBound =>
    rw [h] at ha
    intro heq
    refine ha.2 (heq ▸ ?_)
    rwa [ha.1, Nat.sub_self, pow_zero, mul_one]

lemma bi64cmp64_eq (op : BiCmp) {x y : ℤ} (hx : InRange 64 x) (hy : InRange 64 y) (hxs : xs ≤ 19)
    (hys : ys ≤ 19) :
    bi64cmp64 op (.bi64 x xs) (.bi64 y ys)
      = pure (cmpResult op ((x : ℚ) / 10 ^ xs) (y / 10 ^ ys)) := by
  obtain ⟨a, hrun, hspec⟩ := adjustToSameScale_eq (fun _ hd => tableEntry_64 hd) hx hy hxs hys
  have hXr : signed 128 (x * 10 ^ (max xs ys - xs)) = pure (x * 10 ^ (max xs ys - xs)) :=
    signed_of_inRange (inRange_of_abs_lt ((abs_scaled_le hx (by omega)).trans_lt (by norm_num)))
  have hYr : signed 128 (y * 10 ^ (max xs ys - ys)) = pure (y * 10 ^ (max xs ys - ys)) :=
    signed_of_inRange (inRange_of_abs_lt ((abs_scaled_le hy (by omega)).trans_lt (by norm_num)))
  have hne := hspec.ne hx hy
  obtain ⟨hscale, ha⟩ := hspec
  rw [cmpResult_scaled]
  unfold bi64cmp64 adjustBi64ToSameScale
  simp only [numeric64Value, pure_bind, hrun]
  cases hov : a.overflow with
  | ajustTrue =>
    rw [hov] at ha
    rw [← ha.1, ← ha.2.1]
  | rightOutOfBound =>
    rw [hov] at ha
    replace hne := hne (by rw [hov]; decide)
    have hleft : x * 10 ^ (max xs ys - xs) = x := by rw [ha.1, Nat.sub_self, pow_zero, mul_one]
    have hm : getScaleMultiplier ((a.resultScale : ℤ) - ys) = pure (10 ^ (max xs ys - ys)) := by
      rw [hscale, show ((max xs ys : ℕ) : ℤ) - ys = ((max xs ys - ys : ℕ) : ℤ) by omega]
      exact getScaleMultiplier_eq (by omega)
    cases op with
    | eq => rw [cmpResult_eq_of_ne hne]
    | neq => rw [cmpResult_neq_of_ne hne]
    | le | lt | ge | gt | cmp =>
      dsimp only
      rw [hm, pure_bind, hYr, pure_bind, hleft]
  | leftOutOfBound =>
    rw [hov] at ha
    replace hne := hne (by rw [hov]; decide)
    have hright : y * 10 ^ (max xs ys - ys) = y := by rw [ha.1, Nat.sub_self, pow_zero, mul_one]
    have hm : getScaleMultiplier ((a.resultScale : ℤ) - xs) = pure (10 ^ (max xs ys - xs)) := by
      rw [hscale, show ((max xs ys : ℕ) : ℤ) - xs = ((max xs ys - xs : ℕ) : ℤ) by omega]
      exact getScaleMultiplier_eq (by omega)
    cases op with
    | eq => rw [cmpResult_eq_of_ne hne]
    | neq => rw [cmpResult_neq_of_ne hne]
    | le | lt | ge | gt | cmp =>
      dsimp only
      rw [hm, pure_bind, hXr, pure_bind, hright]

/-- The result of `cmp_numerics` compares with zero as its operands compare with each other. -/
lemma cmpResult_orderSign {α : Type*} [LinearOrder α] (op : BiCmp) (x y : α) :
    (if op = .cmp then orderSign x y else cmpResult op (orderSign x y) 0) = cmpResult op x y := by
  rcases lt_trichotomy x y with h | h | h
  · rw [orderSign_lt h]
    cases op <;> simp [cmpResult, h, h.le, h.ne, not_lt.mpr h.le, not_le.mpr h]
  · rw [h, orderSign_self]
    cases op <;> simp [cmpResult]
  · rw [orderSign_gt h]
    cases op <;> simp [cmpResult, h, h.le, h.ne', not_lt.mpr h.le, not_le.mpr h]

lemma bi128cmp128_eq (op : BiCmp) (hx : x.Valid) (hy : y.Valid) (hbx : IsBi x) (hby : IsBi y)
    (hqx : x.toRat? = some qx) (hqy : y.toRat? = some qy) :
    bi128cmp128 op (isBi128 x) (isBi128 y) x y = pure (cmpResult op qx qy) ∨
    bi128cmp128 op (isBi128 x) (isBi128 y) x y
      = (noteSign x >>= fun _ => noteSign y >>= fun _ => pure (cmpResult op qx qy)) := by
  obtain ⟨zx, xs, hgx, hrx, hxs, hvx, _⟩ := int128GetVal_eq hx hbx
  obtain ⟨zy, ys, hgy, hry, hys, hvy, _⟩ := int128GetVal_eq hy hby
  obtain ⟨a, hrun, hspec⟩ := adjustToSameScale_eq (fun _ hd => tableEntry_128 hd) hrx hry hxs hys
  obtain ⟨v1, hrun1, hn1, hv1, _, _⟩ := makeNumericNormal_eq hx hbx
  obtain ⟨v2, hrun2, hn2, hv2, _, _⟩ := makeNumericNormal_eq hy hby
  have hne := hspec.ne hrx hry
  obtain ⟨_, ha⟩ := hspec
  have hscaled : cmpResult op qx qy
      = cmpResult op (zx * 10 ^ (max xs ys - xs)) (zy * 10 ^ (max xs ys - ys)) := by
    rw [Option.some_inj.mp (hqx.symm.trans hvx), Option.some_inj.mp (hqy.symm.trans hvy),
      cmpResult_scaled]
  have hplain : (if op = .cmp then cmpNumerics v1 v2 else cmpResult op (cmpNumerics v1 v2) 0)
      = cmpResult op qx qy := by
    rw [cmpNumerics_eq hn1 hn2, cmpResult_orderSign, Option.some_inj.mp (hv1.symm.trans hqx),
      Option.some_inj.mp (hv2.symm.trans hqy)]
  unfold bi128cmp128 adjustBi128ToSameScale
  simp only [hgx, hgy, pure_bind, hrun, hrun1, hrun2, bind_assoc]
  by_cases hov : a.overflow = .ajustTrue
  · rw [hov] at ha
    left
    rw [hscaled, hov, ← ha.1, ← ha.2.1]
  · replace hne := hne hov
    cases op with
    | eq =>
      left
      rw [hscaled, cmpResult_eq_of_ne hne]
      cases h : a.overflow <;> first | exact (hov h).elim | rfl
    | neq =>
      left
      rw [hscaled, cmpResult_neq_of_ne hne]
      cases h : a.overflow <;> first | exact (hov h).elim | rfl
    | le | lt | ge | gt | cmp =>
      right
      rw [← hplain]
      cases h : a.overflow <;> first | exact (hov h).elim | rfl

/-! ## Exactness of the fast functions -/

/-- The operand is the least value of its type. -/
def HoldsLeast : Numeric → Prop
  | .bi64 value _ => value = -2 ^ 63
  | .bi128 value _ => value = -2 ^ 127
  | _ => False

lemma noteSign_run (x : Numeric) (flag : Bool) :
    ∃ flag', (noteSign x).run flag = some ((), flag') ∧ (flag' = true → flag = true ∨ HoldsLeast x) := by
  cases x with
  | nan => exact ⟨flag, rfl, .inl⟩
  | plain _ => exact ⟨flag, rfl, .inl⟩
  | bi64 z _ =>
    by_cases hz : z = -2 ^ 63
    · exact ⟨true, by rw [noteSign, noteMin, if_pos hz]; rfl, fun _ => .inr hz⟩
    · exact ⟨flag, by rw [noteSign, noteMin, if_neg hz]; rfl, .inl⟩
  | bi128 z _ =>
    by_cases hz : z = -2 ^ 127
    · exact ⟨true, by rw [noteSign, noteMin, if_pos hz]; rfl, fun _ => .inr hz⟩
    · exact ⟨flag, by rw [noteSign, noteMin, if_neg hz]; rfl, .inl⟩

/-- Both sign changes of the plain path: they wrap only for an operand that is the least value. -/
lemma noteSigns_run {α : Type} (x y : Numeric) (r : α) :
    ∃ flag, (noteSign x >>= fun _ => noteSign y >>= fun _ => pure r).run false = some (r, flag) ∧
      (flag = true → HoldsLeast x ∨ HoldsLeast y) := by
  obtain ⟨f1, h1, hl1⟩ := noteSign_run x false
  obtain ⟨f2, h2, hl2⟩ := noteSign_run y f1
  refine ⟨f2, ?_, ?_⟩
  · simp only [StateT.run_bind, h1, Option.bind_eq_bind, Option.bind_some, h2]
    rfl
  · intro hf
    rcases hl2 hf with h | h
    · exact .inl ((hl1 h).resolve_left (by decide))
    · exact .inr h

lemma FastOrPlain.run {m : Run Numeric} {r : Numeric} (h : FastOrPlain x y m r) :
    ∃ flag, m.run false = some (r, flag) ∧
      (flag = true → (∃ v, r = .plain v) ∧ (HoldsLeast x ∨ HoldsLeast y)) := by
  rcases h with h | ⟨hv, h⟩
  · exact ⟨false, by rw [h]; rfl, fun hf => absurd hf (by decide)⟩
  · obtain ⟨flag, hrun, hflag⟩ := noteSigns_run x y r
    exact ⟨flag, by rw [h, hrun], fun hf => ⟨hv, hflag hf⟩⟩

def BiOp.apply : BiOp → ℚ → ℚ → ℚ
  | .add => (· + ·)
  | .sub => (· - ·)
  | .mul => (· * ·)

/-- The display scale of a result. -/
def BiOp.scale : BiOp → ℕ → ℕ → ℕ
  | .add | .sub => max
  | .mul => (· + ·)

lemma bipickfun_fastOrPlain (op : BiOp) (hx : x.Valid) (hy : y.Valid) (hbx : IsBi x) (hby : IsBi y)
    (hqx : x.toRat? = some qx) (hqy : y.toRat? = some qy) :
    ∃ r, FastOrPlain x y (bipickfun op x y) r ∧
      ExactResult r (op.apply qx qy) (op.scale x.displayScale y.displayScale) := by
  have hadd := bi128Linear_eq linearOp_add numericAdd_eq hx hy hbx hby hqx hqy
  have hsub := bi128Linear_eq linearOp_sub numericSub_eq hx hy hbx hby hqx hqy
  have hmul := bi128mul128_eq hx hy hbx hby hqx hqy
  cases x with
  | nan => exact hbx.elim
  | plain _ => exact hbx.elim
  | bi128 a s => cases op <;> assumption
  | bi64 a s =>
    cases y with
    | nan => exact hby.elim
    | plain _ => exact hby.elim
    | bi128 b t => cases op <;> assumption
    | bi64 b t =>
      -- two `bi64`: the only pair with functions of its own
      cases hqx
      cases hqy
      cases op with
      | add =>
        obtain ⟨r, hrun, hr⟩ := bi64Linear_eq linearOp_add hx.1 hy.1 hx.2 hy.2
        exact ⟨r, .inl hrun, hr⟩
      | sub =>
        obtain ⟨r, hrun, hr⟩ := bi64Linear_eq linearOp_sub hx.1 hy.1 hx.2 hy.2
        exact ⟨r, .inl hrun, hr⟩
      | mul =>
        obtain ⟨r, hrun, hr⟩ := bi64mul64_eq hx.1 hy.1 hx.2 hy.2
        exact ⟨r, .inl hrun, hr⟩

lemma bipickcmp_run (op : BiCmp) (hx : x.Valid) (hy : y.Valid) (hbx : IsBi x) (hby : IsBi y)
    (hqx : x.toRat? = some qx) (hqy : y.toRat? = some qy) :
    ∃ flag, (bipickcmp op x y).run false = some (cmpResult op qx qy, flag) ∧
      (flag = true → HoldsLeast x ∨ HoldsLeast y) := by
  have hwide : ∃ flag, (bi128cmp128 op (isBi128 x) (isBi128 y) x y).run false
        = some (cmpResult op qx qy, flag) ∧ (flag = true → HoldsLeast x ∨ HoldsLeast y) := by
    rcases bi128cmp128_eq op hx hy hbx hby hqx hqy with h | h
    · exact ⟨false, by rw [h]; rfl, fun hf => absurd hf (by decide)⟩
    · rw [h]
      exact noteSigns_run x y _
  cases x with
  | nan => exact hbx.elim
  | plain _ => exact hbx.elim
  | bi128 a s => exact hwide
  | bi64 a s =>
    cases y with
    | nan => exact hby.elim
    | plain _ => exact hby.elim
    | bi128 b t => exact hwide
    | bi64 b t =>
      cases hqx
      cases hqy
      refine ⟨false, ?_, fun hf => absurd hf (by decide)⟩
      have hrun : bipickcmp op (.bi64 a s) (.bi64 b t) = pure (cmpResult op _ _) :=
        bi64cmp64_eq op hx.1 hy.1 hx.2 hy.2
      rw [hrun]
      rfl

/-- Fast arithmetic and fast comparison are exact for every two big integers, and the only signed
operation that can wrap is the sign change of the plain path for an operand that is the least value of
its type, which `uint128` then reads back as the absolute value. -/
theorem biFunMatrix_exact {x y : Numeric} (hx : x.Valid) (hy : y.Valid) (hbx : IsBi x) (hby : IsBi y)
    {qx qy : ℚ} (hqx : x.toRat? = some qx) (hqy : y.toRat? = some qy) :
    (∀ op, ∃ r flag, (bipickfun op x y).run false = some (r, flag) ∧
      ExactResult r (op.apply qx qy) (op.scale x.displayScale y.displayScale) ∧
      (flag = true → (∃ v, r = .plain v) ∧ (HoldsLeast x ∨ HoldsLeast y))) ∧
    (∀ op, ∃ flag, (bipickcmp op x y).run false = some (cmpResult op qx qy, flag) ∧
      (flag = true → HoldsLeast x ∨ HoldsLeast y)) := by
  constructor
  · intro op
    obtain ⟨r, hrun, hr⟩ := bipickfun_fastOrPlain op hx hy hbx hby hqx hqy
    obtain ⟨flag, hflag⟩ := hrun.run
    exact ⟨r, flag, hflag.1, hr, hflag.2⟩
  · intro op
    exact bipickcmp_run op hx hy hbx hby hqx hqy

/-- The least `int64` at scale 19 plus one at scale 0: neither scales within 64 bits. -/
theorem biFunMatrix_exact_least : (Numeric.bi64 (-2 ^ 63) 19).Valid ∧ (Numeric.bi64 1 0).Valid ∧
    ∃ r flag, (bipickfun .add (.bi64 (-2 ^ 63) 19) (.bi64 1 0)).run false = some (r, flag) ∧
      r.toRat? = some (((-2 ^ 63 : ℤ) : ℚ) / 10 ^ 19 + ((1 : ℤ) : ℚ) / 10 ^ 0) := by
  have hx : (Numeric.bi64 (-2 ^ 63) 19).Valid := ⟨by decide, by decide⟩
  have hy : (Numeric.bi64 1 0).Valid := ⟨by decide, by decide⟩
  obtain ⟨r, flag, hrun, hr, _⟩ := (biFunMatrix_exact hx hy trivial trivial rfl rfl).1 .add
  exact ⟨hx, hy, r, flag, hrun, hr.2.1⟩

/-- The least `int128` plus -1 does not fit, and its conversion to the plain format wraps around. -/
theorem sign_change_of_least_wraps :
    ((bipickfun .add (.bi128 (-2 ^ 127) 0) (.bi128 (-1) 0)).run false).map Prod.snd = some true := by
  decide +kernel

end GaussKernel.Adt
