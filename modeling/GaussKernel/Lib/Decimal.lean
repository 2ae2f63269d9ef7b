import Mathlib

/-!
# Decimal text

Digit strings and their values, numbers printed with zeros in front, and the decimal text of a scaled integer.
-/

namespace GaussKernel.Lib

/-- The number that digits spell. -/
def spelled (cs : List Char) : ℕ := Nat.ofDigitChars 10 cs 0

/-- The digits of `n` with zeros in front up to `width`. -/
def zeroPadded (width n : ℕ) : List Char :=
  List.replicate (width - (Nat.toDigits 10 n).length) '0' ++ Nat.toDigits 10 n

lemma spelled_append (cs cs' : List Char) : spelled (cs ++ cs') = spelled cs * 10 ^ cs'.length + spelled cs' := by
  rw [spelled, Nat.ofDigitChars_append, Nat.ofDigitChars_eq_ofDigitChars_zero, Nat.mul_comm]
  rfl

@[simp]
lemma spelled_toDigits (n : ℕ) : spelled (Nat.toDigits 10 n) = n := Nat.ofDigitChars_ten_toDigits

@[simp]
lemma spelled_zeroPadded (width n : ℕ) : spelled (zeroPadded width n) = n := by
  have hzeros : ∀ k : ℕ, spelled (List.replicate k '0') = 0 := fun k => by simp [spelled]
  rw [zeroPadded, spelled_append, hzeros, Nat.zero_mul, Nat.zero_add, spelled_toDigits]

lemma spelled_lt {cs : List Char} (h : ∀ c ∈ cs, c.isDigit) : spelled cs < 10 ^ cs.length := by
  induction cs using List.reverseRecOn with
  | nil => exact Nat.one_pos
  | append_singleton cs c ih =>
    have hcs := ih fun c hc => h c (List.mem_append_left _ hc)
    have hc : c.toNat - 48 < 10 := by
      have := h c (by simp)
      simp only [Char.isDigit, Bool.and_eq_true, decide_eq_true_eq, UInt32.le_iff_toNat_le] at this
      have hval : c.val.toNat = c.toNat := rfl
      have hnine : '9'.val.toNat = 57 := rfl
      omega
    have hone : spelled [c] = c.toNat - 48 := by simp [spelled, Nat.ofDigitChars_cons]
    rw [spelled_append, hone, List.length_append, List.length_singleton, Nat.pow_succ]
    omega

variable {n : ℕ}

lemma isDigit_toDigits {c : Char} (h : c ∈ Nat.toDigits 10 n) : c.isDigit :=
  Nat.isDigit_of_mem_toDigits (by decide) (by decide) h

lemma isDigit_zeroPadded {width : ℕ} {c : Char} (h : c ∈ zeroPadded width n) : c.isDigit := by
  rcases List.mem_append.mp h with h | h
  · rw [List.eq_of_mem_replicate h]
    rfl
  · exact isDigit_toDigits h

lemma zeroPadded_length {width : ℕ} (h0 : 0 < width) (h : n < 10 ^ width) : (zeroPadded width n).length = width := by
  have hle := (Nat.length_toDigits_le_iff (by decide) h0).mpr h
  rw [zeroPadded, List.length_append, List.length_replicate]
  omega

lemma toDigits_head (h : (Nat.toDigits 10 n).head? = some '0') : Nat.toDigits 10 n = ['0'] := by
  induction n using Nat.strong_induction_on with
  | _ n ih =>
    by_cases hlt : n < 10
    · rw [Nat.toDigits_of_lt_base hlt] at h ⊢
      rw [Option.some_inj.mp h]
    · rw [Nat.toDigits_of_base_le (by decide) (by omega), List.head?_append_of_ne_nil _ Nat.toDigits_ne_nil] at h
      have hdiv := ih (n / 10) (by omega) h
      -- a quotient of 0 is that of one digit
      have hzero : n / 10 = 0 := by rw [← spelled_toDigits (n / 10), hdiv]; rfl
      omega

/-! ## Pieces -/

lemma zeroPadded_succ {k : ℕ} (hk : 0 < k) :
    zeroPadded (k + 1) n = zeroPadded k (n / 10) ++ [Nat.digitChar (n % 10)] := by
  unfold zeroPadded
  by_cases hlt : n < 10
  · rw [Nat.toDigits_of_lt_base hlt, Nat.div_eq_of_lt hlt, Nat.mod_eq_of_lt hlt, Nat.toDigits_zero]
    obtain ⟨k, rfl⟩ := Nat.exists_eq_succ_of_ne_zero hk.ne'
    simp [List.replicate_succ']
  · rw [Nat.toDigits_of_base_le (by decide) (show 10 ≤ n by omega), List.length_append, List.length_singleton,
      Nat.add_sub_add_right, List.append_assoc]

/-- A number of more than `k` digits, cut before its last `k` digits. -/
lemma toDigits_mul_add {k d : ℕ} (hn : 0 < n) (hd : d < 10 ^ k) (hk : 0 < k) :
    Nat.toDigits 10 (n * 10 ^ k + d) = Nat.toDigits 10 n ++ zeroPadded k d := by
  induction k, hk using Nat.le_induction generalizing d with
  | base =>
    have hone : zeroPadded 1 d = Nat.toDigits 10 d := by
      rw [zeroPadded, Nat.toDigits_of_lt_base (by omega)]
      rfl
    rw [hone, Nat.toDigits_append_toDigits (by decide) hn (by omega), Nat.pow_one, Nat.mul_comm]
  | succ k hk ih =>
    have hpow : 10 ^ (k + 1) = 10 * 10 ^ k := Nat.pow_succ'
    have hdiv : (n * 10 ^ (k + 1) + d) / 10 = n * 10 ^ k + d / 10 := by
      rw [hpow, Nat.mul_left_comm, Nat.mul_add_div (by decide)]
    have hmod : (n * 10 ^ (k + 1) + d) % 10 = d % 10 := by
      rw [hpow, Nat.mul_left_comm, Nat.mul_add_mod]
    have hge : 10 ≤ n * 10 ^ (k + 1) + d := by
      have := Nat.le_mul_of_pos_left (10 ^ (k + 1)) hn
      have := Nat.one_le_pow k 10 (by decide)
      omega
    rw [Nat.toDigits_of_base_le (by decide) hge, hdiv, hmod, ih (by omega), zeroPadded_succ hk, List.append_assoc]

lemma zeroPadded_mul_add (w : ℕ) {k d : ℕ} (hn : 0 < n) (hd : d < 10 ^ k) (hk : 0 < k) :
    zeroPadded w (n * 10 ^ k + d) = zeroPadded (w - k) n ++ zeroPadded k d := by
  rw [zeroPadded, toDigits_mul_add hn hd hk, List.length_append, zeroPadded_length hk hd, Nat.add_comm,
    ← Nat.sub_sub, ← List.append_assoc]
  rfl

/-! ## Scaled integers -/

/-- The digits before and behind the point of `value / 10 ^ scale`, for a zero before the point that may be left out. -/
structure DecimalParts (leadingZero : Bool) (value : ℤ) (scale : ℕ) (whole frac : List Char) : Prop where
  digits : ∀ c ∈ whole ++ frac, c.isDigit
  whole_eq : spelled whole = value.natAbs / 10 ^ scale
  frac_eq : spelled frac = value.natAbs % 10 ^ scale
  frac_length : frac.length = scale
  head : whole.head? = some '0' → whole = ['0']
  omitted : whole = [] ↔ value.natAbs < 10 ^ scale ∧ value ≠ 0 ∧ leadingZero = false

/-- The text of the number with these parts -/
def decimalText (value : ℤ) (scale : ℕ) (whole frac : List Char) : List Char :=
  (if value < 0 then ['-'] else []) ++ whole ++ (if scale = 0 then [] else '.' :: frac)

/-- The text is the decimal expansion of `value / 10 ^ scale`. -/
def IsDecimal (leadingZero : Bool) (value : ℤ) (scale : ℕ) (text : List Char) : Prop :=
  ∃ whole frac, text = decimalText value scale whole frac ∧ DecimalParts leadingZero value scale whole frac

section parts
variable {leadingZero : Bool} {value : ℤ} {scale : ℕ}

/-- The whole part is printed. -/
lemma decimalParts_shown (h : ¬ (value.natAbs < 10 ^ scale ∧ value ≠ 0 ∧ leadingZero = false)) :
    DecimalParts leadingZero value scale (Nat.toDigits 10 (value.natAbs / 10 ^ scale))
      (if scale = 0 then [] else zeroPadded scale (value.natAbs % 10 ^ scale)) where
  digits := by
    intro c hc
    rcases List.mem_append.mp hc with hc | hc
    · exact isDigit_toDigits hc
    · split at hc
      · cases hc
      · exact isDigit_zeroPadded hc
  whole_eq := spelled_toDigits _
  frac_eq := by
    split
    case isTrue h0 =>
      rw [h0, Nat.pow_zero, Nat.mod_one]
      rfl
    case isFalse h0 => exact spelled_zeroPadded _ _
  frac_length := by
    split
    case isTrue h0 => exact h0.symm
    case isFalse h0 =>
      exact zeroPadded_length (Nat.pos_of_ne_zero h0) (Nat.mod_lt _ (Nat.pow_pos (by decide)))
  head := toDigits_head
  omitted := iff_of_false Nat.toDigits_ne_nil h

/-- A zero before the point is left out. -/
lemma decimalParts_omitted (hlt : value.natAbs < 10 ^ scale) (hne : value ≠ 0) :
    DecimalParts false value scale [] (zeroPadded scale (value.natAbs % 10 ^ scale)) where
  digits := fun c hc => isDigit_zeroPadded hc
  whole_eq := (Nat.div_eq_of_lt hlt).symm
  frac_eq := spelled_zeroPadded _ _
  frac_length := by
    cases scale with
    | zero => omega
    | succ scale => exact zeroPadded_length (Nat.succ_pos scale) (Nat.mod_lt _ (Nat.pow_pos (by decide)))
  head := nofun
  omitted := iff_of_true rfl ⟨hlt, hne, rfl⟩

/-- The digits of the number, cut before the last `scale` ones. -/
lemma decimalParts_split {cs cs' : List Char} (hdigits : Nat.toDigits 10 value.natAbs = cs ++ cs')
    (hscale : cs'.length = scale) (hne : value ≠ 0) (hnil : cs = [] → leadingZero = false) :
    DecimalParts leadingZero value scale cs cs' := by
  have hall : ∀ c ∈ cs ++ cs', c.isDigit := fun c hc => isDigit_toDigits (hdigits ▸ hc)
  have hsum : value.natAbs = spelled cs * 10 ^ scale + spelled cs' := by
    rw [← hscale, ← spelled_append, ← hdigits, spelled_toDigits]
  have hlt : spelled cs' < 10 ^ scale := hscale ▸ spelled_lt fun c hc => hall c (List.mem_append_right _ hc)
  have hhead : cs.head? ≠ some '0' := by
    intro h0
    obtain ⟨rest, rfl⟩ := List.head?_eq_some_iff.mp h0
    have hzero := toDigits_head (n := value.natAbs) (by rw [hdigits]; rfl)
    have hspelled : value.natAbs = 0 := by rw [← spelled_toDigits value.natAbs, hzero]; rfl
    exact hne (Int.natAbs_eq_zero.mp hspelled)
  refine ⟨hall, ?_, ?_, hscale, fun h => absurd h hhead, fun h => ?_, fun ⟨hsmall, _, _⟩ => ?_⟩
  · rw [hsum, Nat.mul_comm, Nat.mul_add_div (Nat.pow_pos (by decide)), Nat.div_eq_of_lt hlt, Nat.add_zero]
  · rw [hsum, Nat.mul_add_mod_of_lt hlt]
  · subst h
    exact ⟨by rw [hsum]; simpa [spelled] using hlt, hne, hnil rfl⟩
  · have hpos : 0 < scale := by
      rcases Nat.eq_zero_or_pos scale with rfl | hpos
      · exact absurd (Int.natAbs_eq_zero.mp (Nat.lt_one_iff.mp hsmall)) hne
      · exact hpos
    have hlen := (Nat.length_toDigits_le_iff (by decide) hpos).mpr hsmall
    rw [hdigits, List.length_append, hscale] at hlen
    exact List.length_eq_zero_iff.mp (by omega)

/-- Without a zero before the point the text is not that of a style that wants one. -/
lemma not_isDecimal_point {text : List Char} (rest : List Char)
    (h : text = (if value < 0 then ['-'] else []) ++ '.' :: rest) :
    ¬ IsDecimal true value scale text := by
  rintro ⟨whole, frac, htext, hparts⟩
  rw [h, decimalText, List.append_assoc] at htext
  have htail := List.append_cancel_left htext
  cases whole with
  | nil => exact absurd (hparts.omitted.mp rfl).2.2 (by decide)
  | cons c whole =>
    obtain rfl : '.' = c := (List.cons.inj htail).1
    exact absurd (hparts.digits '.' (by simp)) (by decide)

end parts

end GaussKernel.Lib
