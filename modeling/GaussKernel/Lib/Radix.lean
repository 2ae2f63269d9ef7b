import Mathlib.Algebra.BigOperators.Ring.Finset
import Mathlib.Algebra.Order.Ring.Int
import Mathlib.Data.List.DropRight
import Mathlib.Tactic.Ring
import Mathlib.Tactic.Linarith
import Mathlib.Tactic.LinearCombination

/-!
# Digit strings in a fixed base

A number written with its most significant digit first, over any base `B`: its value, how the value
reacts to appending, and that a string without a leading zero is determined by its value. The second
half is about the loops every school algorithm is made of: columns of small integers, handled from the
least significant one while a carry (or a borrow) is passed on. `carryLoop_value` says that such a loop
keeps the value whatever its step does to the carry, as long as one step keeps it.
-/

namespace GaussKernel.Radix

variable {B : ℤ}

/-- The value of a digit string, most significant digit first. -/
def value (B : ℤ) (ds : List ℤ) : ℤ :=
  ds.foldl (fun a d => a * B + d) 0

/-- All the digits are digits of the base. -/
def Digits (B : ℤ) (ds : List ℤ) : Prop :=
  ∀ d ∈ ds, 0 ≤ d ∧ d < B

instance (ds : List ℤ) : Decidable (Digits B ds) :=
  inferInstanceAs (Decidable (∀ d ∈ ds, 0 ≤ d ∧ d < B))

@[simp] lemma value_nil : value B [] = 0 := rfl

@[simp] lemma value_concat (ds : List ℤ) (d : ℤ) : value B (ds ++ [d]) = value B ds * B + d := by
  simp [value, List.foldl_append]

lemma value_append (xs ys : List ℤ) :
    value B (xs ++ ys) = value B xs * B ^ ys.length + value B ys := by
  induction ys using List.reverseRecOn with
  | nil => simp
  | append_singleton ys y ih =>
    rw [← List.append_assoc, value_concat, ih, value_concat, List.length_append, List.length_singleton]
    ring

lemma value_cons (d : ℤ) (ds : List ℤ) : value B (d :: ds) = d * B ^ ds.length + value B ds := by
  have h := value_append (B := B) [d] ds
  simpa [value] using h

lemma value_zeros (k : ℕ) : value B (List.replicate k 0) = 0 := by
  induction k with
  | zero => rfl
  | succ k ih => rw [List.replicate_succ, value_cons, ih, zero_mul, zero_add]

lemma Digits.nil : Digits B [] := fun _ h => absurd h (by simp)

variable {d : ℤ} {ds : List ℤ}

lemma digits_cons : Digits B (d :: ds) ↔ (0 ≤ d ∧ d < B) ∧ Digits B ds := by
  simp [Digits]

lemma digits_append {xs ys : List ℤ} : Digits B (xs ++ ys) ↔ Digits B xs ∧ Digits B ys := by
  simp only [Digits, List.mem_append]
  constructor
  · intro h
    exact ⟨fun d hd => h d (.inl hd), fun d hd => h d (.inr hd)⟩
  · rintro ⟨hx, hy⟩ d (hd | hd)
    · exact hx d hd
    · exact hy d hd

lemma value_nonneg (h : Digits B ds) : 0 ≤ value B ds := by
  induction ds using List.reverseRecOn with
  | nil => exact le_refl _
  | append_singleton ds d ih =>
    obtain ⟨hds, hd⟩ := digits_append.mp h
    have hd' := hd d (by simp)
    have hB : 0 ≤ B := by linarith [hd'.1, hd'.2]
    rw [value_concat]
    have := mul_nonneg (ih hds) hB
    linarith [hd'.1]

lemma value_lt_pow (hB : 0 < B) (h : Digits B ds) : value B ds < B ^ ds.length := by
  induction ds with
  | nil => simp
  | cons d ds ih =>
    obtain ⟨hd, hds⟩ := digits_cons.mp h
    rw [value_cons, List.length_cons, pow_succ]
    have hp : 0 < B ^ ds.length := pow_pos hB _
    have h1 : d * B ^ ds.length ≤ (B - 1) * B ^ ds.length :=
      mul_le_mul_of_nonneg_right (by linarith [hd.2]) hp.le
    have h2 := ih hds
    calc d * B ^ ds.length + value B ds
        < (B - 1) * B ^ ds.length + B ^ ds.length := by linarith
      _ = B ^ ds.length * B := by ring

lemma pow_le_value (hB : 0 < B) (h : Digits B (d :: ds)) (hd : d ≠ 0) :
    B ^ ds.length ≤ value B (d :: ds) := by
  obtain ⟨hd', hds⟩ := digits_cons.mp h
  rw [value_cons]
  have h1 : 1 ≤ d := by have := hd'.1; omega
  have h2 : 1 * B ^ ds.length ≤ d * B ^ ds.length :=
    mul_le_mul_of_nonneg_right h1 (pow_pos hB _).le
  have h3 := value_nonneg hds
  linarith

/-- Strings of one length with the same value are the same string. -/
lemma value_inj (hB : 0 < B) : ∀ {xs ys : List ℤ}, Digits B xs → Digits B ys →
    xs.length = ys.length → value B xs = value B ys → xs = ys := by
  intro xs
  induction xs with
  | nil =>
    intro ys _ _ hlen _
    exact (List.length_eq_zero_iff.mp hlen.symm).symm
  | cons x xs ih =>
    intro ys hx hy hlen hval
    cases ys with
    | nil => cases hlen
    | cons y ys =>
      obtain ⟨hx0, hxs⟩ := digits_cons.mp hx
      obtain ⟨hy0, hys⟩ := digits_cons.mp hy
      have hl : xs.length = ys.length := by simpa using hlen
      rw [value_cons, value_cons, hl] at hval
      have hxl := value_lt_pow hB hxs
      have hyl := value_lt_pow hB hys
      rw [hl] at hxl
      have hxn := value_nonneg hxs
      have hyn := value_nonneg hys
      -- the tails are remainders, so the heads are the quotients
      have hhead : x = y := by
        have h1 : x = (x * B ^ ys.length + value B xs) / B ^ ys.length := by
          rw [add_comm, Int.add_mul_ediv_right _ _ (by positivity), Int.ediv_eq_zero_of_lt hxn hxl,
            zero_add]
        have h2 : y = (y * B ^ ys.length + value B ys) / B ^ ys.length := by
          rw [add_comm, Int.add_mul_ediv_right _ _ (by positivity), Int.ediv_eq_zero_of_lt hyn hyl,
            zero_add]
        rw [h1, hval, ← h2]
      subst hhead
      rw [ih hxs hys hl (by linarith)]

/-- A string without a leading zero is the only one with its value. -/
lemma value_inj_of_head (hB : 1 < B) {x y : ℤ} {xs ys : List ℤ} (hx : Digits B (x :: xs))
    (hy : Digits B (y :: ys)) (hx0 : x ≠ 0) (hy0 : y ≠ 0)
    (h : value B (x :: xs) = value B (y :: ys)) : x :: xs = y :: ys := by
  have hB0 : 0 < B := by linarith
  refine value_inj hB0 hx hy ?_ h
  have h1 := (pow_le_value hB0 hx hx0).trans_lt (h ▸ value_lt_pow hB0 hy)
  have h2 := (pow_le_value hB0 hy hy0).trans_lt (h ▸ value_lt_pow hB0 hx)
  have h3 := (pow_lt_pow_iff_right₀ hB).mp h1
  have h4 := (pow_lt_pow_iff_right₀ hB).mp h2
  simp only [List.length_cons] at h3 h4 ⊢
  omega

lemma value_emod (ds : List ℤ) (d : ℤ) (h : 0 ≤ d ∧ d < B) : value B (ds ++ [d]) % B = d := by
  rw [value_concat, add_comm, Int.add_mul_emod_self_right]
  exact Int.emod_eq_of_lt h.1 h.2

/-! ## Stripping zeros -/

/-- The string without its leading zeros. -/
def lstrip (ds : List ℤ) : List ℤ := ds.dropWhile (· == 0)

/-- The string without its trailing zeros. -/
def rstrip (ds : List ℤ) : List ℤ := ds.rdropWhile (· == 0)

lemma lstrip_suffix (ds : List ℤ) : lstrip ds <:+ ds := List.dropWhile_suffix _

lemma rstrip_isPre (ds : List ℤ) : rstrip ds <+: ds := List.rdropWhile_prefix _ _

lemma Digits.lstrip (h : Digits B ds) : Digits B (lstrip ds) :=
  fun d hd => h d ((lstrip_suffix ds).subset hd)

lemma Digits.rstrip (h : Digits B ds) : Digits B (rstrip ds) :=
  fun d hd => h d ((rstrip_isPre ds).subset hd)

lemma lstrip_cons_zero (ds : List ℤ) : lstrip (0 :: ds) = lstrip ds := by simp [lstrip]

lemma lstrip_cons_ne (hd : d ≠ 0) (ds : List ℤ) : lstrip (d :: ds) = d :: ds := by
  simp [lstrip, hd]

lemma value_lstrip (ds : List ℤ) : value B (lstrip ds) = value B ds := by
  induction ds with
  | nil => rfl
  | cons d ds ih =>
    by_cases hd : d = 0
    · rw [hd, lstrip_cons_zero, ih, value_cons, zero_mul, zero_add]
    · rw [lstrip_cons_ne hd]

lemma head_lstrip : ∀ d ∈ (lstrip ds).head?, d ≠ 0 := by
  induction ds with
  | nil => simp [lstrip]
  | cons x ds ih =>
    by_cases hx : x = 0
    · rwa [hx, lstrip_cons_zero]
    · rw [lstrip_cons_ne hx]
      intro d hd
      rw [List.head?_cons, Option.mem_some_iff] at hd
      rwa [← hd]

lemma getLast?_lstrip (h : d ∈ (lstrip ds).getLast?) : d ∈ ds.getLast? := by
  obtain ⟨t, ht⟩ := lstrip_suffix ds
  rw [← ht, List.getLast?_append]
  simp [Option.mem_def.mp h]

lemma head?_rstrip (h : d ∈ (rstrip ds).head?) : d ∈ ds.head? := by
  obtain ⟨t, ht⟩ := rstrip_isPre ds
  rw [← ht, List.head?_append]
  simp [Option.mem_def.mp h]

lemma getLast_rstrip : ∀ d ∈ (rstrip ds).getLast?, d ≠ 0 := by
  induction ds using List.reverseRecOn with
  | nil => simp [rstrip]
  | append_singleton ds x ih =>
    by_cases hx : x = 0
    · rw [rstrip, List.rdropWhile_concat_pos _ _ _ (by simp [hx])]
      exact ih
    · rw [rstrip, List.rdropWhile_concat_neg _ _ _ (by simp [hx])]
      intro d hd
      rw [List.getLast?_concat, Option.mem_some_iff] at hd
      rwa [← hd]

lemma value_rstrip (ds : List ℤ) :
    value B ds = value B (rstrip ds) * B ^ (ds.length - (rstrip ds).length) := by
  induction ds using List.reverseRecOn with
  | nil => simp [rstrip]
  | append_singleton ds x ih =>
    by_cases hx : x = 0
    · have hstrip : rstrip (ds ++ [x]) = rstrip ds :=
        List.rdropWhile_concat_pos _ _ _ (by simp [hx])
      have hle := (rstrip_isPre ds).length_le
      rw [hstrip, value_concat, hx, add_zero, List.length_append, List.length_singleton,
        Nat.sub_add_comm hle, pow_succ, ← mul_assoc, ← ih]
    · have hstrip : rstrip (ds ++ [x]) = ds ++ [x] :=
        List.rdropWhile_concat_neg _ _ _ (by simp [hx])
      rw [hstrip, Nat.sub_self, pow_zero, mul_one]

/-! ## Columns and carries -/

/-- The sum of a list of columns, least significant column first. -/
def colSum (B : ℤ) : List ℤ → ℤ
  | [] => 0
  | x :: xs => x + B * colSum B xs

/-- A pass over columns from the least significant one: every column takes the carry in, leaves one
digit in front of `res` and hands the new carry on. -/
def carryLoop (step : ℤ → ℤ × ℤ) : ℤ → List ℤ → List ℤ → List ℤ × ℤ
  | carry, res, [] => (res, carry)
  | carry, res, x :: xs => carryLoop step (step (carry + x)).2 ((step (carry + x)).1 :: res) xs

lemma carryLoop_length (step : ℤ → ℤ × ℤ) (cols : List ℤ) (carry : ℤ) (res : List ℤ) :
    (carryLoop step carry res cols).1.length = res.length + cols.length := by
  induction cols generalizing carry res with
  | nil => rfl
  | cons x xs ih =>
    rw [carryLoop, ih]
    simp only [List.length_cons]
    omega

/-- A step that keeps the value of its column makes a loop that keeps the value of all of them. -/
lemma carryLoop_value {step : ℤ → ℤ × ℤ} (hstep : ∀ s, (step s).1 + B * (step s).2 = s)
    (cols : List ℤ) (carry : ℤ) (res : List ℤ) :
    value B (carryLoop step carry res cols).1
        + (carryLoop step carry res cols).2 * B ^ (res.length + cols.length)
      = value B res + (carry + colSum B cols) * B ^ res.length := by
  induction cols generalizing carry res with
  | nil => simp [carryLoop, colSum]
  | cons x xs ih =>
    have h := ih (step (carry + x)).2 ((step (carry + x)).1 :: res)
    have hlen : res.length + (x :: xs).length = ((step (carry + x)).1 :: res).length + xs.length := by
      simp only [List.length_cons]
      omega
    rw [carryLoop, hlen, h, value_cons, List.length_cons, colSum, pow_succ]
    linear_combination B ^ res.length * hstep (carry + x)

/-- What the step keeps of the carry, and the digits it leaves, along the whole loop. -/
lemma carryLoop_digits (step : ℤ → ℤ × ℤ) (P : ℤ → Prop) (cols : List ℤ)
    (hstep : ∀ c x, P c → x ∈ cols →
      P (step (c + x)).2 ∧ 0 ≤ (step (c + x)).1 ∧ (step (c + x)).1 < B)
    (carry : ℤ) {res : List ℤ} (hc : P carry) (hres : Digits B res) :
    P (carryLoop step carry res cols).2 ∧ Digits B (carryLoop step carry res cols).1 := by
  induction cols generalizing carry res with
  | nil => exact ⟨hc, hres⟩
  | cons x xs ih =>
    obtain ⟨hP, hd⟩ := hstep carry x hc (by simp)
    exact ih (fun c y hP hy => hstep c y hP (by simp [hy])) _ hP (digits_cons.mpr ⟨hd, hres⟩)

lemma colSum_map_range (f : ℕ → ℤ) (k : ℕ) :
    colSum B ((List.range k).map f) = ∑ j ∈ Finset.range k, f j * B ^ j := by
  induction k generalizing f with
  | zero => simp [colSum]
  | succ k ih =>
    rw [List.range_succ_eq_map, List.map_cons, colSum, List.map_map, ih, Finset.sum_range_succ',
      Finset.mul_sum, add_comm]
    congr 1
    · refine Finset.sum_congr rfl fun j _ => ?_
      simp only [Function.comp, Nat.succ_eq_add_one, pow_succ]
      ring
    · simp

/-- The digit at an index, and zero outside the string. -/
def digitAt (ds : List ℤ) (i : ℤ) : ℤ :=
  if 0 ≤ i ∧ i < ds.length then ds.getD i.toNat 0 else 0

lemma digitAt_concat (ds : List ℤ) (d i : ℤ) :
    digitAt (ds ++ [d]) i = digitAt ds i + if i = ds.length then d else 0 := by
  unfold digitAt
  by_cases hi : i = ds.length
  · subst hi
    simp
  · rw [if_neg hi, add_zero]
    by_cases hlt : 0 ≤ i ∧ i < ds.length
    · have hn : i.toNat < ds.length := by omega
      rw [if_pos hlt, if_pos (by simp only [List.length_append, List.length_singleton]; omega)]
      simp only [List.getD_eq_getElem?_getD, List.getElem?_append_left hn]
    · rw [if_neg hlt, if_neg (by simp only [List.length_append, List.length_singleton]; omega)]

lemma digitAt_mem (hB : 0 < B) (h : Digits B ds) (i : ℤ) : 0 ≤ digitAt ds i ∧ digitAt ds i < B := by
  unfold digitAt
  split
  · rename_i hi
    have hn : i.toNat < ds.length := by omega
    rw [List.getD_eq_getElem?_getD, List.getElem?_eq_getElem hn, Option.getD_some]
    exact h _ (List.getElem_mem hn)
  · exact ⟨le_refl _, hB⟩

/-- A string read through a window of `k` columns whose lowest one is the column right of index
`i - 1`: when the window covers the string, the columns are the string times a power of the base. -/
lemma sum_window (ds : List ℤ) (i k : ℕ) (h1 : ds.length ≤ i) (h2 : i ≤ k) :
    ∑ j ∈ Finset.range k, digitAt ds ((i : ℤ) - 1 - j) * B ^ j
      = value B ds * B ^ (i - ds.length) := by
  induction ds using List.reverseRecOn with
  | nil => simp [digitAt]
  | append_singleton ds d ih =>
    simp only [List.length_append, List.length_singleton] at h1
    simp only [digitAt_concat, add_mul, Finset.sum_add_distrib, ih (by omega), ite_mul, zero_mul]
    have hidx : ∀ j ∈ Finset.range k, (if (i : ℤ) - 1 - j = ds.length then d * B ^ j else 0)
        = if j = i - 1 - ds.length then d * B ^ j else 0 := by
      intro j _
      by_cases hj : j = i - 1 - ds.length
      · rw [if_pos hj, if_pos (by omega)]
      · rw [if_neg hj, if_neg (by omega)]
    rw [Finset.sum_congr rfl hidx, Finset.sum_ite_eq', if_pos (by rw [Finset.mem_range]; omega),
      value_concat, List.length_append, List.length_singleton,
      show i - ds.length = i - (ds.length + 1) + 1 by omega,
      show i - 1 - ds.length = i - (ds.length + 1) by omega, pow_succ]
    ring

/-- The columns of a string are the string read from its last digit. -/
lemma colSum_reverse (ds : List ℤ) : colSum B ds.reverse = value B ds := by
  induction ds using List.reverseRecOn with
  | nil => rfl
  | append_singleton ds d ih =>
    rw [List.reverse_append, List.reverse_singleton, List.singleton_append, colSum, ih, value_concat]
    ring

/-- Adding to every place of a string adds the values. -/
lemma value_mapIdx_add (ds : List ℤ) (f : ℕ → ℤ) :
    value B (ds.mapIdx fun p x => x + f p) = value B ds + value B ((List.range ds.length).map f) := by
  induction ds using List.reverseRecOn with
  | nil => simp
  | append_singleton ds d ih =>
    rw [List.mapIdx_concat, value_concat, ih, value_concat, List.length_append, List.length_singleton,
      List.range_succ, List.map_append, List.map_singleton, value_concat]
    ring

/-- A string written at an offset inside a longer row. -/
lemma value_row (ds : List ℤ) (n o : ℕ) (h : o + ds.length ≤ n) :
    value B ((List.range n).map fun p : ℕ => digitAt ds ((p : ℤ) - o))
      = value B ds * B ^ (n - o - ds.length) := by
  rw [← colSum_reverse, ← List.map_reverse, ← sum_window ds (n - o) n (by omega) (by omega),
    ← colSum_map_range]
  congr 1
  apply List.ext_getElem
  · simp
  · intro j h1 h2
    simp only [List.length_map, List.length_reverse, List.length_range] at h1
    simp only [List.getElem_map, List.getElem_reverse, List.length_range, List.getElem_range]
    congr 1
    omega

lemma value_map_mul (c : ℤ) (ds : List ℤ) : value B (ds.map (c * ·)) = c * value B ds := by
  induction ds using List.reverseRecOn with
  | nil => simp
  | append_singleton ds d ih =>
    rw [List.map_append, List.map_singleton, value_concat, ih, value_concat]
    ring

end GaussKernel.Radix
