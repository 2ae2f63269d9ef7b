import GaussKernel.Cbb.BloomFilter

/-!
# The tables of a Bloom filter

Where `addHash` writes: the positions of a value go to the elements of `valuePositions[numValues].position`, its bits to
the bit set. With the formulas of the constructor taken as real numbers, all of it is inside the tables exactly when
the bits are few enough per entry (`FourFunctions`), since `position` has four elements and the number of hash functions
is only asserted to be at most that.

An add beyond the limit raises its error after `setMinMax`.
-/

namespace GaussKernel.Cbb

variable {D α : Type}

/-! ## The sizes -/

/-- The bits for `n` values at the rate 0.05, made a multiple of 64. -/
noncomputable def exactBits (n : ℤ) : ℕ :=
  let nb := ⌊-n * Real.log 0.05 / (Real.log 2 * Real.log 2)⌋₊
  nb + (64 - nb % 64)

/-- The formulas of `optimalNumOfBits` and `optimalNumOfHashFunctions` as real numbers. -/
noncomputable def exactOptimal : Optimal where
  numOfBits n := ⌊-n * Real.log 0.05 / (Real.log 2 * Real.log 2)⌋₊
  numOfHashFunctions n m := (round ((m : ℝ) / n * Real.log 2)).toNat

/-- The ratio of bits to entries rounds to at most four hash functions. -/
def FourFunctions (n : ℤ) : Prop := exactBits n * Real.log 2 < 9 / 2 * n

section

variable {n : ℤ}

lemma functions_le_four (hpos : 0 < n) :
    max 1 (exactOptimal.numOfHashFunctions n (exactBits n)) ≤ MAX_HASH_FUNCTIONS ↔ FourFunctions n := by
  have hn : (0 : ℝ) < n := Int.cast_pos.mpr hpos
  have hround : round ((exactBits n : ℝ) / n * Real.log 2) ≤ 4 ↔ (exactBits n : ℝ) / n * Real.log 2 < 9 / 2 := by
    rw [round_eq, ← Int.lt_add_one_iff, Int.floor_lt]
    push_cast
    constructor <;> intro h <;> linarith
  calc max 1 (exactOptimal.numOfHashFunctions n (exactBits n)) ≤ MAX_HASH_FUNCTIONS
      ↔ round ((exactBits n : ℝ) / n * Real.log 2) ≤ 4 := by
        rw [max_le_iff, exactOptimal, Int.toNat_le]
        exact and_iff_right (by decide)
    _ ↔ FourFunctions n := by
        rw [hround, FourFunctions, div_mul_eq_mul_div, div_lt_iff₀ hn]

lemma exactBits_ge (n : ℤ) : 64 ≤ exactBits n := by
  rw [exactBits]
  omega

lemma log_five_lt : Real.log 5 < 137 / 59 * Real.log 2 := by
  have hpow : (5 : ℝ) ^ 59 < 2 ^ 137 := by norm_num
  have hlog := Real.log_lt_log (by norm_num) hpow
  rw [Real.log_pow, Real.log_pow] at hlog
  push_cast at hlog
  linarith

lemma neg_log_rate : -Real.log 0.05 = 2 * Real.log 2 + Real.log 5 := by
  have htwenty : (0.05 : ℝ) = (2 ^ 2 * 5)⁻¹ := by norm_num
  rw [htwenty, Real.log_inv, neg_neg, Real.log_mul (by norm_num) (by norm_num), Real.log_pow]
  push_cast
  ring

/-- From 250 entries on there are at most four hash functions. -/
lemma fourFunctions_of_le (h : 250 ≤ n) : FourFunctions n := by
  have hn : (250 : ℝ) ≤ n := by exact_mod_cast h
  have hlog : 0 < Real.log 2 := Real.log_pos one_lt_two
  have hbound := Real.log_two_lt_d9
  set x : ℝ := -n * Real.log 0.05 / (Real.log 2 * Real.log 2) with hx
  have hbits : (exactBits n : ℝ) ≤ x + 64 := by
    have hnonneg : 0 ≤ x := by
      have hrate : 0 < -Real.log 0.05 := by
        rw [neg_log_rate]
        exact add_pos (mul_pos two_pos hlog) (Real.log_pos (by norm_num))
      rw [hx, neg_mul, ← mul_neg]
      exact div_nonneg (mul_nonneg (by linarith) hrate.le) (mul_self_nonneg _)
    have hle : exactBits n ≤ ⌊x⌋₊ + 64 := by
      rw [exactBits, ← hx]
      omega
    calc (exactBits n : ℝ) ≤ ((⌊x⌋₊ + 64 : ℕ) : ℝ) := by exact_mod_cast hle
      _ ≤ x + 64 := by
        push_cast
        linarith [Nat.floor_le hnonneg]
  have hratio : x * Real.log 2 < n * (255 / 59) := by
    have hx' : x * Real.log 2 = n * ((2 * Real.log 2 + Real.log 5) / Real.log 2) := by
      rw [← neg_log_rate, hx]
      field_simp
    rw [hx']
    refine mul_lt_mul_of_pos_left ?_ (by linarith)
    rw [div_lt_iff₀ hlog]
    linarith [log_five_lt]
  rw [FourFunctions]
  nlinarith [mul_le_mul_of_nonneg_right hbits hlog.le]

end

/-! ## Adding -/

namespace BloomFilter

/-- The elements `valuePositions[k].position[i]` that the next add stores to. -/
def stores (f : BloomFilter α) : List (ℕ × ℕ) := (List.range f.numHashFunctions).map fun i => (f.numValues, i)

/-- The filter that `addLong`, `addDouble` and `addString` leave, and whether they return. -/
def tryAdd (b : BaseType D α) (f : BloomFilter α) (val : α) : BloomFilter α × Bool :=
  let f := if f.addMinMax then f.setMinMax b val else f
  match f.addHash (b.hash val) with
  | some f' => (f', true)
  | none => (f, false)

/-- The value is within minimum and maximum. -/
def Within (b : BaseType D α) (f : BloomFilter α) (val : α) : Prop :=
  0 ≤ b.compareValue val f.minValue ∧ b.compareValue val f.maxValue ≤ 0

end BloomFilter

/-- An add from `f` to `f'` writes inside the tables. -/
structure AddInside (f f' : BloomFilter α) (hash64 : BitVec 64) : Prop where
  stores : ∀ w ∈ f.stores, w.1 < f'.startupEntries ∧ w.2 < MAX_HASH_FUNCTIONS
  bits : ∀ p ∈ hashPositions f.numBits f.numHashFunctions hash64, p < f.numBits ∧ p / 64 < f.bitSet.data.length

/-- The filter after some adds. -/
def runAdds (b : BaseType D α) (f : BloomFilter α) (vals : List α) : Option (BloomFilter α) :=
  vals.foldlM (BloomFilter.addValue b) f

/-- All adds return and write inside the tables. -/
def RunInside (b : BaseType D α) : BloomFilter α → List α → Prop
  | _, [] => True
  | f, val :: vals => ∃ f', f.addValue b val = some f' ∧ AddInside f f' (b.hash val) ∧ RunInside b f' vals

/-- What the constructor sets up and the adds maintain, for a limit of `n` entries and `k` hash functions. -/
structure Sized (f : BloomFilter α) (n k : ℕ) (addMinMax : Bool) : Prop where
  length : 64 * f.bitSet.data.length = f.numBits
  pos : 0 < f.numBits
  max : f.maxNumValues = n
  functions : f.numHashFunctions = k
  flag : f.addMinMax = addMinMax
  startup : 0 < f.startupEntries
  startupLe : f.startupEntries ≤ n
  values : f.numValues ≤ f.startupEntries
  hasMM : addMinMax = true → 0 < f.numValues → f.hasMM = true

section

variable {b : BaseType D α} {f f' : BloomFilter α} {n k : ℕ} {addMinMax : Bool} {val : α} {vals : List α}

/-- What the constructor sets up. -/
lemma sized_of_create {optimal : Optimal} {m : ℤ} (h : createBloomFilter b optimal m addMinMax = some f) :
    Sized f m.toNat (max 1 (optimal.numOfHashFunctions m f.numBits)) addMinMax ∧ f.numValues = 0 ∧
      f.numBits = optimal.numOfBits m + (64 - optimal.numOfBits m % 64) := by
  have hround : (optimal.numOfBits m + (64 - optimal.numOfBits m % 64)) % 64 = 0 := by omega
  rw [createBloomFilter] at h
  split at h
  case isTrue => cases h
  case isFalse hlimit =>
    obtain ⟨hpos, -⟩ := not_or.mp hlimit
    cases h
    refine ⟨⟨?_, ?_, rfl, rfl, rfl, ?_, Nat.min_le_left _ _, Nat.zero_le _, fun _ h => ?_⟩, rfl, rfl⟩
    · dsimp only [BitSet.new]
      rw [List.length_replicate, if_pos hround]
      omega
    · dsimp only
      omega
    · exact Nat.lt_min.mpr ⟨Int.pos_iff_toNat_pos.mp (not_le.mp hpos), by decide⟩
    · exact absurd h (Nat.lt_irrefl 0)

lemma sized_create (b : BaseType D α) (optimal : Optimal) (addMinMax : Bool) {m : ℤ} (hpos : 0 < m)
    (hmax : m < MAX_ENTRIES) :
    ∃ f, createBloomFilter b optimal m addMinMax = some f ∧ f.numValues = 0 ∧
      f.numBits = optimal.numOfBits m + (64 - optimal.numOfBits m % 64) ∧
      Sized f m.toNat (max 1 (optimal.numOfHashFunctions m f.numBits)) addMinMax := by
  have hcreate : ∃ f, createBloomFilter b optimal m addMinMax = some f := by
    rw [createBloomFilter, if_neg (not_or.mpr ⟨not_le.mpr hpos, not_le.mpr hmax⟩)]
    exact ⟨_, rfl⟩
  obtain ⟨f, hf⟩ := hcreate
  obtain ⟨hsized, hzero, hbits⟩ := sized_of_create hf
  exact ⟨f, hf, hzero, hbits, hsized⟩

/-- The step of `setMinMax` changes nothing but minimum and maximum. -/
lemma minMaxStep_fields (val : α) :
    ∃ minValue maxValue hasMM, (if f.addMinMax then f.setMinMax b val else f) =
      { f with minValue := minValue, maxValue := maxValue, hasMM := hasMM } ∧
      (f.addMinMax = true → hasMM = true) ∧ (f.hasMM = true → hasMM = true) := by
  split
  case isFalse hflag => exact ⟨_, _, _, rfl, fun h => absurd h hflag, id⟩
  case isTrue =>
    rw [BloomFilter.setMinMax]
    split
    case isTrue hmm =>
      split
      · exact ⟨_, _, _, rfl, fun _ => hmm, id⟩
      · split
        · exact ⟨_, _, _, rfl, fun _ => hmm, id⟩
        · exact ⟨_, _, _, rfl, fun _ => hmm, id⟩
    case isFalse => exact ⟨_, _, _, rfl, fun _ => rfl, fun _ => rfl⟩

/-- An add within the limit: the table of positions grows when it is full. -/
lemma Sized.addValue (h : Sized f n k addMinMax) (hlt : f.numValues < n) (val : α) :
    ∃ f', f.addValue b val = some f' ∧ f'.numValues = f.numValues + 1 ∧ f.numValues < f'.startupEntries ∧
      Sized f' n k addMinMax := by
  obtain ⟨mn, mx, mm, hstep, hset, hkeep⟩ := minMaxStep_fields (b := b) (f := f) val
  have hroom : ¬ f.maxNumValues ≤ f.numValues := by
    rw [h.max]
    exact Nat.not_le.mpr hlt
  have hstartup := h.startup
  have hstartupLe := h.startupLe
  have hvalues := h.values
  rw [BloomFilter.addValue, hstep, BloomFilter.addHash, if_neg hroom]
  refine ⟨_, rfl, rfl, ?_, ?_, h.pos, h.max, h.functions, h.flag, ?_, ?_, ?_, fun hflag _ => hset (h.flag.trans hflag)⟩
  all_goals dsimp only
  · rw [h.max]
    split
    · exact Nat.lt_min.mpr ⟨by omega, hlt⟩
    · omega
  · rw [BitSet.length_setAll, h.length]
  · rw [h.max]
    split
    · exact Nat.lt_min.mpr ⟨by omega, by omega⟩
    · exact hstartup
  · rw [h.max]
    split
    · exact Nat.min_le_right _ _
    · exact hstartupLe
  · rw [h.max]
    split
    · exact Nat.le_min.mpr ⟨by omega, hlt⟩
    · omega

/-- The writes of one add. -/
lemma Sized.addInside_iff (h : Sized f n k addMinMax) (hk : 0 < k) (hstartup : f.numValues < f'.startupEntries)
    (hash64 : BitVec 64) : AddInside f f' hash64 ↔ k ≤ MAX_HASH_FUNCTIONS := by
  have hmem : ∀ i < k, (f.numValues, i) ∈ f.stores := fun i hi =>
    List.mem_map.mpr ⟨i, List.mem_range.mpr (h.functions.symm ▸ hi), rfl⟩
  constructor
  · intro hinside
    have hlast := (hinside.stores _ (hmem (k - 1) (by omega))).2
    dsimp only at hlast
    omega
  · intro hle
    refine ⟨fun w hw => ?_, fun p hp => ?_⟩
    · obtain ⟨i, hi, rfl⟩ := List.mem_map.mp hw
      exact ⟨hstartup, (List.mem_range.mp hi).trans_le (h.functions.symm ▸ hle)⟩
    · have hlt := hashPositions_lt h.pos hp
      refine ⟨hlt, Nat.div_lt_of_lt_mul ?_⟩
      rwa [h.length]

/-- The adds up to the limit. -/
lemma Sized.run (h : Sized f n k addMinMax) (b : BaseType D α) (vals : List α) (hk : 0 < k)
    (hlen : f.numValues + vals.length ≤ n) :
    (∃ f', runAdds b f vals = some f' ∧ f'.numValues = f.numValues + vals.length ∧ Sized f' n k addMinMax) ∧
      (RunInside b f vals ↔ vals = [] ∨ k ≤ MAX_HASH_FUNCTIONS) := by
  induction vals generalizing f with
  | nil => exact ⟨⟨f, rfl, rfl, h⟩, fun _ => .inl rfl, fun _ => trivial⟩
  | cons val vals ih =>
    rw [List.length_cons] at hlen
    obtain ⟨f₁, hadd, hcount, hstartup, h₁⟩ := h.addValue (b := b) (by omega) val
    obtain ⟨⟨f', hrun, hcount', h'⟩, hinside⟩ := ih h₁ (by omega)
    refine ⟨⟨f', ?_, by rw [hcount', hcount, List.length_cons]; omega, h'⟩, ?_⟩
    · rw [runAdds, List.foldlM_cons, hadd]
      exact hrun
    · constructor
      · rintro ⟨f₂, hadd₂, hfirst, -⟩
        obtain rfl := Option.some.inj (hadd.symm.trans hadd₂)
        exact .inr ((h.addInside_iff hk hstartup _).mp hfirst)
      · rintro (hnil | hle)
        · cases hnil
        · exact ⟨f₁, hadd, (h.addInside_iff hk hstartup _).mpr hle, hinside.mpr (.inr hle)⟩

/-- Minimum and maximum stay when the value is within them, and otherwise not. -/
lemma setMinMax_eq_self_iff (hrefl : ∀ x, b.compareValue x x = 0) (hmm : f.hasMM = true) :
    f.setMinMax b val = f ↔ f.Within b val := by
  rw [BloomFilter.setMinMax, if_pos hmm, BloomFilter.Within]
  split
  case isTrue hlow =>
    refine ⟨fun heq => ?_, fun hwithin => absurd hlow (not_lt.mpr hwithin.1)⟩
    have hsame : val = f.minValue := congrArg BloomFilter.minValue heq
    rw [hsame, hrefl] at hlow
    exact absurd hlow (lt_irrefl 0)
  case isFalse hlow =>
    split
    case isTrue hhigh =>
      refine ⟨fun heq => ?_, fun hwithin => absurd hhigh (not_lt.mpr hwithin.2)⟩
      have hsame : val = f.maxValue := congrArg BloomFilter.maxValue heq
      rw [hsame, hrefl] at hhigh
      exact absurd hhigh (lt_irrefl 0)
    case isFalse hhigh => exact ⟨fun _ => ⟨not_lt.mp hlow, not_lt.mp hhigh⟩, fun _ => rfl⟩

/-- The add beyond the limit. -/
lemma Sized.refused_iff (h : Sized f n k addMinMax) (hn : 0 < n) (hfull : f.numValues = n)
    (hrefl : ∀ x, b.compareValue x x = 0) :
    f.tryAdd b val = (f, false) ↔ (addMinMax = true → f.Within b val) := by
  obtain ⟨mn, mx, mm, hstep, -, -⟩ := minMaxStep_fields (b := b) (f := f) val
  have hrefused : ((if f.addMinMax then f.setMinMax b val else f).addHash (b.hash val)) = none := by
    have hle : f.maxNumValues ≤ f.numValues := by rw [h.max, hfull]
    rw [hstep, BloomFilter.addHash, if_pos hle]
  have htry : f.tryAdd b val = (if f.addMinMax then f.setMinMax b val else f, false) := by
    simp only [BloomFilter.tryAdd, hrefused]
  rw [htry, Prod.mk.injEq, and_iff_left rfl, h.flag]
  cases addMinMax with
  | false => exact ⟨fun _ => nofun, fun _ => rfl⟩
  | true =>
    rw [if_pos rfl, setMinMax_eq_self_iff hrefl (h.hasMM rfl (hfull ▸ hn))]
    exact ⟨fun hwithin _ => hwithin, fun hwithin => hwithin rfl⟩

end

/-- The adds up to the limit write inside the tables, and the next one is refused without changing the filter, exactly
when there is no add or the ratio of bits to entries is small enough, and the refused value is within a minimum and
maximum that the filter keeps. -/
theorem adds_inside_iff (b : BaseType D α) (hrefl : ∀ x, b.compareValue x x = 0) {n : ℤ} (hpos : 0 < n)
    (hmax : n < MAX_ENTRIES) (addMinMax : Bool) (vals : List α) (hlen : vals.length ≤ n.toNat) (val : α) :
    ∃ f₀ f, createBloomFilter b exactOptimal n addMinMax = some f₀ ∧ runAdds b f₀ vals = some f ∧
      ((RunInside b f₀ vals ∧ (vals.length = n.toNat → f.tryAdd b val = (f, false))) ↔
        (vals = [] ∨ FourFunctions n) ∧ (vals.length = n.toNat → addMinMax = true → f.Within b val)) ∧
      (250 ≤ n → FourFunctions n) := by
  obtain ⟨f₀, hcreate, hzero, hbits, hsized⟩ :=
    sized_create b exactOptimal addMinMax hpos hmax
  have hexact : f₀.numBits = exactBits n := hbits
  rw [hexact] at hsized
  obtain ⟨⟨f, hrun, hcount, hf⟩, hinside⟩ := hsized.run b vals (by omega) (by omega)
  rw [hzero, Nat.zero_add] at hcount
  refine ⟨f₀, f, hcreate, hrun, ?_, fourFunctions_of_le⟩
  rw [hinside, functions_le_four hpos]
  refine and_congr_right fun _ => ?_
  constructor
  · intro h hfull
    exact (hf.refused_iff (by omega) (hcount.trans hfull) hrefl).mp (h hfull)
  · intro h hfull
    exact (hf.refused_iff (by omega) (hcount.trans hfull) hrefl).mpr (h hfull)

lemma int64_compare_self (dataType : IntType) (x : BitVec 64) : (int64Base dataType).compareValue x x = 0 := by
  simp [int64Base, BitVec.slt]

theorem adds_inside_iff_500 :
    ∃ f₀, createBloomFilter (int64Base .int8) exactOptimal 500 false = some f₀ ∧
      RunInside (int64Base .int8) f₀ [5#64, 7#64] := by
  obtain ⟨f₀, f, hcreate, -, hiff, hfour⟩ := adds_inside_iff (int64Base .int8) (int64_compare_self .int8) (n := 500)
    (by decide) (by decide) false [5#64, 7#64] (by decide) 9#64
  exact ⟨f₀, hcreate, (hiff.mpr ⟨.inr (hfour (by decide)), fun _ => nofun⟩).1⟩

/-- A filter for one value has more than four hash functions. -/
theorem not_adds_inside :
    ¬ ∀ (n : ℤ) (addMinMax : Bool) (vals : List (BitVec 64)) (f₀ : BloomFilter (BitVec 64)),
      0 < n → n < MAX_ENTRIES → vals.length ≤ n.toNat →
        createBloomFilter (int64Base .int8) exactOptimal n addMinMax = some f₀ →
          RunInside (int64Base .int8) f₀ vals := by
  intro h
  obtain ⟨f₀, hcreate, hzero, hbits, hsized⟩ :=
    sized_create (int64Base .int8) exactOptimal false (m := 1) (by decide) (by decide)
  have hexact : f₀.numBits = exactBits 1 := hbits
  rw [hexact] at hsized
  have hrun := hsized.run (int64Base .int8) [5#64] (by omega) (by rw [hzero]; decide)
  have hfour := (hrun.2.mp (h 1 false [5#64] f₀ (by decide) (by decide) (by decide) hcreate)).resolve_left
    (List.cons_ne_nil _ _)
  have hbits : (64 : ℝ) ≤ exactBits 1 := by exact_mod_cast exactBits_ge 1
  have hlt : exactBits 1 * Real.log 2 < 9 / 2 * ((1 : ℤ) : ℝ) := (functions_le_four (by decide)).mp hfour
  have hlog := Real.log_two_gt_d9
  push_cast at hlt
  nlinarith

end GaussKernel.Cbb
