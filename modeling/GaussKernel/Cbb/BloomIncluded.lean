import GaussKernel.Cbb.BloomTables

/-!
# The intersection test of Bloom filters

Model of `includedIn` for integers: a check of minimum and maximum, and then either the subset test of a filter with
one value or the test of its values one by one with the stored positions. Two filters that were filled by adds and have
a value in common pass it exactly when the ranges of several values contain each other the right way (`RangeKept`) and
the positions survive being stored in 16 bits (`PositionsKept`).
-/

namespace GaussKernel.Cbb

/-! ## The test -/

/-- `valueToDatum` -/
def IntType.valueToDatum : IntType → BitVec 64 → BitVec 64
  | int2, value => (value.setWidth 16).setWidth 64
  | int4, value => (value.setWidth 32).setWidth 64
  | int8, value => value

/-- A value of a filter of one type as a filter of another type reads it: `datumToValue(that.getMin())`. -/
def IntType.readAs (thatType dataType : IntType) (value : BitVec 64) : BitVec 64 :=
  (int64Base dataType).datumToValue (thatType.valueToDatum value)

namespace BloomFilter

variable (dataType thatType : IntType) (f that : BloomFilter (BitVec 64))

def minMaxCheck : Bool :=
  if !f.hasMM || !that.hasMM then true
  else
    let minV := thatType.readAs dataType that.minValue
    let maxV := thatType.readAs dataType that.maxValue
    let compareValue := (int64Base dataType).compareValue
    if f.numValues = 1 then 0 ≤ compareValue f.minValue minV && compareValue f.maxValue maxV ≤ 0
    else !(0 < compareValue f.minValue minV || compareValue f.maxValue maxV < 0)

def singleIncludedIn (array : List (BitVec 64)) : Bool :=
  (List.range f.bitSet.data.length).all fun i =>
    let word := f.bitSet.data.getD i 0
    word = 0 || word &&& array.getD i 0 = word

/-- What is read behind `position` counts as zero. -/
def multiIncludedIn (array : List (BitVec 64)) : Bool :=
  (List.range f.numValues).any fun i =>
    (List.range f.numHashFunctions).all fun j =>
      (⟨array⟩ : BitSet).get (((f.valuePositions i).position[j]?).getD 0).toNat

/-- `includedIn` of a bit set. -/
def includedInBits (array : List (BitVec 64)) : Bool :=
  if f.numValues = 0 then false
  else if f.numValues = 1 then f.singleIncludedIn array
  else f.multiIncludedIn array

/-- `includedIn` of another filter. -/
def includedIn : Bool :=
  if f.numBits = that.numBits ∧ f.numHashFunctions = that.numHashFunctions then
    f.minMaxCheck dataType thatType that && f.includedInBits that.bitSet.data
  else true

end BloomFilter

/-- A filter that was filled by adds only, with the values in their order. -/
inductive Filled (dataType : IntType) (optimal : Optimal) : BloomFilter (BitVec 64) → List (BitVec 64) → Prop where
  | create {maxNumValues : ℤ} {addMinMax : Bool} {f : BloomFilter (BitVec 64)} :
    createBloomFilter (int64Base dataType) optimal maxNumValues addMinMax = some f →
    Filled dataType optimal f []
  | add {f f' : BloomFilter (BitVec 64)} {vals : List (BitVec 64)} {val : BitVec 64} :
    Filled dataType optimal f vals →
    f.addValue (int64Base dataType) val = some f' →
    Filled dataType optimal f' (vals ++ [val])

/-! ## Bits -/

namespace BitSet

variable {s : BitSet} {i j : ℕ}

lemma get_set_iff (hi : i < 64 * s.data.length) : (s.set i).get j = true ↔ s.get j = true ∨ j = i := by
  constructor
  · intro h
    rw [get_eq] at h ⊢
    unfold set at h
    rw [List.getElem?_modify] at h
    cases hword : s.data[j / 64]? with
    | none =>
      rw [hword] at h
      exact .inl h
    | some word =>
      rw [hword] at h
      change (if i / 64 = j / 64 then word ||| BitVec.twoPow 64 (i % 64) else word).getLsbD (j % 64) = true at h
      split at h
      case isFalse => exact .inl h
      case isTrue hquot =>
        rw [BitVec.getLsbD_or, Bool.or_eq_true, BitVec.getLsbD_twoPow, Bool.and_eq_true, decide_eq_true_eq,
          decide_eq_true_eq] at h
        refine h.imp id fun hmod => ?_
        rw [← Nat.div_add_mod j 64, ← Nat.div_add_mod i 64, hquot, hmod.2]
  · rintro (h | rfl)
    · exact get_set_of_get h
    · exact get_set_self hi

lemma get_setAll_iff {positions : List ℕ} (hlt : ∀ p ∈ positions, p < 64 * s.data.length) :
    (s.setAll positions).get j = true ↔ s.get j = true ∨ j ∈ positions := by
  induction positions generalizing s with
  | nil => exact ⟨.inl, fun h => h.resolve_right List.not_mem_nil⟩
  | cons p positions ih =>
    obtain ⟨hp, hpositions⟩ := List.forall_mem_cons.mp hlt
    change ((s.set p).setAll positions).get j = true ↔ _
    rw [ih (length_set.symm ▸ hpositions), get_set_iff hp, List.mem_cons, or_assoc]

lemma get_new (bits j : ℕ) : (BitSet.new bits).get j = false := by
  have hword : ∀ n, (List.replicate n (0 : BitVec 64)).getD (j / 64) 0 = 0 := by
    intro n
    rw [List.getD_eq_getElem?_getD, List.getElem?_replicate]
    split
    · rfl
    · rfl
  rw [BitSet.new, get, hword]
  exact BitVec.getLsbD_zero

/-- The subset test word by word. -/
lemma words_subset_iff {data array : List (BitVec 64)} :
    (∀ i < data.length, data.getD i 0 = 0 ∨ data.getD i 0 &&& array.getD i 0 = data.getD i 0) ↔
      ∀ j, (⟨data⟩ : BitSet).get j = true → (⟨array⟩ : BitSet).get j = true := by
  constructor
  · intro h j hj
    unfold get at hj ⊢
    dsimp only at hj ⊢
    have hlt : j / 64 < data.length := by
      refine Nat.lt_of_not_le fun hge => ?_
      rw [List.getD_eq_default _ _ hge] at hj
      exact absurd (hj.symm.trans BitVec.getLsbD_zero) nofun
    cases h _ hlt with
    | inl hzero =>
      rw [hzero] at hj
      exact absurd (hj.symm.trans BitVec.getLsbD_zero) nofun
    | inr hand =>
      rw [← hand, BitVec.getLsbD_and, Bool.and_eq_true] at hj
      exact hj.2
  · intro h i hi
    refine .inr (BitVec.eq_of_getLsbD_eq fun k hk => ?_)
    have hquot : (64 * i + k) / 64 = i := by omega
    have hmod : (64 * i + k) % 64 = k := by omega
    have hbit := h (64 * i + k)
    unfold get at hbit
    rw [hquot, hmod] at hbit
    rw [BitVec.getLsbD_and]
    cases hword : (data.getD i 0).getLsbD k with
    | false => rfl
    | true => rw [hbit hword, Bool.true_and]

end BitSet

/-! ## What adds maintain -/

lemma int64_compare_neg (dataType : IntType) (x y : BitVec 64) :
    (int64Base dataType).compareValue x y < 0 ↔ x.toInt < y.toInt := by
  simp only [int64Base, BitVec.slt, decide_eq_true_eq]
  split
  · constructor <;> intro h <;> omega
  · split
    · constructor <;> intro h <;> omega
    · constructor <;> intro h <;> omega

lemma int64_compare_pos (dataType : IntType) (x y : BitVec 64) :
    0 < (int64Base dataType).compareValue x y ↔ y.toInt < x.toInt := by
  simp only [int64Base, BitVec.slt, decide_eq_true_eq]
  split
  · constructor <;> intro h <;> omega
  · split
    · constructor <;> intro h <;> omega
    · constructor <;> intro h <;> omega

/-- Two values are the least and the greatest of a list. -/
structure Extremes (vals : List (BitVec 64)) (lo hi : BitVec 64) : Prop where
  lo_mem : lo ∈ vals
  hi_mem : hi ∈ vals
  bounds : ∀ v ∈ vals, lo.toInt ≤ v.toInt ∧ v.toInt ≤ hi.toInt

namespace Extremes

variable {vals : List (BitVec 64)} {lo hi val : BitVec 64}

lemma within (h : Extremes vals lo hi) (hlo : lo.toInt ≤ val.toInt) (hhi : val.toInt ≤ hi.toInt) :
    Extremes (vals ++ [val]) lo hi := by
  refine ⟨List.mem_append_left _ h.lo_mem, List.mem_append_left _ h.hi_mem, fun v hv => ?_⟩
  cases List.mem_append.mp hv with
  | inl hold => exact h.bounds v hold
  | inr hself =>
    rw [List.mem_singleton.mp hself]
    exact ⟨hlo, hhi⟩

lemma below (h : Extremes vals lo hi) (hlo : val.toInt ≤ lo.toInt) : Extremes (vals ++ [val]) val hi := by
  refine ⟨List.mem_append_right _ (List.mem_singleton_self _), List.mem_append_left _ h.hi_mem, fun v hv => ?_⟩
  cases List.mem_append.mp hv with
  | inl hold => exact ⟨hlo.trans (h.bounds v hold).1, (h.bounds v hold).2⟩
  | inr hself =>
    rw [List.mem_singleton.mp hself]
    exact ⟨le_rfl, hlo.trans (h.bounds lo h.lo_mem).2⟩

lemma above (h : Extremes vals lo hi) (hhi : hi.toInt ≤ val.toInt) : Extremes (vals ++ [val]) lo val := by
  refine ⟨List.mem_append_left _ h.lo_mem, List.mem_append_right _ (List.mem_singleton_self _), fun v hv => ?_⟩
  cases List.mem_append.mp hv with
  | inl hold => exact ⟨(h.bounds v hold).1, (h.bounds v hold).2.trans hhi⟩
  | inr hself =>
    rw [List.mem_singleton.mp hself]
    exact ⟨(h.bounds hi h.hi_mem).1.trans hhi, le_rfl⟩

end Extremes

/-- The positions of a value in a filter. -/
def positionsOf (numBits numHashFunctions : ℕ) (value : BitVec 64) : List ℕ :=
  hashPositions numBits numHashFunctions (getLongHash value)

structure FilledInv (f : BloomFilter (BitVec 64)) (vals : List (BitVec 64)) : Prop where
  length : 64 * f.bitSet.data.length = f.numBits
  pos : 0 < f.numBits
  numValues : f.numValues = vals.length
  hasMM : f.hasMM = true ↔ f.addMinMax = true ∧ vals ≠ []
  extremes : f.hasMM = true → Extremes vals f.minValue f.maxValue
  bits : ∀ j, f.bitSet.get j = true ↔ ∃ v ∈ vals, j ∈ positionsOf f.numBits f.numHashFunctions v
  positions : ∀ (i : ℕ) (v : BitVec 64), vals[i]? = some v →
    ∀ (j : ℕ) (hj : j < MAX_HASH_FUNCTIONS), j < f.numHashFunctions →
      (f.valuePositions i).position[j] = BitVec.ofNat 16 ((positionsOf f.numBits f.numHashFunctions v).getD j 0)

variable {dataType thatType : IntType} {optimal : Optimal} {f f' that : BloomFilter (BitVec 64)}
  {vals : List (BitVec 64)} {val : BitVec 64}

lemma FilledInv.create {maxNumValues : ℤ} {addMinMax : Bool}
    (h : createBloomFilter (int64Base dataType) optimal maxNumValues addMinMax = some f) : FilledInv f [] := by
  have hsized := (sized_of_create h).1
  rw [createBloomFilter] at h
  split at h
  · cases h
  · obtain rfl := Option.some.inj h
    refine ⟨hsized.length, hsized.pos, rfl, ?_, ?_, ?_, ?_⟩
    · exact iff_of_false Bool.false_ne_true fun h => h.2 rfl
    · intro hmm
      cases hmm
    · intro j
      rw [BitSet.get_new]
      refine iff_of_false Bool.false_ne_true ?_
      rintro ⟨_, hv, -⟩
      cases hv
    · intro i v hv
      cases hv

/-- The step of minimum and maximum. -/
lemma FilledInv.minMax (h : FilledInv f vals) (dataType : IntType) (val : BitVec 64) :
    ∃ lo hi mm, (if f.addMinMax then f.setMinMax (int64Base dataType) val else f) =
      { f with minValue := lo, maxValue := hi, hasMM := mm } ∧ (mm = true ↔ f.addMinMax = true) ∧
      (mm = true → Extremes (vals ++ [val]) lo hi) := by
  by_cases hflag : f.addMinMax = true
  case neg =>
    have hmm : f.hasMM ≠ true := fun hmm => hflag (h.hasMM.mp hmm).1
    rw [if_neg hflag]
    exact ⟨_, _, f.hasMM, rfl, ⟨fun hmm' => absurd hmm' hmm, fun h => absurd h hflag⟩, fun hmm' => absurd hmm' hmm⟩
  case pos =>
    have hnew : val ∈ vals ++ [val] := List.mem_append_right _ (List.mem_singleton_self _)
    rw [if_pos hflag, BloomFilter.setMinMax]
    by_cases hmm : f.hasMM = true
    case neg =>
      have hnil : vals = [] := Classical.not_not.mp fun hne => hmm (h.hasMM.mpr ⟨hflag, hne⟩)
      rw [if_neg hmm]
      refine ⟨val, val, true, rfl, ⟨fun _ => hflag, fun _ => rfl⟩, fun _ => ⟨hnew, hnew, fun v hv => ?_⟩⟩
      rw [hnil, List.nil_append, List.mem_singleton] at hv
      rw [hv]
      exact ⟨le_rfl, le_rfl⟩
    case pos =>
      have hextremes := h.extremes hmm
      have hlow := int64_compare_neg dataType val f.minValue
      have hhigh := int64_compare_pos dataType val f.maxValue
      rw [if_pos hmm]
      split
      case isTrue hlt =>
        exact ⟨val, f.maxValue, f.hasMM, rfl, ⟨fun _ => hflag, fun _ => hmm⟩,
          fun _ => hextremes.below (hlow.mp hlt).le⟩
      case isFalse hge =>
        have hge' : f.minValue.toInt ≤ val.toInt := Int.not_lt.mp fun h => hge (hlow.mpr h)
        split
        case isTrue hlt =>
          exact ⟨f.minValue, val, f.hasMM, rfl, ⟨fun _ => hflag, fun _ => hmm⟩,
            fun _ => hextremes.above (hhigh.mp hlt).le⟩
        case isFalse hle =>
          have hle' : val.toInt ≤ f.maxValue.toInt := Int.not_lt.mp fun h => hle (hhigh.mpr h)
          exact ⟨f.minValue, f.maxValue, f.hasMM, rfl, ⟨fun _ => hflag, fun _ => hmm⟩,
            fun _ => hextremes.within hge' hle'⟩

lemma length_positionsOf (numBits numHashFunctions : ℕ) (value : BitVec 64) :
    (positionsOf numBits numHashFunctions value).length = numHashFunctions :=
  length_hashPositions

lemma FilledInv.add (h : FilledInv f vals) (hrun : f.addValue (int64Base dataType) val = some f') :
    FilledInv f' (vals ++ [val]) := by
  obtain ⟨lo, hi, mm, hstep, hmm, hextremes⟩ := h.minMax dataType val
  rw [BloomFilter.addValue, hstep, BloomFilter.addHash] at hrun
  split at hrun
  case isTrue => cases hrun
  case isFalse =>
    obtain rfl := Option.some.inj hrun
    have hlt : ∀ p ∈ positionsOf f.numBits f.numHashFunctions val, p < 64 * f.bitSet.data.length := fun p hp => by
      rw [h.length]
      exact hashPositions_lt h.pos hp
    refine ⟨?_, h.pos, ?_, ?_, hextremes, fun j => ?_, fun i v hi j hmax hj => ?_⟩
    · dsimp only
      rw [BitSet.length_setAll, h.length]
    · dsimp only
      rw [h.numValues, List.length_append, List.length_singleton]
    · exact hmm.trans ⟨fun hflag => ⟨hflag, List.append_ne_nil_of_right_ne_nil _ (List.cons_ne_nil _ _)⟩, fun h => h.1⟩
    · refine (BitSet.get_setAll_iff hlt).trans ?_
      rw [h.bits]
      constructor
      · rintro (⟨v, hv, hj⟩ | hj)
        · exact ⟨v, List.mem_append_left _ hv, hj⟩
        · exact ⟨val, List.mem_append_right _ (List.mem_singleton_self _), hj⟩
      · rintro ⟨v, hv, hj⟩
        cases List.mem_append.mp hv with
        | inl hold => exact .inl ⟨v, hold, hj⟩
        | inr hself => exact .inr (List.mem_singleton.mp hself ▸ hj)
    · dsimp only at hj ⊢
      cases Nat.lt_or_ge i vals.length with
      | inl hlt' =>
        have hne : i ≠ f.numValues := by
          rw [h.numValues]
          exact Nat.ne_of_lt hlt'
        rw [List.getElem?_append_left hlt'] at hi
        rw [Function.update_of_ne hne]
        exact h.positions i v hi j hmax hj
      | inr hge =>
        have hlast : i < (vals ++ [val]).length := (List.getElem?_eq_some_iff.mp hi).1
        rw [List.length_append, List.length_singleton] at hlast
        obtain rfl : i = vals.length := by omega
        rw [List.getElem?_append_right le_rfl, Nat.sub_self] at hi
        obtain rfl : val = v := Option.some.inj hi
        rw [h.numValues, Function.update_self]
        dsimp only
        rw [Vector.getElem_ofFn, if_pos hj]
        rfl

lemma Filled.inv (h : Filled dataType optimal f vals) : FilledInv f vals := by
  induction h with
  | create hrun => exact .create hrun
  | add _ hrun ih => exact ih.add hrun

/-! ## The parts of the test -/

section

variable {added thatAdded : List (BitVec 64)}

/-- How the range of the other filter, as it is read, lies to that of one value or of several. -/
def RangeKept (readAs : BitVec 64 → BitVec 64) (added thatAdded : List (BitVec 64)) : Prop :=
  ∀ lo hi, Extremes thatAdded lo hi →
    if added.length = 1 then ∀ v ∈ added, (readAs lo).toInt ≤ v.toInt ∧ v.toInt ≤ (readAs hi).toInt
    else (∃ v ∈ added, v.toInt ≤ (readAs lo).toInt) ∧ ∃ v ∈ added, (readAs hi).toInt ≤ v.toInt

/-- The positions of some value are those of values of the other filter, also when cut to 16 bits. -/
def PositionsKept (numBits numHashFunctions : ℕ) (added thatAdded : List (BitVec 64)) : Prop :=
  ∃ v ∈ added, ∀ p ∈ positionsOf numBits numHashFunctions v,
    ∃ w ∈ thatAdded, p % 2 ^ 16 ∈ positionsOf numBits numHashFunctions w

lemma Extremes.unique {lo hi lo' hi' : BitVec 64} (h : Extremes vals lo hi) (h' : Extremes vals lo' hi') :
    lo = lo' ∧ hi = hi' := by
  have hlo := Int.le_antisymm (h.bounds _ h'.lo_mem).1 (h'.bounds _ h.lo_mem).1
  have hhi := Int.le_antisymm (h'.bounds _ h.hi_mem).2 (h.bounds _ h'.hi_mem).2
  exact ⟨BitVec.toInt_inj.mp hlo, BitVec.toInt_inj.mp hhi⟩

/-- The comparisons with the least and the greatest value. -/
lemma Extremes.exists_le_iff {lo hi : BitVec 64} (h : Extremes vals lo hi) (x : ℤ) :
    (lo.toInt ≤ x ↔ ∃ v ∈ vals, v.toInt ≤ x) ∧ (x ≤ hi.toInt ↔ ∃ v ∈ vals, x ≤ v.toInt) :=
  ⟨⟨fun hle => ⟨lo, h.lo_mem, hle⟩, fun ⟨v, hv, hle⟩ => (h.bounds v hv).1.trans hle⟩,
    ⟨fun hle => ⟨hi, h.hi_mem, hle⟩, fun ⟨v, hv, hle⟩ => hle.trans (h.bounds v hv).2⟩⟩

lemma minMaxCheck_iff (h : FilledInv f added) (hthat : FilledInv that thatAdded) (hne : added ≠ [])
    (hne' : thatAdded ≠ []) :
    f.minMaxCheck dataType thatType that = true ↔
      (f.addMinMax = true → that.addMinMax = true → RangeKept (thatType.readAs dataType) added thatAdded) := by
  have hmm : f.hasMM = true ↔ f.addMinMax = true := h.hasMM.trans (and_iff_left hne)
  have hmm' : that.hasMM = true ↔ that.addMinMax = true := hthat.hasMM.trans (and_iff_left hne')
  rw [BloomFilter.minMaxCheck, ← hmm, ← hmm']
  split
  case isTrue hno =>
    refine ⟨fun _ h1 h2 => ?_, fun _ => rfl⟩
    rw [h1, h2] at hno
    cases hno
  case isFalse hboth =>
    rw [Bool.not_eq_true, Bool.or_eq_false_iff, Bool.not_eq_false', Bool.not_eq_false'] at hboth
    obtain ⟨h1, h2⟩ := hboth
    have hextremes := h.extremes h1
    have hthatExtremes := hthat.extremes h2
    have hkept : (f.hasMM = true → that.hasMM = true → RangeKept (thatType.readAs dataType) added thatAdded) ↔
        if added.length = 1 then ∀ v ∈ added, (thatType.readAs dataType that.minValue).toInt ≤ v.toInt ∧
          v.toInt ≤ (thatType.readAs dataType that.maxValue).toInt
        else (∃ v ∈ added, v.toInt ≤ (thatType.readAs dataType that.minValue).toInt) ∧
          ∃ v ∈ added, (thatType.readAs dataType that.maxValue).toInt ≤ v.toInt := by
      refine ⟨fun hall => hall h1 h2 _ _ hthatExtremes, fun hrange _ _ lo hi hlohi => ?_⟩
      obtain ⟨rfl, rfl⟩ := hlohi.unique hthatExtremes
      exact hrange
    rw [hkept, h.numValues]
    dsimp only
    split
    case isTrue =>
      rw [Bool.and_eq_true, decide_eq_true_eq, decide_eq_true_eq, ← Int.not_lt, int64_compare_neg, ← Int.not_lt,
        int64_compare_pos, Int.not_lt, Int.not_lt]
      constructor
      · intro hrange v hv
        have hbounds := hextremes.bounds v hv
        exact ⟨hrange.1.trans hbounds.1, hbounds.2.trans hrange.2⟩
      · intro hall
        exact ⟨(hall _ hextremes.lo_mem).1, (hall _ hextremes.hi_mem).2⟩
    case isFalse =>
      rw [Bool.not_eq_true', Bool.or_eq_false_iff, decide_eq_false_iff_not, decide_eq_false_iff_not,
        int64_compare_pos, int64_compare_neg, Int.not_lt, Int.not_lt, (hextremes.exists_le_iff _).1,
        (hextremes.exists_le_iff _).2]

section

variable (h : FilledInv f added) (hthat : FilledInv that thatAdded) (hbits : f.numBits = that.numBits)
  (hfuns : f.numHashFunctions = that.numHashFunctions)
include h hthat hbits hfuns

/-- A filter with one value that the other one has is a subset. -/
lemma singleIncludedIn_of_mem (hsub : ∀ v ∈ added, v ∈ thatAdded) : f.singleIncludedIn that.bitSet.data = true := by
  rw [BloomFilter.singleIncludedIn, List.all_eq_true]
  intro i hi
  simp only [Bool.or_eq_true, decide_eq_true_eq]
  refine BitSet.words_subset_iff.mpr (fun j hj => ?_) i (List.mem_range.mp hi)
  obtain ⟨v, hv, hp⟩ := (h.bits j).mp hj
  rw [hbits, hfuns] at hp
  exact (hthat.bits j).mpr ⟨v, hsub v hv, hp⟩

lemma multiIncludedIn_iff (hmax : f.numHashFunctions ≤ MAX_HASH_FUNCTIONS) :
    f.multiIncludedIn that.bitSet.data = true ↔
      PositionsKept f.numBits f.numHashFunctions added thatAdded := by
  have hentry : ∀ (i : ℕ) (v : BitVec 64), added[i]? = some v →
      ((∀ j < f.numHashFunctions, that.bitSet.get (((f.valuePositions i).position[j]?).getD 0).toNat = true) ↔
        ∀ p ∈ positionsOf f.numBits f.numHashFunctions v,
          ∃ w ∈ thatAdded, p % 2 ^ 16 ∈ positionsOf f.numBits f.numHashFunctions w) := by
    intro i v hv
    have hlength := length_positionsOf f.numBits f.numHashFunctions v
    constructor
    · intro hall p hp
      obtain ⟨j, hj, rfl⟩ := List.getElem_of_mem hp
      have hfun : j < f.numHashFunctions := hlength ▸ hj
      have hbit := hall j hfun
      rw [Vector.getElem?_eq_getElem (hfun.trans_le hmax), Option.getD_some,
        h.positions i v hv j (hfun.trans_le hmax) hfun, BitVec.toNat_ofNat, List.getD_eq_getElem _ _ hj, hthat.bits,
        ← hbits, ← hfuns] at hbit
      exact hbit
    · intro hall j hj
      have hj' : j < (positionsOf f.numBits f.numHashFunctions v).length := hlength.symm ▸ hj
      rw [Vector.getElem?_eq_getElem (hj.trans_le hmax), Option.getD_some, h.positions i v hv j (hj.trans_le hmax) hj,
        BitVec.toNat_ofNat, List.getD_eq_getElem _ _ hj', hthat.bits, ← hbits, ← hfuns]
      exact hall _ (List.getElem_mem hj')
  rw [BloomFilter.multiIncludedIn, List.any_eq_true]
  simp only [List.mem_range, List.all_eq_true, h.numValues]
  constructor
  · rintro ⟨i, hi, hall⟩
    exact ⟨added[i], List.getElem_mem hi, (hentry i _ (List.getElem?_eq_getElem hi)).mp hall⟩
  · rintro ⟨v, hv, hall⟩
    obtain ⟨i, hi, rfl⟩ := List.getElem_of_mem hv
    exact ⟨i, hi, (hentry i _ (List.getElem?_eq_getElem hi)).mpr hall⟩

end

/-! ## Filters of one type -/

/-- A value of the type. -/
def Fits (dataType : IntType) (value : BitVec 64) : Prop := ∃ datum, value = (int64Base dataType).datumToValue datum

lemma setWidth_signExtend {n m : ℕ} (h : n ≤ m) (x : BitVec n) : (x.signExtend m).setWidth n = x := by
  refine BitVec.eq_of_getLsbD_eq fun i hi => ?_
  rw [BitVec.getLsbD_setWidth, BitVec.getLsbD_signExtend, decide_eq_true hi, decide_eq_true (hi.trans_le h), if_pos hi]
  rfl

lemma Fits.readAs (h : Fits dataType val) : dataType.readAs dataType val = val := by
  obtain ⟨datum, rfl⟩ := h
  cases dataType with
  | int8 => rfl
  | int2 =>
    simp only [IntType.readAs, IntType.valueToDatum, int64Base]
    rw [BitVec.setWidth_setWidth_of_le _ (by decide), setWidth_signExtend (by decide), BitVec.setWidth_eq]
  | int4 =>
    simp only [IntType.readAs, IntType.valueToDatum, int64Base]
    rw [BitVec.setWidth_setWidth_of_le _ (by decide), setWidth_signExtend (by decide), BitVec.setWidth_eq]

/-- The range condition where the ends of the other range are read as they are. -/
lemma rangeKept_iff {readAs : BitVec 64 → BitVec 64} {added thatAdded : List (BitVec 64)} {lo hi : BitVec 64}
    (hextremes : Extremes thatAdded lo hi) (hread : ∀ w ∈ thatAdded, readAs w = w)
    (hcommon : ∃ v ∈ added, v ∈ thatAdded) :
    RangeKept readAs added thatAdded ↔
      added.length = 1 ∨
        ∀ w ∈ thatAdded, (∃ v ∈ added, v.toInt ≤ w.toInt) ∧ ∃ v ∈ added, w.toInt ≤ v.toInt := by
  have hlo := hread _ hextremes.lo_mem
  have hhi := hread _ hextremes.hi_mem
  constructor
  · intro hrange
    by_cases hone : added.length = 1
    · exact .inl hone
    · have hkept := hrange lo hi hextremes
      rw [if_neg hone, hlo, hhi] at hkept
      obtain ⟨⟨v, hv, hvlo⟩, u, hu, hhiu⟩ := hkept
      refine .inr fun w hw => ?_
      have hbounds := hextremes.bounds w hw
      exact ⟨⟨v, hv, hvlo.trans hbounds.1⟩, u, hu, hbounds.2.trans hhiu⟩
  · rintro hcase lo' hi' hextremes'
    obtain ⟨rfl, rfl⟩ := hextremes'.unique hextremes
    rw [hlo, hhi]
    split
    case isTrue hone =>
      obtain ⟨v, hv, hv'⟩ := hcommon
      obtain ⟨u, rfl⟩ := List.length_eq_one_iff.mp hone
      intro x hx
      rw [List.mem_singleton] at hv hx
      subst hv hx
      exact hextremes.bounds _ hv'
    case isFalse hone =>
      have hcover := hcase.resolve_left hone
      exact ⟨(hcover _ hextremes.lo_mem).1, (hcover _ hextremes.hi_mem).2⟩

/-- Positions of at most 16 bits are kept. -/
lemma positionsKept_of_le {numBits numHashFunctions : ℕ} (hpos : 0 < numBits) (hle : numBits ≤ 2 ^ 16)
    {added thatAdded : List (BitVec 64)} (hcommon : ∃ v ∈ added, v ∈ thatAdded) :
    PositionsKept numBits numHashFunctions added thatAdded := by
  obtain ⟨v, hv, hv'⟩ := hcommon
  refine ⟨v, hv, fun p hp => ⟨v, hv', ?_⟩⟩
  rwa [Nat.mod_eq_of_lt ((hashPositions_lt hpos hp).trans_le hle)]

end

/-- The test passes two filters with a common value, with all stored positions inside their tables, exactly when the
hash functions are at most four, the ranges are kept, and there is one value or the positions are kept. For filters of
one type the ranges are kept when there is one value or the values reach as far as those of the other filter. -/
theorem includedIn_iff {optimal : Optimal} {dataType thatType : IntType} {f that : BloomFilter (BitVec 64)}
    {added thatAdded : List (BitVec 64)} (hf : Filled dataType optimal f added)
    (hthat : Filled thatType optimal that thatAdded) (hbits : f.numBits = that.numBits)
    (hfuns : f.numHashFunctions = that.numHashFunctions) (hcommon : ∃ v ∈ added, v ∈ thatAdded) :
    ((f.numHashFunctions ≤ MAX_HASH_FUNCTIONS ∧ f.includedIn dataType thatType that = true) ↔
      f.numHashFunctions ≤ MAX_HASH_FUNCTIONS ∧
        (f.addMinMax = true → that.addMinMax = true → RangeKept (thatType.readAs dataType) added thatAdded) ∧
        (added.length = 1 ∨ PositionsKept f.numBits f.numHashFunctions added thatAdded)) ∧
    (thatType = dataType → (∀ w ∈ thatAdded, Fits thatType w) → that.addMinMax = true →
      (RangeKept (thatType.readAs dataType) added thatAdded ↔
        added.length = 1 ∨
          ∀ w ∈ thatAdded, (∃ v ∈ added, v.toInt ≤ w.toInt) ∧ ∃ v ∈ added, w.toInt ≤ v.toInt)) ∧
    (f.numBits ≤ 2 ^ 16 → PositionsKept f.numBits f.numHashFunctions added thatAdded) := by
  have hinv := hf.inv
  have hinv' := hthat.inv
  obtain ⟨v, hv, hv'⟩ := hcommon
  have hne : added ≠ [] := List.ne_nil_of_mem hv
  have hne' : thatAdded ≠ [] := List.ne_nil_of_mem hv'
  have hvalues : f.numHashFunctions ≤ MAX_HASH_FUNCTIONS → (f.includedInBits that.bitSet.data = true ↔
      added.length = 1 ∨ PositionsKept f.numBits f.numHashFunctions added thatAdded) := by
    intro hmax
    rw [BloomFilter.includedInBits, hinv.numValues, if_neg (List.length_eq_zero_iff.not.mpr hne)]
    split
    case isTrue hone =>
      refine ⟨fun _ => .inl hone, fun _ => singleIncludedIn_of_mem hinv hinv' hbits hfuns fun u hu => ?_⟩
      obtain ⟨x, rfl⟩ := List.length_eq_one_iff.mp hone
      rw [List.mem_singleton.mp hu, ← List.mem_singleton.mp hv]
      exact hv'
    case isFalse hone =>
      rw [multiIncludedIn_iff hinv hinv' hbits hfuns hmax]
      exact (or_iff_right hone).symm
  refine ⟨and_congr_right fun hmax => ?_, ?_, fun hle => positionsKept_of_le hinv.pos hle ⟨v, hv, hv'⟩⟩
  · rw [BloomFilter.includedIn, if_pos ⟨hbits, hfuns⟩, Bool.and_eq_true, minMaxCheck_iff hinv hinv' hne hne',
      hvalues hmax]
  · rintro rfl hfits hflag
    have hextremes := hinv'.extremes (hinv'.hasMM.mpr ⟨hflag, hne'⟩)
    exact rangeKept_iff hextremes (fun w hw => (hfits w hw).readAs) ⟨v, hv, hv'⟩

/-- An add below the limit returns, and changes no size. -/
lemma addValue_returns (b : BaseType (BitVec 64) (BitVec 64)) (hlt : f.numValues < f.maxNumValues) (val : BitVec 64) :
    ∃ f', f.addValue b val = some f' ∧ f'.numBits = f.numBits ∧ f'.numHashFunctions = f.numHashFunctions ∧
      f'.addMinMax = f.addMinMax ∧ f'.numValues = f.numValues + 1 ∧ f'.maxNumValues = f.maxNumValues := by
  obtain ⟨_, _, _, hstep, -, -⟩ := minMaxStep_fields (b := b) (f := f) val
  rw [BloomFilter.addValue, hstep, BloomFilter.addHash, if_neg (Nat.not_le.mpr hlt)]
  exact ⟨_, rfl, rfl, rfl, rfl, rfl, rfl⟩

/-- A filter with two values. -/
lemma filled_two (u v : BitVec 64) (addMinMax : Bool) :
    ∃ f, Filled .int8 optimal500 f [u, v] ∧ f.numBits = 3136 ∧ f.numHashFunctions = 4 ∧ f.addMinMax = addMinMax := by
  have hcreate : ∃ f, createBloomFilter (int64Base .int8) optimal500 500 addMinMax = some f ∧ f.numBits = 3136 ∧
      f.numHashFunctions = 4 ∧ f.addMinMax = addMinMax ∧ f.numValues = 0 ∧ f.maxNumValues = 500 :=
    ⟨_, rfl, rfl, rfl, rfl, rfl, rfl⟩
  obtain ⟨f, hf, hbits, hfuns, hflag, hcount, hmax⟩ := hcreate
  obtain ⟨f', hf', hbits', hfuns', hflag', hcount', hmax'⟩ := addValue_returns (int64Base .int8) (f := f) (by omega) u
  obtain ⟨f'', hf'', hbits'', hfuns'', hflag'', -, -⟩ := addValue_returns (int64Base .int8) (f := f') (by omega) v
  have hone : Filled .int8 optimal500 f' ([] ++ [u]) := .add (.create hf) hf'
  have htwo : Filled .int8 optimal500 f'' ([u] ++ [v]) := .add hone hf''
  exact ⟨f'', htwo, hbits''.trans (hbits'.trans hbits),
    hfuns''.trans (hfuns'.trans hfuns), hflag''.trans (hflag'.trans hflag)⟩

theorem includedIn_iff_two : ∃ f that, Filled .int8 optimal500 f [5#64, 7#64] ∧
    Filled .int8 optimal500 that [7#64, 6#64] ∧ f.includedIn .int8 .int8 that = true := by
  obtain ⟨f, hf, hbits, hfuns, hflag⟩ := filled_two 5#64 7#64 true
  obtain ⟨that, hthat, hbits', hfuns', hflag'⟩ := filled_two 7#64 6#64 true
  obtain ⟨htest, hrange, hpositions⟩ := includedIn_iff hf hthat (hbits.trans hbits'.symm) (hfuns.trans hfuns'.symm)
    ⟨7#64, by decide, by decide⟩
  have hkept := (hrange rfl (fun w _ => ⟨w, rfl⟩) hflag').mpr (.inr (by simp))
  refine ⟨f, that, hf, hthat, (htest.mpr ⟨hfuns.le, fun _ _ => hkept, .inr (hpositions ?_)⟩).2⟩
  rw [hbits]
  decide

/-- The values 5 and 7 against 5 and 100: both filters have 5, and the range of the second reaches further. -/
theorem not_includedIn :
    ¬ ∀ (f that : BloomFilter (BitVec 64)) (added thatAdded : List (BitVec 64)),
      Filled .int8 optimal500 f added → Filled .int8 optimal500 that thatAdded → f.numBits = that.numBits →
        f.numHashFunctions = that.numHashFunctions → (∃ v ∈ added, v ∈ thatAdded) →
          f.includedIn .int8 .int8 that = true := by
  intro h
  obtain ⟨f, hf, hbits, hfuns, hflag⟩ := filled_two 5#64 7#64 true
  obtain ⟨that, hthat, hbits', hfuns', hflag'⟩ := filled_two 5#64 100#64 true
  have hincluded := h f that _ _ hf hthat (hbits.trans hbits'.symm) (hfuns.trans hfuns'.symm)
    ⟨5#64, by decide, by decide⟩
  rw [BloomFilter.includedIn, if_pos ⟨hbits.trans hbits'.symm, hfuns.trans hfuns'.symm⟩, Bool.and_eq_true,
    minMaxCheck_iff hf.inv hthat.inv (List.cons_ne_nil _ _) (List.cons_ne_nil _ _)] at hincluded
  have hkept := hincluded.1 hflag hflag' 5#64 100#64 ⟨by simp, by simp, by simp⟩
  rw [if_neg (by decide)] at hkept
  obtain ⟨v, hv, hle⟩ := hkept.2
  cases List.mem_cons.mp hv with
  | inl h5 =>
    subst h5
    simp [IntType.readAs, IntType.valueToDatum, int64Base] at hle
  | inr h7 =>
    rw [List.mem_singleton.mp h7] at hle
    simp [IntType.readAs, IntType.valueToDatum, int64Base] at hle

end GaussKernel.Cbb
