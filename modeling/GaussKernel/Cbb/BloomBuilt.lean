import GaussKernel.Cbb.BloomTables

/-!
# Membership in built Bloom filters

Filters that are built by adds, unions, resets and transfers have no false negatives except for two defects: the union
of a filter with one value, which goes on to answer by its minimum, and filters with more hash functions than `position`
has elements, whose adds store behind the element.
-/

namespace GaussKernel.Cbb

/-! ## Filters that are built -/

/-- A store to `valuePositions[entryNum].position[funNum]`, where `startupEntries` elements are allocated. -/
structure TableWrite where
  entryNum : ℕ
  funNum : ℕ
  startupEntries : ℕ

/-- The store is inside the table and inside the element. -/
def TableWrite.Inside (w : TableWrite) : Prop := w.entryNum < w.startupEntries ∧ w.funNum < MAX_HASH_FUNCTIONS

section Filter

variable {D α : Type}

/-- The stores of an add from `f` to `f'`. -/
def addWrites (f f' : BloomFilter α) : List TableWrite := f.stores.map fun w => ⟨w.1, w.2, f'.startupEntries⟩

/-- A filter that is built by the operations, with the data added to it since its last reset, the last one first, the
data of the filters that were united into it, and all stores to the tables of positions that the operations made. -/
inductive Built (b : BaseType D α) (optimal : Optimal) :
    BloomFilter α → List D → Set D → List TableWrite → Prop where
  | create {maxNumValues addMinMax f} (hrun : createBloomFilter b optimal maxNumValues addMinMax = some f) :
      Built b optimal f [] ∅ []
  | add {f added united writes d f'} (h : Built b optimal f added united writes) (hrun : f.addDatum b d = some f') :
      Built b optimal f' (d :: added) united (writes ++ addWrites f f')
  | union {f added united writes that added' united' writes' f'} (h : Built b optimal f added united writes)
      (hthat : Built b optimal that added' united' writes') (hrun : f.unionAll that = some f') :
      Built b optimal f' added (united ∪ {d | d ∈ added' ∨ d ∈ united'}) (writes ++ writes')
  | reset {f added united writes} (h : Built b optimal f added united writes) : Built b optimal f.reset [] ∅ writes
  | transfer {f added united writes} (h : Built b optimal f added united writes) :
      Built b optimal (rebuildBloomFilterValue f.makeBloomFilterSet) added united writes

/-- All bits of a value are set. -/
def BloomFilter.HasBits (f : BloomFilter α) (hash64 : BitVec 64) : Prop :=
  ∀ p ∈ hashPositions f.numBits f.numHashFunctions hash64, f.bitSet.get p = true

/-- What the operations maintain: the sizes, the bits of all data, the minimum of those added, and where the positions
were stored. -/
structure BuiltInv (b : BaseType D α) (f : BloomFilter α) (added : List D) (united : Set D)
    (writes : List TableWrite) : Prop where
  sized : Sized f f.maxNumValues f.numHashFunctions f.addMinMax
  functions : 0 < f.numHashFunctions
  numValues : f.numValues = added.length
  bits : ∀ d, d ∈ added ∨ d ∈ united → f.HasBits (b.hash (b.datumToValue d))
  empty : added = [] → f.hasMM = false
  single : f.addMinMax = true → ∀ d, added = [d] → f.minValue = b.datumToValue d
  writes : (∀ w ∈ writes, w.Inside) ↔ writes = [] ∨ f.numHashFunctions ≤ MAX_HASH_FUNCTIONS

section Runs

variable {b : BaseType D α} {optimal : Optimal} {f f' that : BloomFilter α} {added added' : List D}
  {united united' : Set D} {writes writes' : List TableWrite}
  {d : D} {maxNumValues : ℤ} {addMinMax : Bool} {hash64 : BitVec 64}

/-- Nothing was added to a new filter, or to one that was reset. -/
lemma BuiltInv.of_empty (hsized : Sized f f.maxNumValues f.numHashFunctions f.addMinMax)
    (hfunctions : 0 < f.numHashFunctions) (hzero : f.numValues = 0) (hmm : f.hasMM = false)
    (hwrites : (∀ w ∈ writes, w.Inside) ↔ writes = [] ∨ f.numHashFunctions ≤ MAX_HASH_FUNCTIONS) :
    BuiltInv b f [] ∅ writes where
  sized := hsized
  functions := hfunctions
  numValues := hzero
  bits _ hd := hd.elim (fun h => absurd h List.not_mem_nil) (fun h => h.elim)
  empty _ := hmm
  single _ _ hd := absurd hd (List.cons_ne_nil _ _).symm
  writes := hwrites

lemma BuiltInv.create (hrun : createBloomFilter b optimal maxNumValues addMinMax = some f) :
    BuiltInv b f [] ∅ [] := by
  have hsized := (sized_of_create hrun).1
  have hfresh : f.numValues = 0 ∧ f.hasMM = false := by
    rw [createBloomFilter] at hrun
    split at hrun
    · cases hrun
    · cases hrun
      exact ⟨rfl, rfl⟩
  refine .of_empty ?_ ?_ hfresh.1 hfresh.2 ⟨fun _ => .inl rfl, fun _ w hw => absurd hw List.not_mem_nil⟩
  · rw [hsized.max, hsized.functions, hsized.flag]
    exact hsized
  · rw [hsized.functions]
    exact Nat.lt_of_lt_of_le Nat.one_pos (Nat.le_max_left _ _)

/-- The stores of one add. -/
lemma addWrites_inside_iff (hfunctions : 0 < f.numHashFunctions) (hstartup : f.numValues < f'.startupEntries) :
    (∀ w ∈ addWrites f f', w.Inside) ↔ f.numHashFunctions ≤ MAX_HASH_FUNCTIONS := by
  have hmem : ∀ i < f.numHashFunctions, (⟨f.numValues, i, f'.startupEntries⟩ : TableWrite) ∈ addWrites f f' :=
    fun i hi => List.mem_map.mpr ⟨(f.numValues, i), List.mem_map.mpr ⟨i, List.mem_range.mpr hi, rfl⟩, rfl⟩
  constructor
  · intro hall
    have hlast := (hall _ (hmem (f.numHashFunctions - 1) (by omega))).2
    dsimp only at hlast
    omega
  · intro hle w hw
    obtain ⟨s, hs, rfl⟩ := List.mem_map.mp hw
    obtain ⟨i, hi, rfl⟩ := List.mem_map.mp hs
    exact ⟨hstartup, (List.mem_range.mp hi).trans_le hle⟩

lemma addWrites_ne_nil (hfunctions : 0 < f.numHashFunctions) : addWrites f f' ≠ [] := by
  intro hnil
  have hlength := congrArg List.length hnil
  rw [addWrites, BloomFilter.stores, List.length_map, List.length_map, List.length_range] at hlength
  exact hfunctions.ne' hlength

/-- What an add does to the fields: the bits of the value are set, and the others stay set. -/
lemma addDatum_spec (hlength : 64 * f.bitSet.data.length = f.numBits) (hpos : 0 < f.numBits)
    (hrun : f.addDatum b d = some f') :
    f.numValues < f.maxNumValues ∧ f'.numHashFunctions = f.numHashFunctions ∧ f'.maxNumValues = f.maxNumValues ∧
      f'.addMinMax = f.addMinMax ∧ f'.HasBits (b.hash (b.datumToValue d)) ∧
      (∀ hash', f.HasBits hash' → f'.HasBits hash') ∧
      (f.addMinMax = true → f.hasMM = false → f'.minValue = b.datumToValue d) := by
  obtain ⟨mn, mx, mm, hstep, -, -⟩ := minMaxStep_fields (b := b) (f := f) (b.datumToValue d)
  have hmin : f.addMinMax = true → f.hasMM = false → mn = b.datumToValue d := by
    intro hflag hmm
    rw [if_pos hflag, BloomFilter.setMinMax, if_neg (Bool.eq_false_iff.mp hmm)] at hstep
    exact (congrArg BloomFilter.minValue hstep).symm
  rw [BloomFilter.addDatum, BloomFilter.addValue, hstep, BloomFilter.addHash] at hrun
  split at hrun
  case isTrue => cases hrun
  case isFalse hroom =>
    cases hrun
    refine ⟨Nat.not_le.mp hroom, rfl, rfl, rfl, fun p hp => ?_, fun hash' hbits p hp => ?_, hmin⟩
    · refine BitSet.get_setAll_of_mem hp ?_
      rw [hlength]
      exact hashPositions_lt hpos hp
    · exact BitSet.get_setAll_of_get (hbits p hp)

lemma BuiltInv.add (h : BuiltInv b f added united writes) (hrun : f.addDatum b d = some f') :
    BuiltInv b f' (d :: added) united (writes ++ addWrites f f') := by
  obtain ⟨hroom, hfuns, hmax, hflag, hnew, hold, hmin⟩ := addDatum_spec h.sized.length h.sized.pos hrun
  obtain ⟨f₁, hrun₁, hcount, hstartup, hsized⟩ := h.sized.addValue (b := b) hroom (b.datumToValue d)
  obtain rfl : f₁ = f' := Option.some.inj (hrun₁.symm.trans hrun)
  refine ⟨?_, ?_, ?_, ?_, fun hnil => absurd hnil (List.cons_ne_nil _ _), ?_, ?_⟩
  · rw [hmax, hfuns, hflag]
    exact hsized
  · rw [hfuns]
    exact h.functions
  · rw [hcount, h.numValues, List.length_cons]
  · rintro e (he | he)
    · rcases List.mem_cons.mp he with rfl | he
      · exact hnew
      · exact hold _ (h.bits e (.inl he))
    · exact hold _ (h.bits e (.inr he))
  · intro hflag' e he
    obtain ⟨rfl, rfl⟩ := List.cons.inj he
    exact hmin (hflag ▸ hflag') (h.empty rfl)
  · rw [List.forall_mem_append, addWrites_inside_iff h.functions hstartup, h.writes, hfuns]
    constructor
    · exact fun hboth => .inr hboth.2
    · intro hcase
      have hle := hcase.resolve_left (List.append_ne_nil_of_right_ne_nil _ (addWrites_ne_nil h.functions))
      exact ⟨.inr hle, hle⟩

lemma BuiltInv.union (h : BuiltInv b f added united writes) (hthat : BuiltInv b that added' united' writes')
    (hrun : f.unionAll that = some f') :
    BuiltInv b f' added (united ∪ {d | d ∈ added' ∨ d ∈ united'}) (writes ++ writes') := by
  unfold BloomFilter.unionAll at hrun
  split at hrun
  case isFalse => cases hrun
  case isTrue hsame =>
    cases hrun
    obtain ⟨hnum, hfuns⟩ := hsame
    have hlen : that.bitSet.data.length = f.bitSet.data.length := by
      have h1 := h.sized.length
      have h2 := hthat.sized.length
      omega
    refine ⟨{ h.sized with length := ?_ }, h.functions, h.numValues, ?_, h.empty, h.single, ?_⟩
    · unfold BitSet.unionAll
      dsimp only
      rw [List.length_zipWith, hlen, Nat.min_self, h.sized.length]
    · intro d hd p hp
      dsimp only at hp ⊢
      rw [BitSet.get_unionAll hlen, Bool.or_eq_true]
      rcases hd with hd | hd | hd
      · exact .inl (h.bits d (.inl hd) p hp)
      · exact .inl (h.bits d (.inr hd) p hp)
      · rw [hnum, hfuns] at hp
        exact .inr (hthat.bits d hd p hp)
    · rw [List.forall_mem_append, h.writes, hthat.writes, ← hfuns, List.append_eq_nil_iff]
      exact and_or_right.symm

lemma BuiltInv.reset (h : BuiltInv b f added united writes) : BuiltInv b f.reset [] ∅ writes := by
  refine .of_empty { h.sized with length := ?_, values := Nat.zero_le _, hasMM := fun _ hpos => ?_ } h.functions rfl rfl
    h.writes
  · change 64 * (f.bitSet.data.map fun _ => 0).length = f.numBits
    rw [List.length_map, h.sized.length]
  · exact absurd hpos (Nat.lt_irrefl 0)

lemma Built.inv (h : Built b optimal f added united writes) : BuiltInv b f added united writes := by
  induction h with
  | create hrun => exact .create hrun
  | add _ hrun ih => exact ih.add hrun
  | union _ _ hrun ih ihthat => exact ih.union ihthat hrun
  | reset _ ih => exact ih.reset
  | transfer _ ih => exact ⟨{ ih.sized with }, ih.functions, ih.numValues, ih.bits, ih.empty, ih.single, ih.writes⟩

lemma HasBits.includes (h : f.HasBits hash64) : f.includeHashInternal hash64 = true := List.all_eq_true.mpr h

/-- Whenever a filter keeps minimum and maximum and exactly one datum was added to it since its last reset, what was
united into it has the same value. -/
def UnionsAgree (b : BaseType D α) (addMinMax : Bool) (added : List D) (united : Set D) : Prop :=
  addMinMax = true → ∀ d, added = [d] → ∀ e ∈ united, b.datumToValue e = b.datumToValue d

/-- A filter with minimum and maximum answers for its only value; all others answer for everything. -/
lemma Built.includes_iff [DecidableEq α] (h : Built b optimal f added united writes) :
    (∀ d, d ∈ added ∨ d ∈ united → f.includeDatum b d = true) ↔ UnionsAgree b f.addMinMax added united := by
  have hinv := h.inv
  constructor
  · intro hall hflag d hd e he
    have hone : f.numValues = 1 := by
      rw [hinv.numValues, hd]
      rfl
    have hinc := hall e (.inr he)
    unfold BloomFilter.includeDatum BloomFilter.includeValue at hinc
    rw [if_pos ⟨hflag, hone⟩, hinv.single hflag d hd] at hinc
    exact of_decide_eq_true hinc
  · intro hcond e he
    unfold BloomFilter.includeDatum BloomFilter.includeValue
    split
    case isFalse => exact HasBits.includes (hinv.bits e he)
    case isTrue hone =>
      obtain ⟨hflag, hcount⟩ := hone
      obtain ⟨d, hd⟩ := List.length_eq_one_iff.mp (hinv.numValues ▸ hcount)
      rw [hinv.single hflag d hd]
      refine decide_eq_true ?_
      rcases he with he | he
      · rw [hd] at he
        rw [List.mem_singleton.mp he]
      · exact hcond hflag d hd e he

/-- All stores were inside the table, and the filter has everything that was added to it. -/
def Contains [DecidableEq α] (b : BaseType D α) (f : BloomFilter α) (added : List D) (united : Set D)
    (writes : List TableWrite) : Prop :=
  (∀ w ∈ writes, w.Inside) ∧ ∀ d, d ∈ added ∨ d ∈ united → f.includeDatum b d = true

lemma Built.contains_iff [DecidableEq α] (h : Built b optimal f added united writes) :
    Contains b f added united writes ↔
      (writes = [] ∨ f.numHashFunctions ≤ MAX_HASH_FUNCTIONS) ∧ UnionsAgree b f.addMinMax added united :=
  and_congr h.inv.writes h.includes_iff

end Runs

end Filter

/-- No integer and no string filter has false negatives, except those for the unions of a filter with one value, and
those of filters with more than four hash functions, whose adds store behind `position`. -/
theorem built_includes (optimal : Optimal) :
    (∀ (dataType : IntType) (f : BloomFilter (BitVec 64)) (added : List (BitVec 64)) (united : Set (BitVec 64))
      (writes : List TableWrite), Built (int64Base dataType) optimal f added united writes →
      (Contains (int64Base dataType) f added united writes ↔
        (writes = [] ∨ f.numHashFunctions ≤ MAX_HASH_FUNCTIONS) ∧
          UnionsAgree (int64Base dataType) f.addMinMax added united)) ∧
    ∀ (dataType : StringType) (bpcharin : List (BitVec 8) → List (BitVec 8))
      (varstrCmp : List (BitVec 8) → List (BitVec 8) → ℤ) (f : BloomFilter (Option (List (BitVec 8))))
      (added : List (List (BitVec 8))) (united : Set (List (BitVec 8))) (writes : List TableWrite),
      Built (stringBase dataType bpcharin varstrCmp) optimal f added united writes →
      (Contains (stringBase dataType bpcharin varstrCmp) f added united writes ↔
        (writes = [] ∨ f.numHashFunctions ≤ MAX_HASH_FUNCTIONS) ∧
          UnionsAgree (stringBase dataType bpcharin varstrCmp) f.addMinMax added united) :=
  ⟨fun _ _ _ _ _ h => h.contains_iff, fun _ _ _ _ _ _ _ h => h.contains_iff⟩

/-- A filter with minimum and maximum to which one value was added. -/
lemma built_one (d : BitVec 64) : ∃ f writes, Built (int64Base .int8) optimal500 f [d] ∅ writes ∧
    f.addMinMax = true ∧ f.numBits = 3136 ∧ f.numHashFunctions = 4 ∧ writes.length = 4 := by
  have hcreate : ∃ f, createBloomFilter (int64Base .int8) optimal500 500 true = some f := ⟨_, rfl⟩
  obtain ⟨f, hf⟩ := hcreate
  have hadd : ∃ f', f.addDatum (int64Base .int8) d = some f' := by
    cases hf
    exact ⟨_, rfl⟩
  obtain ⟨f', hf'⟩ := hadd
  refine ⟨f', _, .add (.create hf) hf', ?_, ?_, ?_, ?_⟩
  all_goals
    cases hf
    cases hf'
    rfl

/-- The filter with 5 is united with another one that has 5. -/
theorem built_includes_one : ∃ f added united writes, Built (int64Base .int8) optimal500 f added united writes ∧
    5#64 ∈ united ∧ writes.length = 8 ∧ (∀ w ∈ writes, w.Inside) ∧
      f.includeDatum (int64Base .int8) 5#64 = true := by
  obtain ⟨f, writes, h, _, hbits, hfuns, hlength⟩ := built_one 5#64
  have hrun : f.unionAll f = some { f with bitSet := f.bitSet.unionAll f.bitSet.data } := if_pos ⟨rfl, rfl⟩
  have hunion := Built.union h h hrun
  have hmem : 5#64 ∈ (∅ ∪ {d | d ∈ [5#64] ∨ d ∈ (∅ : Set (BitVec 64))}) := .inr (.inl (List.mem_singleton_self _))
  have hagree : UnionsAgree (int64Base .int8) f.addMinMax [5#64]
      (∅ ∪ {d | d ∈ [5#64] ∨ d ∈ (∅ : Set (BitVec 64))}) := by
    rintro - d hd e (he | he | he)
    · exact he.elim
    · rw [List.mem_singleton.mp he, (List.cons.inj hd).1]
    · exact he.elim
  obtain ⟨hinside, hall⟩ := ((built_includes optimal500).1 .int8 _ _ _ _ hunion).mpr ⟨.inr hfuns.le, hagree⟩
  refine ⟨_, _, _, _, hunion, hmem, ?_, hinside, hall _ (.inr hmem)⟩
  rw [List.length_append, hlength]

/-- The filter with 5 is united with one that has 7, and answers that it does not have 7. -/
theorem union_not_included : ∃ f that f' writes writes', Built (int64Base .int8) optimal500 f [5#64] ∅ writes ∧
    Built (int64Base .int8) optimal500 that [7#64] ∅ writes' ∧ f.unionAll that = some f' ∧
    f'.includeDatum (int64Base .int8) 7#64 = false := by
  obtain ⟨f, writes, h, hflag, hbits, hfuns, -⟩ := built_one 5#64
  obtain ⟨that, writes', hthat, _, hbits', hfuns', -⟩ := built_one 7#64
  have hrun : f.unionAll that = some { f with bitSet := f.bitSet.unionAll that.bitSet.data } :=
    if_pos ⟨hbits.trans hbits'.symm, hfuns.trans hfuns'.symm⟩
  refine ⟨f, that, _, writes, writes', h, hthat, hrun, ?_⟩
  have hinv := h.inv
  unfold BloomFilter.includeDatum BloomFilter.includeValue
  rw [if_pos ⟨hflag, hinv.numValues⟩]
  dsimp only
  rw [hinv.single hflag _ rfl]
  rfl

end GaussKernel.Cbb
