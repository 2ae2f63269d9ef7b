import Mathlib

/-!
# Bloom filters

Model of `bloom_filter.cpp` for integers and strings. A filter answers from its bits, or, when it keeps minimum and
maximum and has one value, by comparing with the minimum. Adding maintains both, `unionAll` the bits only.

The sizes that the constructor computes from floating-point logarithms, the comparison of strings under a collation and
the padding of `bpchar` are parameters. `none` is an `ereport(ERROR)`.
-/

namespace GaussKernel.Cbb

/-! ## Bit sets -/

structure BitSet where
  data : List (BitVec 64)
  deriving DecidableEq

namespace BitSet

def new (bits : ℕ) : BitSet := ⟨List.replicate (bits / 64 + if bits % 64 = 0 then 0 else 1) 0⟩

/-- The shift of `1L` takes the index modulo 64. -/
def set (s : BitSet) (index : ℕ) : BitSet := ⟨s.data.modify (index / 64) (· ||| BitVec.twoPow 64 (index % 64))⟩

def get (s : BitSet) (index : ℕ) : Bool := (s.data.getD (index / 64) 0).getLsbD (index % 64)

def unionAll (s : BitSet) (array : List (BitVec 64)) : BitSet := ⟨s.data.zipWith (· ||| ·) array⟩

def clear (s : BitSet) : BitSet := ⟨s.data.map fun _ => 0⟩

section Bits

variable {s : BitSet} {i j : ℕ} {array : List (BitVec 64)}

/-- Setting a bit keeps the number of words. -/
@[simp]
lemma length_set : (s.set i).data.length = s.data.length := List.length_modify _ _ _

/-- A bit, read from its word. -/
lemma get_eq : s.get j = ((s.data[j / 64]?).getD 0).getLsbD (j % 64) := by
  rw [get, List.getD_eq_getElem?_getD]

/-- Setting a bit clears none. -/
lemma get_set_of_get (h : s.get j = true) : (s.set i).get j = true := by
  rw [get_eq] at h ⊢
  unfold set
  rw [List.getElem?_modify]
  cases hword : s.data[j / 64]? with
  | none =>
    rw [hword] at h
    exact h
  | some word =>
    rw [hword] at h
    change (if i / 64 = j / 64 then word ||| BitVec.twoPow 64 (i % 64) else word).getLsbD (j % 64) = true
    split
    · rw [BitVec.getLsbD_or, show word.getLsbD (j % 64) = true from h, Bool.true_or]
    · exact h

/-- A bit that was set is read back. -/
lemma get_set_self (h : i < 64 * s.data.length) : (s.set i).get i = true := by
  have hlt : i / 64 < s.data.length := Nat.div_lt_of_lt_mul h
  rw [get_eq]
  unfold set
  rw [List.getElem?_modify, List.getElem?_eq_getElem hlt]
  change (if i / 64 = i / 64 then s.data[i / 64] ||| BitVec.twoPow 64 (i % 64) else s.data[i / 64]).getLsbD (i % 64)
    = true
  rw [if_pos rfl, BitVec.getLsbD_or, BitVec.getLsbD_twoPow,
    decide_eq_true (Nat.mod_lt i (by decide)), decide_eq_true rfl]
  exact Bool.or_true _

/-- The union has the bits of both sets. -/
lemma get_unionAll (hlen : array.length = s.data.length) :
    (s.unionAll array).get j = (s.get j || (⟨array⟩ : BitSet).get j) := by
  rw [get_eq, get_eq, get_eq]
  unfold unionAll
  rw [List.getElem?_zipWith]
  rcases Nat.lt_or_ge (j / 64) s.data.length with hlt | hge
  · rw [List.getElem?_eq_getElem hlt, List.getElem?_eq_getElem (hlen.symm ▸ hlt)]
    exact BitVec.getLsbD_or
  · rw [List.getElem?_eq_none hge, List.getElem?_eq_none (hlen.symm ▸ hge)]
    exact (Bool.or_self _).symm

/-- Setting several bits. -/
def setAll (s : BitSet) (positions : List ℕ) : BitSet := positions.foldl set s

variable {positions : List ℕ}

/-- Setting bits keeps the number of words. -/
lemma length_setAll : (s.setAll positions).data.length = s.data.length := by
  induction positions generalizing s with
  | nil => rfl
  | cons p positions ih => exact ih.trans length_set

/-- Setting bits clears none. -/
lemma get_setAll_of_get (h : s.get j = true) : (s.setAll positions).get j = true := by
  induction positions generalizing s with
  | nil => exact h
  | cons p positions ih => exact ih (get_set_of_get h)

/-- Every position of the list is set. -/
lemma get_setAll_of_mem (hmem : j ∈ positions) (hlt : j < 64 * s.data.length) : (s.setAll positions).get j = true := by
  induction positions generalizing s with
  | nil => cases hmem
  | cons p positions ih =>
    change ((s.set p).setAll positions).get j = true
    rcases List.mem_cons.mp hmem with rfl | hmem
    · exact get_setAll_of_get (get_set_self hlt)
    · exact ih hmem (length_set.symm ▸ hlt)

end Bits

end BitSet

/-! ## Hashes -/

/-- `getLongHash`, Thomas Wang's integer hash function; the shifts to the right are those of a signed number. -/
def getLongHash (key : BitVec 64) : BitVec 64 :=
  let key := ~~~key + (key <<< 21)
  let key := key ^^^ (key.sshiftRight 24)
  let key := (key + (key <<< 3)) + (key <<< 8)
  let key := key ^^^ (key.sshiftRight 14)
  let key := (key + (key <<< 2)) + (key <<< 4)
  let key := key ^^^ (key.sshiftRight 28)
  key + (key <<< 31)

namespace Murmur3

def fmix64 (v : BitVec 64) : BitVec 64 :=
  let h := v ^^^ (v >>> 33)
  let h := h * 0xff51afd7ed558ccd#64
  let h := h ^^^ (h >>> 33)
  let h := h * 0xc4ceb9fe1a85ec53#64
  h ^^^ (h >>> 33)

/-- The bytes of a block or of the tail, the first one lowest. -/
def word (bytes : List (BitVec 8)) : BitVec 64 := bytes.foldr (fun b k => k <<< 8 ||| b.setWidth 64) 0

/-- The factors `C1` and `C2` with the rotation by `R1` between them. -/
def mix (k : BitVec 64) : BitVec 64 := (k * 0x87c37b91114253d5#64).rotateLeft 31 * 0x4cf5ad432745937f#64

/-- The blocks of eight bytes, then the tail. -/
def body (hash : BitVec 64) : List (BitVec 8) → BitVec 64
  | b0 :: b1 :: b2 :: b3 :: b4 :: b5 :: b6 :: b7 :: rest =>
    body ((hash ^^^ mix (word [b0, b1, b2, b3, b4, b5, b6, b7])).rotateLeft 27 * 5#64 + 0x52dce729#64) rest
  | [] => hash
  | tail => hash ^^^ mix (word tail)

/-- `hash64` with the default seed. -/
def hash64 (data : List (BitVec 8)) : BitVec 64 := fmix64 (body 104729#64 data ^^^ BitVec.ofNat 64 data.length)

def NULL_HASHCODE : BitVec 64 := 2862933555777941757#64

end Murmur3

/-! ## Types of values -/

/-- What a filter has of its base type: values of data, their order and their hash. -/
structure BaseType (D α : Type) where
  zero : α
  datumToValue : D → α
  compareValue : α → α → ℤ
  hash : α → BitVec 64

inductive IntType where
  | int2
  | int4
  | int8

/-- `BloomFilterImpl<int64>`; a datum has 64 bits, of which the shorter types use the lower ones. -/
def int64Base (dataType : IntType) : BaseType (BitVec 64) (BitVec 64) where
  zero := 0
  datumToValue datum :=
    match dataType with
    | .int2 => (datum.setWidth 16).signExtend 64
    | .int4 => (datum.setWidth 32).signExtend 64
    | .int8 => datum
  compareValue left right := if right.slt left then 1 else if left.slt right then -1 else 0
  hash := getLongHash

inductive StringType where
  | varchar
  | bpchar
  | text
  | clob

/-- `BloomFilterImpl<char *>`; a value is the bytes of a C string, or `none` for `NULL`. -/
def stringBase (dataType : StringType) (bpcharin : List (BitVec 8) → List (BitVec 8))
    (varstrCmp : List (BitVec 8) → List (BitVec 8) → ℤ) : BaseType (List (BitVec 8)) (Option (List (BitVec 8))) where
  zero := none
  datumToValue datum :=
    match dataType with
    | .bpchar => some (bpcharin datum)
    | .varchar | .text | .clob => some datum
  compareValue left right := varstrCmp (left.getD []) (right.getD [])
  hash
    | none => Murmur3.NULL_HASHCODE
    | some value => Murmur3.hash64 value

/-! ## Filters -/

abbrev MAX_HASH_FUNCTIONS : ℕ := 4
abbrev STARTUP_ENTRIES : ℕ := 500
abbrev MAX_ENTRIES : ℤ := 10000000

/-- `ValueBit` -/
structure ValueBit where
  position : Vector (BitVec 16) MAX_HASH_FUNCTIONS

/-- A zeroed `ValueBit`. -/
def ValueBit.zero : ValueBit := ⟨.replicate MAX_HASH_FUNCTIONS 0⟩

/-- `BloomFilterImpl`; the first `startupEntries` elements of `valuePositions` are allocated. -/
structure BloomFilter (α : Type) where
  bitSet : BitSet
  numBits : ℕ
  numHashFunctions : ℕ
  numValues : ℕ
  maxNumValues : ℕ
  startupEntries : ℕ
  valuePositions : ℕ → ValueBit
  minValue : α
  maxValue : α
  addMinMax : Bool
  hasMM : Bool

/-- `BloomFilterSet` -/
structure BloomFilterSet (α : Type) where
  data : List (BitVec 64)
  numBits : ℕ
  numHashFunctions : ℕ
  numValues : ℕ
  maxNumValues : ℕ
  startupEntries : ℕ
  valuePositions : ℕ → ValueBit
  minValue : α
  maxValue : α
  addMinMax : Bool
  hasMM : Bool

section Filter

variable {D α : Type}

/-- The sizes that are computed from logarithms: `optimalNumOfBits`, and the number that `optimalNumOfHashFunctions`
rounds. -/
structure Optimal where
  numOfBits : ℤ → ℕ
  numOfHashFunctions : ℤ → ℕ → ℕ

def createBloomFilter (b : BaseType D α) (optimal : Optimal) (maxNumValues : ℤ) (addMinMax : Bool) :
    Option (BloomFilter α) :=
  if maxNumValues ≤ 0 ∨ MAX_ENTRIES ≤ maxNumValues then none
  else
    let nb := optimal.numOfBits maxNumValues
    let numBits := nb + (64 - nb % 64)
    some
      { bitSet := .new numBits
        numBits := numBits
        numHashFunctions := max 1 (optimal.numOfHashFunctions maxNumValues numBits)
        numValues := 0
        maxNumValues := maxNumValues.toNat
        startupEntries := min maxNumValues.toNat STARTUP_ENTRIES
        valuePositions := fun _ => .zero
        minValue := b.zero
        maxValue := b.zero
        addMinMax := addMinMax
        hasMM := false }

/-- The hash of function `i`, with all bits flipped when it is negative. -/
def combinedHash (hash64 : BitVec 64) (i : ℕ) : BitVec 32 :=
  let hash1 := hash64.setWidth 32
  let hash2 := (hash64 >>> 32).setWidth 32
  let combinedHash := hash1 + BitVec.ofNat 32 i * hash2
  if combinedHash.msb then ~~~combinedHash else combinedHash

/-- The positions of a hash, for the functions from 1 on. -/
def hashPositions (numBits numHashFunctions : ℕ) (hash64 : BitVec 64) : List ℕ :=
  (List.range numHashFunctions).map fun i => (combinedHash hash64 (i + 1)).toNat % numBits

namespace BloomFilter

def setMinMax (b : BaseType D α) (f : BloomFilter α) (val : α) : BloomFilter α :=
  if f.hasMM then
    if b.compareValue val f.minValue < 0 then { f with minValue := val }
    else if 0 < b.compareValue val f.maxValue then { f with maxValue := val }
    else f
  else { f with minValue := val, maxValue := val, hasMM := true }

/-- The positions from `MAX_HASH_FUNCTIONS` on, which the code stores behind the element, are not kept. -/
def addHash (f : BloomFilter α) (hash64 : BitVec 64) : Option (BloomFilter α) :=
  if f.maxNumValues ≤ f.numValues then none
  else
    let positions := hashPositions f.numBits f.numHashFunctions hash64
    some
      { f with
        startupEntries := if f.startupEntries ≤ f.numValues then min (f.startupEntries * 2) f.maxNumValues
          else f.startupEntries
        bitSet := f.bitSet.setAll positions
        valuePositions := Function.update f.valuePositions f.numValues ⟨.ofFn fun i =>
          if i < f.numHashFunctions then BitVec.ofNat 16 (positions.getD i 0)
          else (f.valuePositions f.numValues).position[i]⟩
        numValues := f.numValues + 1 }

/-- `addLong` and `addString` -/
def addValue (b : BaseType D α) (f : BloomFilter α) (val : α) : Option (BloomFilter α) :=
  (if f.addMinMax then f.setMinMax b val else f).addHash (b.hash val)

def addDatum (b : BaseType D α) (f : BloomFilter α) (datumVal : D) : Option (BloomFilter α) :=
  f.addValue b (b.datumToValue datumVal)

def includeHashInternal (f : BloomFilter α) (hash64 : BitVec 64) : Bool :=
  (hashPositions f.numBits f.numHashFunctions hash64).all f.bitSet.get

/-- `includeLong` and `includeString` -/
def includeValue [DecidableEq α] (b : BaseType D α) (f : BloomFilter α) (value : α) : Bool :=
  if f.addMinMax ∧ f.numValues = 1 then decide (value = f.minValue) else f.includeHashInternal (b.hash value)

def includeDatum [DecidableEq α] (b : BaseType D α) (f : BloomFilter α) (value : D) : Bool :=
  f.includeValue b (b.datumToValue value)

def unionAll (f that : BloomFilter α) : Option (BloomFilter α) :=
  if f.numBits = that.numBits ∧ f.numHashFunctions = that.numHashFunctions then
    some { f with bitSet := f.bitSet.unionAll that.bitSet.data }
  else none

def reset (f : BloomFilter α) : BloomFilter α := { f with numValues := 0, bitSet := f.bitSet.clear, hasMM := false }

def makeBloomFilterSet (f : BloomFilter α) : BloomFilterSet α where
  data := f.bitSet.data
  numBits := f.numBits
  numHashFunctions := f.numHashFunctions
  numValues := f.numValues
  maxNumValues := f.maxNumValues
  startupEntries := f.startupEntries
  valuePositions entryNum := if entryNum < f.startupEntries then f.valuePositions entryNum else .zero
  minValue := f.minValue
  maxValue := f.maxValue
  addMinMax := f.addMinMax
  hasMM := f.hasMM

end BloomFilter

/-- `rebuildBloomFilterValue`, which overwrites every field of the filter. -/
def rebuildBloomFilterValue (set : BloomFilterSet α) : BloomFilter α where
  bitSet := ⟨set.data⟩
  numBits := set.numBits
  numHashFunctions := set.numHashFunctions
  numValues := set.numValues
  maxNumValues := set.maxNumValues
  startupEntries := set.startupEntries
  valuePositions entryNum := if entryNum < set.startupEntries then set.valuePositions entryNum else .zero
  minValue := set.minValue
  maxValue := set.maxValue
  addMinMax := set.addMinMax
  hasMM := set.hasMM

section Sizes

variable {numBits numHashFunctions p : ℕ} {hash64 : BitVec 64}

/-- The positions lie inside the bits. -/
lemma hashPositions_lt (hpos : 0 < numBits) (hp : p ∈ hashPositions numBits numHashFunctions hash64) : p < numBits := by
  obtain ⟨i, _, rfl⟩ := List.mem_map.mp hp
  exact Nat.mod_lt _ hpos

/-- There is one position for each hash function. -/
lemma length_hashPositions : (hashPositions numBits numHashFunctions hash64).length = numHashFunctions := by
  rw [hashPositions, List.length_map, List.length_range]

end Sizes

/-- The sizes of a filter for 500 values. -/
def optimal500 : Optimal := ⟨fun _ => 3117, fun _ _ => 4⟩

end Filter

end GaussKernel.Cbb
