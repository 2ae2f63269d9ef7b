import Mathlib
import GaussKernel.Cbb.SparseCode

/-!
# The form of the sparse mode

`HllUpdateSparseValue` wants the long runs of zeros in front of the short ones: a short run is never followed by
zeros. A register in a long run that is followed by a long run breaks this.
-/

namespace GaussKernel.Cbb
open Lib

def ZeroRun (byte : UInt8) : Prop := byteType byte = .sparseLongzero ∨ byteType byte = .sparseZero

/-- A short run of zeros is not followed by zeros. -/
def Follows (byte byte' : UInt8) : Prop := byteType byte = .sparseZero → ¬ ZeroRun byte'

/-- The bytes of the sparse mode cover the registers. -/
structure SparseForm (p : HllPara) (bytes : List UInt8) : Prop where
  valid : ∀ byte ∈ bytes, byteType byte ≠ .sparseValue
  chain : bytes.IsChain Follows
  cover : (expand bytes).length = 2 ^ p.log2Registers

variable {p : HllPara} {n u value : Nat} {byte : UInt8} {post pre : List UInt8}

lemma SparseForm.codes {bytes : List UInt8} (h : SparseForm p bytes) : Codes bytes (expand bytes) :=
  ⟨h.valid, rfl⟩

/-! ## Runs -/

lemma byteType_setZeroValue (h0 : 0 < n) (h : n ≤ 64) : byteType (setZeroValue n) = .sparseZero := by
  have hn := setZeroValue_toNat h0 h
  exact byteType_zero (by omega)

lemma byteType_setDenseValue (h0 : 0 < n) (h : n ≤ 64) : byteType (setDenseValue n) = .denseValue := by
  have hn := setDenseValue_toNat h0 h
  exact byteType_dense (by omega)

lemma byteType_setLongzeroValue (h : n < 4160) : byteType (setLongzeroValue n) = .sparseLongzero := by
  apply byteType_longzero
  rw [setLongzeroValue, UInt8.toNat_ofNat']
  omega

lemma not_zeroRun_of_dense (h : byteType byte = .denseValue) : ¬ ZeroRun byte := by
  rintro (hz | hz)
  · cases h.symm.trans hz
  · cases h.symm.trans hz

lemma follows_of_ne (h : byteType byte ≠ .sparseZero) (byte' : UInt8) : Follows byte byte' :=
  fun hz => absurd hz h

lemma Follows.ne {byte' : UInt8} (h : Follows byte byte') (hz : ZeroRun byte') : byteType byte ≠ .sparseZero :=
  fun hty => h hty hz

/-- Short zeros before `post`. -/
lemma chain_zeroRest (h : n < 64) :
    ((if n > 0 then [setZeroValue n] else []) ++ post).IsChain Follows ↔
      post.IsChain Follows ∧ (n = 0 ∨ ∀ byte ∈ post.head?, ¬ ZeroRun byte) := by
  cases n with
  | zero => simp
  | succ n =>
    have hty := byteType_setZeroValue (Nat.succ_pos n) (by omega)
    rw [if_pos (Nat.succ_pos n), List.singleton_append, List.isChain_cons, and_comm]
    refine and_congr_right fun _ => ⟨fun hf => .inr fun byte hb => hf byte hb hty, fun hf byte hb _ => ?_⟩
    exact hf.resolve_left (Nat.succ_ne_zero n) byte hb

/-- Zeros before `post`. -/
lemma chain_setSparseZeroBytes (h : n < 4160) : (setSparseZeroBytes n ++ post).IsChain Follows ↔
      post.IsChain Follows ∧ (n % 64 = 0 ∨ ∀ byte ∈ post.head?, ¬ ZeroRun byte) := by
  unfold setSparseZeroBytes
  by_cases h64 : n ≥ 64
  · have hne : byteType (setLongzeroValue n) ≠ .sparseZero := by
      rw [byteType_setLongzeroValue h]
      exact nofun
    rw [if_pos h64, List.cons_append, List.isChain_cons, ← chain_zeroRest (Nat.mod_lt n (by decide))]
    exact and_iff_right fun byte _ => follows_of_ne hne byte
  · rw [if_neg h64, Nat.mod_eq_of_lt (by omega)]
    exact chain_zeroRest (by omega)

lemma chain_replicate_longzeroFull (n : Nat) (h : post.IsChain Follows) :
    (List.replicate n 0x3F ++ post).IsChain Follows := by
  induction n with
  | zero => exact h
  | succ n ih =>
    rw [List.replicate_succ, List.cons_append, List.isChain_cons]
    exact ⟨fun byte _ => follows_of_ne (by decide) byte, ih⟩

lemma setSparseZero_eq (n : Nat) :
    setSparseZero n = List.replicate (n / 4096) 0x3F ++ setSparseZeroBytes (n % 4096) := by
  unfold setSparseZero setSparseZeroBytes
  by_cases h : n ≥ 64
  · rw [if_pos h]
    dsimp only
    by_cases h' : n % 4096 ≥ 64
    · rw [if_pos h', if_pos h', List.append_assoc, List.singleton_append]
    · rw [if_neg h', if_neg h']
  · have hlt : n < 4096 := by omega
    rw [if_neg h, Nat.div_eq_of_lt hlt, Nat.mod_eq_of_lt hlt, if_neg h, List.replicate_zero, List.nil_append]

/-- `HllSetSparseZero` before a value. -/
lemma chain_setSparseZero (n : Nat) (hpost : post.IsChain Follows) (hhead : ∀ byte ∈ post.head?, ¬ ZeroRun byte) :
    (setSparseZero n ++ post).IsChain Follows := by
  rw [setSparseZero_eq, List.append_assoc]
  exact chain_replicate_longzeroFull _ ((chain_setSparseZeroBytes (by omega)).mpr ⟨hpost, .inr hhead⟩)

/-- A value between zeros. -/
lemma chain_around {zeros rest : List UInt8} {value : UInt8} (hpre : pre.IsChain Follows)
    (hlast : ∀ byte ∈ pre.getLast?, byteType byte ≠ .sparseZero)
    (hzeros : ∀ post, post.IsChain Follows → (∀ byte ∈ post.head?, ¬ ZeroRun byte) → (zeros ++ post).IsChain Follows)
    (hvalue : byteType value = .denseValue) :
    (pre ++ (zeros ++ value :: rest)).IsChain Follows ↔ rest.IsChain Follows := by
  constructor
  · intro h
    exact h.right_of_append.right_of_append.tail
  · intro h
    have hcons : (value :: rest).IsChain Follows :=
      h.cons fun byte _ => follows_of_ne (by rw [hvalue]; exact nofun) byte
    have hmid := hzeros _ hcons fun byte hb => by
      obtain rfl : value = byte := Option.some_inj.mp hb
      exact not_zeroRun_of_dense hvalue
    exact hpre.append hmid fun byte hb byte' _ => follows_of_ne (hlast byte hb) byte'

/-! ## One register -/

/-- A byte string has one place for every register. -/
lemma unit_unique {pre' post' : List UInt8} {byte' : UInt8} {u' : Nat}
    (h : pre ++ byte :: post = pre' ++ byte' :: post') (hidx : (expand pre).length + u = (expand pre').length + u')
    (hu : u < (byteRun byte).length) (hu' : u' < (byteRun byte').length) :
    pre = pre' ∧ byte = byte' ∧ post = post' := by
  induction pre generalizing pre' with
  | nil =>
    cases pre' with
    | nil => exact ⟨rfl, List.cons.inj h⟩
    | cons b pre' =>
      obtain rfl := (List.cons.inj h).1
      rw [expand_nil, expand_cons, List.length_append, List.length_nil] at hidx
      omega
  | cons b pre ih =>
    cases pre' with
    | nil =>
      obtain rfl := (List.cons.inj h).1
      rw [expand_nil, expand_cons, List.length_append, List.length_nil] at hidx
      omega
    | cons b' pre' =>
      obtain ⟨rfl, htail⟩ := List.cons.inj h
      rw [expand_cons, expand_cons, List.length_append, List.length_append] at hidx
      obtain ⟨rfl, hrest⟩ := ih htail (by omega)
      exact ⟨rfl, hrest⟩

/-- The register lies in a long run that is followed by a long run, and is not the last of its 64. -/
def SplitsLongRuns (bytes : List UInt8) (index : Nat) : Prop :=
  ∃ pre byte later post u, bytes = pre ++ byte :: later :: post ∧ byteType byte = .sparseLongzero ∧
    byteType later = .sparseLongzero ∧ index = (expand pre).length + u ∧ u < byteGetValue byte * 64 ∧ (u + 1) % 64 ≠ 0

/-- `HllDataExpand` as often as `HllUpdateValue` needs it. -/
def dataExpand (needed lenUsed lenTotal : Nat) : Nat :=
  if needed > lenTotal - lenUsed then dataExpand needed lenUsed (lenTotal + 256) else lenTotal
  termination_by needed + lenUsed - lenTotal
  decreasing_by omega

lemma le_dataExpand (needed : Nat) {lenUsed lenTotal : Nat} (h : lenUsed ≤ lenTotal) :
    needed + lenUsed ≤ dataExpand needed lenUsed lenTotal := by
  fun_induction dataExpand needed lenUsed lenTotal with
  | case1 lenTotal hmore ih => exact ih (by omega)
  | case2 lenTotal hmore => omega

/-- The update finds the register, raises it and nothing else, and keeps the form and the used length in the data. -/
def KeepsForm (p : HllPara) (bytes : List UInt8) (index value : Nat) : Prop :=
  ∃ byteIndex unitIndex bytes', getRegisterUnit bytes index = some (byteIndex, unitIndex) ∧
    updateSparseValue bytes byteIndex unitIndex value = some bytes' ∧ SparseForm p bytes' ∧
    expand bytes' = raise (expand bytes) index value ∧ bytes.length ≤ bytes'.length ∧
    ∀ lenTotal ≥ bytes.length, bytes'.length ≤ dataExpand (bytes'.length - bytes.length) bytes.length lenTotal

lemma getRegisterUnit_at (hvalid : ∀ b ∈ pre ++ byte :: post, byteType b ≠ .sparseValue)
    (hu : u < (byteRun byte).length) :
    getRegisterUnit (pre ++ byte :: post) ((expand pre).length + u) = some (pre.length, u) := by
  obtain ⟨pre', byte', post', u', hbytes, hu', hidx, hunit⟩ := getRegisterUnit_spec hvalid
    (show (expand pre).length + u < (expand (pre ++ byte :: post)).length by simp; omega)
  obtain ⟨rfl, -, -⟩ := unit_unique hbytes hidx hu hu'
  obtain rfl : u = u' := Nat.add_left_cancel hidx
  exact hunit

/-- The order of the runs is all that an update can break. -/
lemma keepsForm_iff {bytes' : List UInt8} (h : SparseForm p (pre ++ byte :: post)) (hu : u < (byteRun byte).length)
    (h0 : 0 < value) (hv : value ≤ 64)
    (hupdate : updateSparseValue (pre ++ byte :: post) pre.length u value = some bytes')
    (hlen : (pre ++ byte :: post).length ≤ bytes'.length) :
    KeepsForm p (pre ++ byte :: post) ((expand pre).length + u) value ↔ bytes'.IsChain Follows := by
  have hat := getRegisterUnit_at h.valid hu
  obtain ⟨byteIndex, unitIndex, after, hunit, hafter, hcodes⟩ := updateSparseValue_codes h.codes
    (show (expand pre).length + u < (expand (pre ++ byte :: post)).length by simp; omega) h0 hv
  obtain ⟨rfl, rfl⟩ := Prod.mk.inj (Option.some_inj.mp (hunit.symm.trans hat))
  obtain rfl := Option.some_inj.mp (hafter.symm.trans hupdate)
  constructor
  · rintro ⟨byteIndex, unitIndex, bytes', hunit', hupdate', hform, -⟩
    obtain ⟨rfl, rfl⟩ := Prod.mk.inj (Option.some_inj.mp (hunit'.symm.trans hat))
    obtain rfl := Option.some_inj.mp (hupdate'.symm.trans hupdate)
    exact hform.chain
  · intro hchain
    refine ⟨_, _, after, hat, hupdate, ⟨hcodes.valid, hchain, ?_⟩, hcodes.expand_eq, hlen, fun lenTotal htotal => ?_⟩
    · rw [hcodes.expand_eq, raise_length, h.cover]
    · have hroom := le_dataExpand (after.length - (pre ++ byte :: post).length) htotal
      omega

lemma updateSparseValue_at :
    updateSparseValue (pre ++ byte :: post) pre.length u value =
      match byteType byte with
      | .sparseLongzero => updateSparseType1 (pre ++ byte :: post) pre.length u value
      | .sparseZero => updateSparseType2 (pre ++ byte :: post) pre.length u value
      | .denseValue => updateSparseType3 (pre ++ byte :: post) pre.length value
      | .sparseValue => none := by
  unfold updateSparseValue
  rw [show (pre ++ byte :: post)[pre.length]? = some byte by simp]
  rfl

section

variable (h : SparseForm p (pre ++ byte :: post))
include h

/-- What stands before and behind a run of zeros. -/
lemma SparseForm.around (hzero : ZeroRun byte) :
    pre.IsChain Follows ∧ (∀ b ∈ pre.getLast?, byteType b ≠ .sparseZero) ∧
      post.IsChain Follows ∧ ∀ b ∈ post.head?, Follows byte b := by
  obtain ⟨hpre, hcons, hjoin⟩ := List.isChain_append.mp h.chain
  obtain ⟨hhead, hpost⟩ := List.isChain_cons.mp hcons
  exact ⟨hpre, fun b hb => (hjoin b hb byte rfl).ne hzero, hpost, hhead⟩

lemma keepsForm_type1 (hty : byteType byte = .sparseLongzero) (hu : u < byteGetValue byte * 64) (h0 : 0 < value)
    (hv : value ≤ 64) :
    KeepsForm p (pre ++ byte :: post) ((expand pre).length + u) value ↔
      (u + 1) % 64 = 0 ∨ ∀ later ∈ post.head?, byteType later ≠ .sparseLongzero := by
  obtain ⟨hpre, hlast, hpost, -⟩ := h.around (.inl hty)
  have hrun : u < (byteRun byte).length := by
    rw [byteRun, hty]
    simpa using hu
  have hmax := byteGetValue_le byte
  have hdense := byteType_setDenseValue h0 hv
  have hleft : ∀ post, post.IsChain Follows → (∀ b ∈ post.head?, ¬ ZeroRun b) →
      (setSparseZeroBytes u ++ post).IsChain Follows := fun post hp hh =>
    (chain_setSparseZeroBytes (by omega)).mpr ⟨hp, .inr hh⟩
  have hmatch : updateSparseValue (pre ++ byte :: post) pre.length u value =
      updateSparseType1 (pre ++ byte :: post) pre.length u value := by rw [updateSparseValue_at, hty]
  by_cases hjoined : ∃ later post', post = later :: post' ∧ byteType later = .sparseZero
  · -- the short run behind is joined, and no zeros follow it
    obtain ⟨later, post, rfl, hlater⟩ := hjoined
    have hlmax := byteGetValue_le later
    have hlpos := byteGetValue_pos later
    obtain ⟨hhead, hrest⟩ := List.isChain_cons.mp hpost
    have hlen := setSparseZeroBytes_length
      (show 0 < byteGetValue byte * 64 - u - 1 + byteGetValue later from Nat.add_pos_right _ hlpos)
    rw [keepsForm_iff h hrun h0 hv (hmatch.trans (updateSparseType1_joined hlater)) (by simp; omega)]
    refine iff_of_true ?_ (.inr fun b hb => ?_)
    · rw [List.append_assoc, List.append_assoc, List.append_assoc, List.singleton_append,
        chain_around hpre hlast hleft hdense, chain_setSparseZeroBytes (by omega)]
      exact ⟨hrest, .inr fun b hb => hhead b hb hlater⟩
    · obtain rfl : later = b := Option.some_inj.mp hb
      rw [hlater]
      exact RegisterType.noConfusion
  · have hne : ∀ later ∈ post.head?, byteType later ≠ .sparseZero := by
      intro later hl hz
      obtain ⟨post', rfl⟩ := List.head?_eq_some_iff.mp hl
      exact hjoined ⟨later, post', rfl, hz⟩
    rw [keepsForm_iff h hrun h0 hv (hmatch.trans (updateSparseType1_alone hne)) (by simp; omega), List.append_assoc,
      List.append_assoc, List.append_assoc, List.singleton_append, chain_around hpre hlast hleft hdense,
      chain_setSparseZeroBytes (by omega), and_iff_right hpost]
    refine or_congr (by omega) (forall₂_congr fun later hl => ?_)
    exact ⟨fun hnz hlong => hnz (.inl hlong), fun hnl hzero => hzero.elim hnl (hne later hl)⟩

lemma keepsForm_type2 (hty : byteType byte = .sparseZero) (hu : u < (byteRun byte).length) (h0 : 0 < value)
    (hv : value ≤ 64) : KeepsForm p (pre ++ byte :: post) ((expand pre).length + u) value := by
  obtain ⟨hpre, hlast, hpost, hhead⟩ := h.around (.inr hty)
  have hmax := byteGetValue_le byte
  have hu' := hu
  rw [byteRun, hty, List.length_replicate] at hu'
  have hmatch : updateSparseValue (pre ++ byte :: post) pre.length u value =
      updateSparseType2 (pre ++ byte :: post) pre.length u value := by rw [updateSparseValue_at, hty]
  rw [keepsForm_iff h hu h0 hv (hmatch.trans updateSparseType2_eq) (by simp; omega), List.append_assoc,
    List.append_assoc, List.append_assoc, List.singleton_append,
    chain_around hpre hlast (fun post hp hh => (chain_zeroRest (by omega)).mpr ⟨hp, .inr hh⟩)
      (byteType_setDenseValue h0 hv)]
  exact (chain_zeroRest (by omega)).mpr ⟨hpost, .inr fun b hb => hhead b hb hty⟩

lemma keepsForm_type3 (hty : byteType byte = .denseValue) (hu : u < (byteRun byte).length) (h0 : 0 < value)
    (hv : value ≤ 64) : KeepsForm p (pre ++ byte :: post) ((expand pre).length + u) value := by
  obtain ⟨hpre, hcons, hjoin⟩ := List.isChain_append.mp h.chain
  have hmatch : updateSparseValue (pre ++ byte :: post) pre.length u value =
      updateSparseType3 (pre ++ byte :: post) pre.length value := by rw [updateSparseValue_at, hty]
  have hget : (pre ++ byte :: post)[pre.length]? = some byte := by simp
  by_cases hle : value ≤ byteGetValue byte
  · have hsame : updateSparseType3 (pre ++ byte :: post) pre.length value = some (pre ++ byte :: post) := by
      unfold updateSparseType3
      rw [hget]
      exact if_pos hle
    exact (keepsForm_iff h hu h0 hv (hmatch.trans hsame) le_rfl).mpr h.chain
  · have hset : updateSparseType3 (pre ++ byte :: post) pre.length value =
        some (pre ++ setDenseValue value :: post) := by
      unfold updateSparseType3
      rw [hget]
      exact (if_neg hle).trans (by simp)
    refine (keepsForm_iff h hu h0 hv (hmatch.trans hset) (by simp)).mpr ?_
    have hdense := byteType_setDenseValue h0 hv
    refine hpre.append ((List.isChain_cons.mp hcons).2.cons fun b _ => follows_of_ne ?_ b) fun b hb b' hb' => ?_
    · rw [hdense]
      exact nofun
    · obtain rfl : setDenseValue value = b' := Option.some_inj.mp hb'
      exact fun _ => not_zeroRun_of_dense hdense

end

/-- The form is kept except where a long run is split before another long run. -/
lemma keepsForm_iff_not_splits {bytes : List UInt8} (h : SparseForm p bytes) {index : Nat}
    (hindex : index < 2 ^ p.log2Registers) (h0 : 0 < value) (hv : value ≤ 64) :
    KeepsForm p bytes index value ↔ ¬ SplitsLongRuns bytes index := by
  obtain ⟨pre, byte, post, u, rfl, hu, rfl, -⟩ := getRegisterUnit_spec h.valid (h.cover.symm ▸ hindex)
  have hsplits : SplitsLongRuns (pre ++ byte :: post) ((expand pre).length + u) ↔
      byteType byte = .sparseLongzero ∧ (u + 1) % 64 ≠ 0 ∧ ∃ later ∈ post.head?, byteType later = .sparseLongzero := by
    constructor
    · rintro ⟨pre', byte', later, post', u', hbytes, hty, hlater, hidx, hu', hmod⟩
      have hrun : u' < (byteRun byte').length := by
        rw [byteRun, hty]
        simpa using hu'
      obtain ⟨rfl, rfl, rfl⟩ := unit_unique hbytes hidx hu hrun
      obtain rfl : u = u' := Nat.add_left_cancel hidx
      exact ⟨hty, hmod, later, rfl, hlater⟩
    · rintro ⟨hty, hmod, later, hl, hlater⟩
      obtain ⟨post', rfl⟩ := List.head?_eq_some_iff.mp hl
      rw [byteRun, hty, List.length_replicate] at hu
      exact ⟨pre, byte, later, post', u, rfl, hty, hlater, rfl, hu, hmod⟩
  rw [hsplits]
  cases hty : byteType byte with
  | sparseLongzero =>
    rw [byteRun, hty, List.length_replicate] at hu
    rw [keepsForm_type1 h hty hu h0 hv]
    simp only [true_and, not_and, not_exists, ne_eq]
    exact ⟨fun hor hmod => hor.resolve_left hmod, fun himp => or_iff_not_imp_left.mpr himp⟩
  | sparseZero =>
    refine iff_of_true (keepsForm_type2 h hty hu h0 hv) fun hs => ?_
    cases hs.1
  | denseValue =>
    refine iff_of_true (keepsForm_type3 h hty hu h0 hv) fun hs => ?_
    cases hs.1
  | sparseValue => exact absurd hty (h.valid byte (by simp))

/-! ## From the explicit mode -/

/-- `sparseMinsize` of `HllExplicitToSparse` -/
def sparseMinsize (p : HllPara) : Nat := (if p.log2Registers > 12 then 2 ^ (p.log2Registers - 12) else 1) + 2

/-- One hash of `HllExplicitToSparse` with the `sparsesize` bytes of `newdata`. `none` is a write behind them. -/
def explicitToSparseWrite (ctz0 : UInt8) (p : HllPara) (s : Nat × List UInt8 × Int) (hashval : UInt64) :
    Option (Nat × List UInt8 × Int) :=
  let (sparsesize, newdata, lastindex) := s
  let (newdata', lastindex') := explicitToSparseStep ctz0 p (newdata, lastindex) hashval
  if newdata'.length > sparsesize then none
  -- only a new index lets the data grow
  else if lastindex' ≠ lastindex ∧ newdata'.length + sparseMinsize p > sparsesize then
    some (sparsesize + 256, newdata', lastindex')
  else some (sparsesize, newdata', lastindex')

/-- `HllExplicitToSparse` with the size of its buffer -/
def explicitToSparseBuffer (ctz0 : UInt8) (p : HllPara) (hashes : List UInt64) : Option (List UInt8) := do
  let (sparsesize, newdata, lastindex) ←
    hashes.foldlM (explicitToSparseWrite ctz0 p) (sparseMinsize p, [], -1)
  let newdata := newdata ++ setSparseZero (2 ^ p.log2Registers - lastindex - 1).toNat
  if newdata.length > sparsesize then none else some newdata

lemma setSparseZeroBytes_le (n : Nat) : (setSparseZeroBytes n).length ≤ min n 2 := by
  unfold setSparseZeroBytes
  by_cases h64 : n ≥ 64
  · rw [if_pos h64]
    split <;> simp <;> omega
  · rw [if_neg h64]
    split <;> simp
    omega

lemma two_pow_le_sparseMinsize (p : HllPara) : 2 ^ p.log2Registers ≤ (sparseMinsize p - 2) * 4096 := by
  unfold sparseMinsize
  split
  · rw [Nat.add_sub_cancel, show 4096 = 2 ^ 12 by rfl, ← Nat.pow_add]
    exact Nat.pow_le_pow_right Nat.two_pos (by omega)
  · exact Nat.pow_le_pow_right Nat.two_pos (show p.log2Registers ≤ 12 by omega)

lemma setSparseZero_length (h : n ≤ 2 ^ p.log2Registers) : (setSparseZero n).length + 1 ≤ sparseMinsize p := by
  have hpow := two_pow_le_sparseMinsize p
  have hrest := setSparseZeroBytes_le (n % 4096)
  have hmin : 2 ≤ sparseMinsize p := Nat.le_add_left 2 _
  rw [setSparseZero_eq, List.length_append, List.length_replicate]
  omega

/-- Room for the next hash, and a value written last. -/
structure SparseRoom (p : HllPara) (s : Nat × List UInt8 × Int) : Prop where
  room : s.2.1.length + sparseMinsize p ≤ s.1
  chain : s.2.1.IsChain Follows
  last : ∀ byte ∈ s.2.1.getLast?, byteType byte = .denseValue

lemma explicitToSparseStep_cases (ctz0 : UInt8) (p : HllPara) (newdata : List UInt8) (lastindex : Int) (h : UInt64) :
    explicitToSparseStep ctz0 p (newdata, lastindex) h = (newdata, lastindex) ∨
    (∃ byte, byteType byte = .denseValue ∧
      explicitToSparseStep ctz0 p (newdata, lastindex) h = (newdata.set (newdata.length - 1) byte, lastindex)) ∨
    ∃ byte, byteType byte = .denseValue ∧ (hashIndex p h : Int) ≠ lastindex ∧
      explicitToSparseStep ctz0 p (newdata, lastindex) h =
        (newdata ++ setSparseZero ((hashIndex p h : Int) - lastindex - 1).toNat ++ [byte], (hashIndex p h : Int)) := by
  have hle := hashValue_le ctz0 p h
  by_cases hv : hashValue ctz0 p h = 0
  · exact .inl (by simp [explicitToSparseStep, hv])
  · have hdense := byteType_setDenseValue (Nat.pos_of_ne_zero hv) (show hashValue ctz0 p h ≤ 64 by omega)
    by_cases hidx : (hashIndex p h : Int) = lastindex
    · by_cases hlt : newdata.getD (newdata.length - 1) 0 < setDenseValue (hashValue ctz0 p h)
      · refine .inr (.inl ⟨_, hdense, ?_⟩)
        unfold explicitToSparseStep
        exact (if_neg hv).trans ((if_pos hidx).trans (if_pos hlt))
      · refine .inl ?_
        unfold explicitToSparseStep
        exact (if_neg hv).trans ((if_pos hidx).trans (if_neg hlt))
    · refine .inr (.inr ⟨_, hdense, hidx, ?_⟩)
      unfold explicitToSparseStep
      exact (if_neg hv).trans (if_neg hidx)

lemma chain_set_last {newdata : List UInt8} (hchain : newdata.IsChain Follows) (hdense : byteType byte = .denseValue) :
    (newdata.set (newdata.length - 1) byte).IsChain Follows := by
  obtain rfl | ⟨front, last, rfl⟩ := List.eq_nil_or_concat newdata
  · exact hchain
  · rw [List.concat_eq_append] at hchain ⊢
    have hset : (front ++ [last]).set ((front ++ [last]).length - 1) byte = front ++ [byte] := by simp
    rw [hset]
    refine hchain.left_of_append.append (List.isChain_singleton byte) fun _ _ b hb => ?_
    obtain rfl : byte = b := Option.some_inj.mp hb
    exact fun _ => not_zeroRun_of_dense hdense

lemma chain_append_value {newdata : List UInt8} (n : Nat) (hchain : newdata.IsChain Follows)
    (hlast : ∀ b ∈ newdata.getLast?, byteType b = .denseValue) (hdense : byteType byte = .denseValue) :
    (newdata ++ setSparseZero n ++ [byte]).IsChain Follows := by
  rw [List.append_assoc]
  refine (chain_around hchain (fun b hb => ?_) (fun _ => chain_setSparseZero n) hdense).mpr List.isChain_nil
  rw [hlast b hb]
  exact nofun

/-- A hash is written inside the buffer. -/
lemma SparseRoom.write {ctz0 : UInt8} {p : HllPara} {hs : List UInt64} {s : Nat × List UInt8 × Int} {regs : List Nat}
    (inv : SparseFold ctz0 p hs s.2 regs) (hroom : SparseRoom p s) (h : UInt64) :
    ∃ s', explicitToSparseWrite ctz0 p s h = some s' ∧ s'.2 = explicitToSparseStep ctz0 p s.2 h ∧ SparseRoom p s' := by
  obtain ⟨sparsesize, newdata, lastindex⟩ := s
  obtain ⟨room, chain, last⟩ := hroom
  have hlen := inv.length
  dsimp only at room chain last hlen
  have hidx := hashIndex_lt p h
  unfold explicitToSparseWrite
  dsimp only
  obtain hstep | ⟨byte, hdense, hstep⟩ | ⟨byte, hdense, hne, hstep⟩ :=
    explicitToSparseStep_cases ctz0 p newdata lastindex h
  · rw [hstep]
    dsimp only
    rw [if_neg (by omega), if_neg fun hc => hc.1 rfl]
    exact ⟨_, rfl, rfl, room, chain, last⟩
  · rw [hstep]
    dsimp only
    rw [List.length_set, if_neg (by omega), if_neg fun hc => hc.1 rfl]
    refine ⟨_, rfl, rfl, by simpa using room, chain_set_last chain hdense, fun b hb => ?_⟩
    -- the last byte is the new one
    obtain rfl | ⟨front, old, rfl⟩ := List.eq_nil_or_concat newdata
    · cases hb
    · simp at hb
      exact hb ▸ hdense
  · rw [hstep]
    dsimp only
    have hzeros : (setSparseZero ((hashIndex p h : Int) - lastindex - 1).toNat).length + 1 ≤ sparseMinsize p :=
      setSparseZero_length (by omega)
    have hchain := chain_append_value ((hashIndex p h : Int) - lastindex - 1).toNat chain last hdense
    generalize setSparseZero ((hashIndex p h : Int) - lastindex - 1).toNat = zeros at *
    have hlast : ∀ b ∈ (newdata ++ zeros ++ [byte]).getLast?, byteType b = .denseValue := by
      intro b hb
      simp at hb
      exact hb ▸ hdense
    have hmin : sparseMinsize p ≤ 256 := by
      have hpow : 2 ^ (p.log2Registers - 12) ≤ 2 ^ 4 := Nat.pow_le_pow_right Nat.two_pos (by
        have := p.registers_range
        omega)
      unfold sparseMinsize
      split <;> omega
    have hnew : (newdata ++ zeros ++ [byte]).length = newdata.length + (zeros.length + 1) := by simp
    rw [if_neg (by omega)]
    split
    case isTrue hmore => exact ⟨_, rfl, rfl, by dsimp only; omega, hchain, hlast⟩
    case isFalse hmore =>
      have hfits : ¬ (newdata ++ zeros ++ [byte]).length + sparseMinsize p > sparsesize := fun hc => hmore ⟨hne, hc⟩
      exact ⟨_, rfl, rfl, by dsimp only; omega, hchain, hlast⟩

lemma explicitToSparseWrite_foldlM (ctz0 : UInt8) (p : HllPara) {hs : List UInt64} (hsort : hs.Pairwise (· ≤ ·)) :
    ∃ s regs, hs.foldlM (explicitToSparseWrite ctz0 p) (sparseMinsize p, [], -1) = some s ∧
      s.2 = hs.foldl (explicitToSparseStep ctz0 p) ([], -1) ∧ SparseRoom p s ∧ SparseFold ctz0 p hs s.2 regs := by
  induction hs using List.reverseRecOn with
  | nil =>
    exact ⟨_, [], rfl, rfl, ⟨by simp, List.isChain_nil, fun byte hb => nomatch hb⟩, SparseFold.nil ctz0 p⟩
  | append_singleton hs h ih =>
    rw [List.pairwise_append] at hsort
    obtain ⟨s, regs, hrun, hfold, hroom, inv⟩ := ih hsort.1
    obtain ⟨s', hwrite, hstep, hroom'⟩ := hroom.write inv h
    obtain ⟨regs', inv'⟩ := inv.step fun h' hm => hsort.2.2 h' hm h (by simp)
    refine ⟨s', regs', ?_, ?_, hroom', hstep ▸ inv'⟩
    · rw [List.foldlM_append, hrun]
      simpa using hwrite
    · rw [List.foldl_append, ← hfold, hstep]
      rfl

/-- The buffer of `HllExplicitToSparse` is large enough, and what it holds has the form. -/
lemma explicitToSparseBuffer_form (ctz0 : UInt8) (p : HllPara) {hs : List UInt64} (hsort : hs.Pairwise (· ≤ ·)) :
    ∃ bytes, explicitToSparseBuffer ctz0 p hs = some bytes ∧ bytes = explicitToSparse ctz0 p hs ∧
      SparseForm p bytes := by
  obtain ⟨⟨sparsesize, newdata, lastindex⟩, regs, hrun, hfold, hroom, inv⟩ := explicitToSparseWrite_foldlM ctz0 p hsort
  have hcodes := codes_explicitToSparse ctz0 p hsort
  have hlen := inv.length
  have hcast : ((2 ^ p.log2Registers : Nat) : Int) = 2 ^ p.log2Registers := by push_cast; rfl
  obtain ⟨room, chain, last⟩ := hroom
  dsimp only at hfold room chain last hlen
  have hzeros : (setSparseZero ((2 ^ p.log2Registers : Int) - lastindex - 1).toNat).length + 1 ≤ sparseMinsize p :=
    setSparseZero_length (Int.toNat_le.mpr (by rw [hcast]; omega))
  have heq : explicitToSparse ctz0 p hs =
      newdata ++ setSparseZero ((2 ^ p.log2Registers : Int) - lastindex - 1).toNat := by
    unfold explicitToSparse
    rw [← hfold]
  refine ⟨_, ?_, rfl, hcodes.valid, ?_, by rw [hcodes.expand_eq, registers_length]⟩
  · unfold explicitToSparseBuffer
    rw [hrun, heq]
    dsimp only [Option.bind_eq_bind, Option.bind_some]
    exact if_neg (by rw [List.length_append]; omega)
  · rw [heq]
    have htail := chain_setSparseZero ((2 ^ p.log2Registers : Int) - lastindex - 1).toNat List.isChain_nil
      fun _ hb => nomatch hb
    rw [List.append_nil] at htail
    exact chain.append htail fun b hb b' _ => follows_of_ne (by rw [last b hb]; exact nofun) b'

/-- The form is kept by every update but those that split a long run before another, and holds of what
`HllExplicitToSparse` writes. -/
theorem sparse_form_kept (p : HllPara) :
    (∀ bytes, SparseForm p bytes → ∀ index < 2 ^ p.log2Registers, ∀ value, 0 < value → value ≤ 64 - p.log2Registers →
      (KeepsForm p bytes index value ↔ ¬ SplitsLongRuns bytes index)) ∧
    ∀ ctz0 hashes, hashes.Pairwise (· ≤ ·) →
      ∃ bytes, explicitToSparseBuffer ctz0 p hashes = some bytes ∧ SparseForm p bytes := by
  constructor
  · intro bytes h index hindex value h0 hv
    exact keepsForm_iff_not_splits h hindex h0 (by omega)
  · intro ctz0 hashes hsort
    obtain ⟨bytes, hbuffer, -, hform⟩ := explicitToSparseBuffer_form ctz0 p hsort
    exact ⟨bytes, hbuffer, hform⟩

/-- The least parameters with long runs in a row. -/
def longRunsPara : HllPara := ⟨14, 10, 12, false, by decide, by decide, by decide⟩

/-- An empty object has the form. -/
lemma emptyToSparse_form (p : HllPara) : SparseForm p (emptyToSparse p) where
  valid := (codes_emptyToSparse p).valid
  chain := by
    unfold emptyToSparse
    dsimp only
    by_cases hmany : (if p.log2Registers > 12 then 2 ^ (p.log2Registers - 12) else 1) > 1
    · rw [if_pos hmany]
      have h := chain_replicate_longzeroFull (if p.log2Registers > 12 then 2 ^ (p.log2Registers - 12) else 1)
        List.isChain_nil
      rwa [List.append_nil] at h
    · rw [if_neg hmany]
      exact List.isChain_singleton _
  cover := by rw [(codes_emptyToSparse p).expand_eq, List.length_replicate]

lemma byteRun_longzeroFull : (byteRun 0x3F).length = 4096 := by
  rw [byteRun, show byteType 0x3F = .sparseLongzero by rfl, List.length_replicate]
  rfl

theorem sparse_form_kept_empty : KeepsForm longRunsPara [0x3F, 0x3F, 0x3F, 0x3F] 63 7 ∧
    ∃ bytes, explicitToSparseBuffer 0 longRunsPara [3, 3, 5] = some bytes ∧ SparseForm longRunsPara bytes := by
  have h := sparse_form_kept longRunsPara
  refine ⟨(h.1 _ (emptyToSparse_form longRunsPara) 63 (by decide) 7 (by decide) (by decide)).mpr ?_,
    h.2 0 [3, 3, 5] (by decide)⟩
  rintro ⟨pre, byte, later, post, u, hbytes, hty, -, hidx, -, hmod⟩
  cases pre with
  | nil =>
    rw [expand_nil, List.length_nil, Nat.zero_add] at hidx
    subst hidx
    exact hmod rfl
  | cons b pre =>
    obtain rfl := (List.cons.inj hbytes).1
    rw [expand_cons, List.length_append, byteRun_longzeroFull] at hidx
    omega

/-- A value in register 0 of an empty object leaves short zeros before long ones. -/
theorem sparse_form_broken : SparseForm longRunsPara [0x3F, 0x3F, 0x3F, 0x3F] ∧
    updateSparseValue [0x3F, 0x3F, 0x3F, 0x3F] 0 0 7 = some [0x86, 0x3E, 0x7E, 0x3F, 0x3F, 0x3F] ∧
    ¬ KeepsForm longRunsPara [0x3F, 0x3F, 0x3F, 0x3F] 0 7 := by
  have hupdate : updateSparseValue [0x3F, 0x3F, 0x3F, 0x3F] 0 0 7 = some [0x86, 0x3E, 0x7E, 0x3F, 0x3F, 0x3F] := by
    decide
  refine ⟨emptyToSparse_form longRunsPara, hupdate, ?_⟩
  rintro ⟨byteIndex, unitIndex, bytes', hunit, hupdate', hform, -⟩
  obtain ⟨rfl, rfl⟩ := Prod.mk.inj (Option.some_inj.mp (hunit.symm.trans (rfl : _ = some (0, 0))))
  obtain rfl := Option.some_inj.mp (hupdate'.symm.trans hupdate)
  have hchain := hform.chain
  have hshort := (List.isChain_cons_cons.mp (List.isChain_cons_cons.mp (List.isChain_cons_cons.mp hchain).2).2).1
  exact hshort (by decide) (.inl (by decide))

end GaussKernel.Cbb
