import Mathlib
import GaussKernel.Cbb.SparseCode

/-!
# Adding and union

What an object stands for, whatever the order of the hashes and of the unions it was built with: the distinct hashes
while they are few, else the greatest value of every register. The conversion from the explicit to the full mode keeps
the value of the last hash of a register instead, and hash 0 is taken for a duplicate in an object that has seen none.
-/

namespace GaussKernel.Cbb
open Lib

instance linearOrderUInt64 : LinearOrder UInt64 where
  le_refl := UInt64.le_refl
  le_trans _ _ _ := UInt64.le_trans
  le_antisymm _ _ := UInt64.le_antisymm
  le_total := UInt64.le_total
  lt_iff_le_not_ge a b := by
    simp only [UInt64.le_iff_toNat_le, UInt64.lt_iff_toNat_lt]
    omega
  toDecidableLE := inferInstance
  toDecidableEq := inferInstance
  toDecidableLT := inferInstance

inductive Decoded where
  | hashes (hashes : List UInt64)
  | registers (registers : List Nat)
  deriving DecidableEq

def decode : HllData → Decoded
  | .uninit => .hashes []
  | .empty => .hashes []
  | .explicit hashes => .hashes hashes
  | .sparse bytes => .registers (expand bytes)
  | .full bytes => .registers (bytes.map UInt8.toNat)

/-- The hashes of the set fit into the explicit mode. -/
def Small (p : HllPara) (S : Finset UInt64) : Prop := 8 * S.card ≤ 2 ^ p.log2Explicitsize

instance (p : HllPara) (S : Finset UInt64) : Decidable (Small p S) :=
  inferInstanceAs (Decidable (8 * S.card ≤ 2 ^ p.log2Explicitsize))

/-- What an object of the hashes `S` stands for. -/
def decodeOf (ctz0 : UInt8) (p : HllPara) (S : Finset UInt64) : Decoded :=
  if Small p S then .hashes (S.sort (· ≤ ·)) else .registers (registers ctz0 p S)

/-- The way an object is built: the calls of `HllAdd` and `HllUnion` on fresh objects. -/
inductive Build where
  | init
  | empty
  | add (b : Build) (hashval : UInt64)
  | union (b b' : Build)
  deriving DecidableEq

namespace Build

def eval (ctz0 : UInt8) (p : HllPara) : Build → Option HllObject
  | .init => some ⟨p, .uninit, 0⟩
  | .empty => some ⟨p, .empty, 0⟩
  | .add b hashval => (b.eval ctz0 p).bind fun hll => hllAdd ctz0 hll hashval
  | .union b b' =>
    (b.eval ctz0 p).bind fun hll => (b'.eval ctz0 p).bind fun aHll => (hllUnion ctz0 hll aHll).map Prod.fst

def hashes : Build → Finset UInt64
  | .init => ∅
  | .empty => ∅
  | .add b hashval => insert hashval b.hashes
  | .union b b' => b.hashes ∪ b'.hashes

/-- The hash added last, if no union came after it. -/
def lastHash : Build → UInt64
  | .init => 0
  | .empty => 0
  | .add _ hashval => hashval
  | .union b b' => if b'.hashes = ∅ then b.lastHash else if b.hashes = ∅ then b'.lastHash else 0

/-- The objects on the way. -/
def parts : Build → List Build
  | .init => [.init]
  | .empty => [.empty]
  | .add b hashval => .add b hashval :: b.parts
  | .union b b' => .union b b' :: (b.parts ++ b'.parts)

/-- The object stands for its hashes. -/
def Right (ctz0 : UInt8) (p : HllPara) (b : Build) : Prop :=
  ∃ hll, b.eval ctz0 p = some hll ∧ decode hll.hllData = decodeOf ctz0 p b.hashes

end Build

/-- Hashes that leave the explicit mode for the full mode are covered by the last ones of their registers. -/
def DirectSound (ctz0 : UInt8) (p : HllPara) (S : Finset UInt64) : Prop :=
  ¬ Small p S → p.log2Sparsesize ≤ p.log2Explicitsize → LastCovers (hashIndex p) (hashValue ctz0 p) S ∅

def AddSound (ctz0 : UInt8) (p : HllPara) (S : Finset UInt64) (lastHash hashval : UInt64) : Prop :=
  (p.duplicateCheck = true → hashval = 0 → lastHash = 0 → 0 ∉ S →
    ¬ Small p S ∧ hashValue ctz0 p 0 ≤ regOf (hashIndex p) (hashValue ctz0 p) S (hashIndex p 0)) ∧
  (Small p S → DirectSound ctz0 p (insert hashval S))

def UnionSound (ctz0 : UInt8) (p : HllPara) (S S' : Finset UInt64) : Prop :=
  S.Nonempty → S'.Nonempty →
    (Small p S → Small p S' → DirectSound ctz0 p (S ∪ S')) ∧
    (Small p S → ¬ Small p S' → LastCovers (hashIndex p) (hashValue ctz0 p) S S') ∧
    (¬ Small p S → Small p S' → LastCovers (hashIndex p) (hashValue ctz0 p) S' S)

/-- Where an object on the way leaves the explicit mode for the full mode the last hash of every register is its
greatest, and hash 0 is never the first of an object that checks for duplicates. -/
def Build.Sound (ctz0 : UInt8) (p : HllPara) : Build → Prop
  | .init => True
  | .empty => True
  | .add b hashval => b.Sound ctz0 p ∧ AddSound ctz0 p b.hashes b.lastHash hashval
  | .union b b' => b.Sound ctz0 p ∧ b'.Sound ctz0 p ∧ UnionSound ctz0 p b.hashes b'.hashes

/-! ## What the data stand for -/

/-- Data in the sparse or the full mode with the registers `regs`. -/
inductive RegForm (regs : List Nat) : HllData → Prop where
  | sparse {bytes : List UInt8} : Codes bytes regs → RegForm regs (.sparse bytes)
  | full {bytes : List UInt8} : bytes.map UInt8.toNat = regs → RegForm regs (.full bytes)

inductive Holds (ctz0 : UInt8) (p : HllPara) (S : Finset UInt64) : HllData → Prop where
  | uninit : S = ∅ → Holds ctz0 p S .uninit
  | empty : S = ∅ → Holds ctz0 p S .empty
  | explicit {hashes : List UInt64} : hashes.Pairwise (· < ·) → hashes.toFinset = S → S.Nonempty → Small p S →
    Holds ctz0 p S (.explicit hashes)
  | regs {data : HllData} : RegForm (registers ctz0 p S) data → ¬ Small p S → Holds ctz0 p S data

variable {regs : List Nat} {data : HllData} {p : HllPara} {S S' : Finset UInt64} {ctz0 : UInt8} {hs : List UInt64}
  {bytes : List UInt8} {hll aHll : HllObject}

lemma RegForm.decode (h : RegForm regs data) : decode data = .registers regs := by
  cases h with
  | sparse h => rw [Cbb.decode, h.expand_eq]
  | full h => rw [Cbb.decode, h]

lemma small_empty (p : HllPara) : Small p ∅ := Nat.zero_le _

lemma Small.mono (h : Small p S') (hsub : S ⊆ S') : Small p S := by
  have hcard := Finset.card_le_card hsub
  unfold Small at *
  omega

lemma not_small_of_zero (he : p.log2Explicitsize = 0) (hS : S.Nonempty) : ¬ Small p S := by
  have hcard := hS.card_pos
  unfold Small
  rw [he]
  omega

lemma Holds.decode (h : Holds ctz0 p S data) : decode data = decodeOf ctz0 p S := by
  unfold decodeOf
  cases h with
  | uninit hS => rw [hS, if_pos (small_empty p)]; simp [Cbb.decode]
  | empty hS => rw [hS, if_pos (small_empty p)]; simp [Cbb.decode]
  | explicit hsort hS _ hsmall =>
    rw [if_pos hsmall, ← hS, Cbb.decode]
    congr 1
    exact ((List.toFinset_sort (· ≤ ·) (hsort.imp ne_of_lt)).mpr (hsort.imp le_of_lt)).symm
  | regs hform hlarge => rw [if_neg hlarge, hform.decode]

/-! ## Conversion of the mode -/

lemma map_toNat_lastWrites (ctz0 : UInt8) (p : HllPara) (n : Nat) (hs : List UInt64) :
    (hs.foldl (fun newdata hashval => newdata.set (hashIndex p hashval) (UInt8.ofNat (hashValue ctz0 p hashval)))
      (List.replicate n 0)).map UInt8.toNat = lastWrites (hashIndex p) (hashValue ctz0 p) n hs := by
  induction hs using List.reverseRecOn with
  | nil => simp [lastWrites]
  | append_singleton hs h ih =>
    have hv := hashValue_le ctz0 p h
    rw [List.foldl_append, lastWrites_append, ← ih]
    simp only [List.foldl_cons, List.foldl_nil, List.map_set]
    congr 1
    rw [UInt8.toNat_ofNat', Nat.mod_eq_of_lt (by omega)]

lemma transformFull_explicit (ctz0 : UInt8) (p : HllPara) (hs : List UInt64) :
    ∃ full, transformFull ctz0 p (.explicit hs) = some (.full full) ∧
      full.map UInt8.toNat = lastWrites (hashIndex p) (hashValue ctz0 p) (2 ^ p.log2Registers) hs :=
  ⟨_, rfl, map_toNat_lastWrites ctz0 p _ hs⟩

lemma transformFull_regForm (h : RegForm (registers ctz0 p S) data) :
    ∃ full, transformFull ctz0 p data = some (.full full) ∧ full.map UInt8.toNat = registers ctz0 p S := by
  cases h with
  | sparse h => exact transformFull_sparse ctz0 p h (registers_length _ _ _)
  | full h => exact ⟨_, rfl, h⟩

lemma lastWrites_eq_iff (ctz0 : UInt8) (p : HllPara) (hsort : hs.Pairwise (· < ·)) (T : Finset UInt64) :
    List.zipWith max (lastWrites (hashIndex p) (hashValue ctz0 p) (2 ^ p.log2Registers) hs) (registers ctz0 p T) =
        registers ctz0 p (hs.toFinset ∪ T) ↔ LastCovers (hashIndex p) (hashValue ctz0 p) hs.toFinset T :=
  zipWith_lastWrites_iff hsort (fun h _ => hashIndex_lt p h) T

/-- The step succeeds. Its data hold the hashes `S` under the condition `C` and stand for them only then. -/
def Exact (ctz0 : UInt8) (p : HllPara) (S : Finset UInt64) (C : Prop) (r : Option HllData) : Prop :=
  ∃ data, r = some data ∧ (C → Holds ctz0 p S data) ∧ (decode data = decodeOf ctz0 p S → C)

lemma Exact.of_holds {C : Prop} (h : Holds ctz0 p S data) (hC : C) : Exact ctz0 p S C (some data) :=
  ⟨data, rfl, fun _ => h, fun _ => hC⟩

/-- Full data whose registers are right under the condition only. -/
lemma Exact.full {ctz0 : UInt8} {p : HllPara} {S : Finset UInt64} {C : Prop} {bytes : List UInt8}
    (hlarge : ¬ Small p S) (h : bytes.map UInt8.toNat = registers ctz0 p S ↔ C) :
    Exact ctz0 p S C (some (.full bytes)) := by
  refine ⟨_, rfl, fun hC => .regs (.full (h.mpr hC)) hlarge, fun hdec => h.mp ?_⟩
  rw [decodeOf, if_neg hlarge] at hdec
  exact Decoded.registers.inj hdec

lemma explicitCheck_exact (ctz0 : UInt8) (p : HllPara) (hsort : hs.Pairwise (· < ·)) (hne : hs.toFinset.Nonempty) :
    Exact ctz0 p hs.toFinset (DirectSound ctz0 p hs.toFinset) (explicitCheck ctz0 p hs) := by
  have hcard : hs.toFinset.card = hs.length := List.toFinset_card_of_nodup (hsort.imp ne_of_lt)
  unfold explicitCheck
  split
  case isFalse h =>
    have hsmall : Small p hs.toFinset := by
      unfold Small
      omega
    exact .of_holds (.explicit hsort rfl hne hsmall) fun hlarge => absurd hsmall hlarge
  case isTrue h =>
    have hlarge : ¬ Small p hs.toFinset := by
      unfold Small
      omega
    split
    case isTrue hsparse =>
      have hcodes := codes_explicitToSparse ctz0 p (hsort.imp UInt64.le_of_lt)
      have hC : DirectSound ctz0 p hs.toFinset := fun _ hle => absurd hsparse (not_lt.mpr hle)
      dsimp only
      split
      · obtain ⟨full, heq, hfull⟩ := transformFull_sparse ctz0 p hcodes (registers_length _ _ _)
        rw [heq]
        exact .of_holds (.regs (.full hfull) hlarge) hC
      · exact .of_holds (.regs (.sparse hcodes) hlarge) hC
    case isFalse hsparse =>
      obtain ⟨full, heq, hfull⟩ := transformFull_explicit ctz0 p hs
      have hlast := lastWrites_eq_iff ctz0 p hsort ∅
      have hbot : ∀ l : List Nat, l.length = 2 ^ p.log2Registers →
          List.zipWith max l (registers ctz0 p ∅) = l := by
        intro l hl
        apply List.ext_getElem (by simp [hl])
        intro i h h'
        simp [registers_empty]
      rw [hbot _ (lastWrites_length _ _), Finset.union_empty, ← hfull] at hlast
      rw [heq]
      exact .full hlarge (hlast.trans ⟨fun hcov _ _ => hcov, fun hC => hC hlarge (not_lt.mp hsparse)⟩)

/-! ## Adding a hash -/

lemma getD_mono (hsort : hs.Pairwise (· < ·)) {i j : Nat} (hij : i ≤ j) (hj : j < hs.length) :
    hs.getD i 0 ≤ hs.getD j 0 := by
  rcases hij.eq_or_lt with rfl | hlt
  · exact le_rfl
  · rw [List.getD_eq_getElem _ _ (hlt.trans hj), List.getD_eq_getElem _ _ hj]
    exact le_of_lt (List.pairwise_iff_getElem.mp hsort i j (hlt.trans hj) hj hlt)

/-- The search splits the hashes into those not above `hashval` and those above it. -/
lemma searchExplicit_spec (hashval : UInt64) (hsort : hs.Pairwise (· < ·)) (fuel start last : Nat)
    (hfuel : last - start ≤ fuel) (hsl : start ≤ last) (hlast : last ≤ hs.length)
    (hlow : ∀ i < start, hs.getD i 0 ≤ hashval) (hhigh : ∀ i, last ≤ i → i < hs.length → hashval < hs.getD i 0) :
    searchExplicit hs hashval fuel start last ≤ hs.length ∧
      (∀ i < searchExplicit hs hashval fuel start last, hs.getD i 0 ≤ hashval) ∧
      ∀ i, searchExplicit hs hashval fuel start last ≤ i → i < hs.length → hashval < hs.getD i 0 := by
  induction fuel generalizing start last with
  | zero =>
    obtain rfl : start = last := by omega
    exact ⟨hlast, hlow, hhigh⟩
  | succ fuel ih =>
    rw [searchExplicit]
    split
    case isFalse h =>
      obtain rfl : start = last := by omega
      exact ⟨hlast, hlow, hhigh⟩
    case isTrue h =>
      dsimp only
      split
      case isTrue hle =>
        refine ih _ _ (by omega) (by omega) hlast (fun i hi => ?_) hhigh
        exact (getD_mono hsort (by omega) (by omega)).trans hle
      case isFalse hgt =>
        refine ih _ _ (by omega) (by omega) (by omega) hlow fun i hi hlen => ?_
        exact (not_le.mp hgt).trans_le (getD_mono hsort hi hlen)

/-- A hash that is not there goes between the lower and the higher ones. -/
lemma searchExplicit_sorted (hashval : UInt64) (hsort : hs.Pairwise (· < ·)) {bindex : Nat}
    (hb : searchExplicit hs hashval hs.length 0 hs.length = bindex)
    (h : ¬ (bindex > 0 ∧ hs.getD (bindex - 1) 0 = hashval)) :
    (hs.take bindex ++ [hashval] ++ hs.drop bindex).Pairwise (· < ·) := by
  obtain ⟨hle, hlow, hhigh⟩ := searchExplicit_spec hashval hsort hs.length 0 hs.length
    (by omega) (Nat.zero_le _) le_rfl (by omega) (by omega)
  rw [hb] at hle hlow hhigh
  have hbefore : ∀ x ∈ hs.take bindex, x < hashval := by
    intro x hx
    obtain ⟨i, hi, rfl⟩ := List.getElem_of_mem hx
    rw [List.length_take] at hi
    rw [List.getElem_take, ← List.getD_eq_getElem _ 0]
    have hlt : hs.getD (bindex - 1) 0 < hashval :=
      lt_of_le_of_ne (hlow _ (by omega)) fun he => h ⟨by omega, he⟩
    exact (getD_mono hsort (by omega) (by omega)).trans_lt hlt
  have hafter : ∀ x ∈ hs.drop bindex, hashval < x := by
    intro x hx
    obtain ⟨i, hi, rfl⟩ := List.getElem_of_mem hx
    rw [List.length_drop] at hi
    rw [List.getElem_drop, ← List.getD_eq_getElem _ 0]
    exact hhigh _ (by omega) (by omega)
  rw [List.append_assoc, List.pairwise_append]
  refine ⟨hsort.sublist (List.take_sublist _ _), List.pairwise_cons.mpr
    ⟨fun x hx => hafter x hx, hsort.sublist (List.drop_sublist _ _)⟩, fun x hx y hy => ?_⟩
  rcases List.mem_cons.mp hy with rfl | hy
  · exact hbefore x hx
  · exact (hbefore x hx).trans (hafter y hy)

lemma setExplicitValue_exact (ctz0 : UInt8) (p : HllPara) (hsort : hs.Pairwise (· < ·)) (hsmall : Small p hs.toFinset)
    (hashval : UInt64) :
    Exact ctz0 p (insert hashval hs.toFinset) (DirectSound ctz0 p (insert hashval hs.toFinset))
      (setExplicitValue ctz0 p hs hashval) := by
  have hle := (searchExplicit_spec hashval hsort hs.length 0 hs.length
    (by omega) (Nat.zero_le _) le_rfl (by omega) (by omega)).1
  unfold setExplicitValue
  dsimp only
  generalize hb : searchExplicit hs hashval hs.length 0 hs.length = bindex at hle
  split
  case isTrue h =>
    obtain ⟨hpos, heq⟩ := h
    have hmem : hashval ∈ hs.toFinset := by
      rw [List.mem_toFinset, ← heq, List.getD_eq_getElem _ _ (by omega)]
      exact List.getElem_mem _
    rw [Finset.insert_eq_of_mem hmem]
    exact .of_holds (.explicit hsort rfl ⟨_, hmem⟩ hsmall) fun hlarge => absurd hsmall hlarge
  case isFalse h =>
    have hset : (hs.take bindex ++ [hashval] ++ hs.drop bindex).toFinset = insert hashval hs.toFinset := by
      have hmem : ∀ x, x ∈ hs ↔ x ∈ hs.take bindex ∨ x ∈ hs.drop bindex := by
        intro x
        rw [← List.mem_append, List.take_append_drop]
      ext x
      simp only [List.mem_toFinset, List.mem_append, List.mem_singleton, Finset.mem_insert, hmem x]
      tauto
    rw [← hset]
    exact explicitCheck_exact ctz0 p (searchExplicit_sorted hashval hsort hb h)
      (by rw [hset]; exact Finset.insert_nonempty _ _)

lemma setSparseValue_regForm (h : Codes bytes (registers ctz0 p S)) (hashval : UInt64) :
    ∃ data, setSparseValue ctz0 p bytes hashval = some data ∧
      RegForm (registers ctz0 p (insert hashval S)) data := by
  unfold setSparseValue
  dsimp only
  split
  case isTrue hv => exact ⟨_, rfl, .sparse (by rwa [registers_insert_zero S hv])⟩
  case isFalse hv =>
    have hvle := hashValue_le ctz0 p hashval
    obtain ⟨byteIndex, unitIndex, bytes', hunit, hupd, hcodes⟩ := updateSparseValue_codes h
      (by rw [registers_length]; exact hashIndex_lt p hashval) (Nat.pos_of_ne_zero hv) (by omega)
    rw [← registers_insert] at hcodes
    rw [hunit]
    dsimp only [Option.bind_eq_bind, Option.bind_some]
    rw [hupd]
    dsimp only [Option.bind_some]
    split
    · obtain ⟨full, heq, hfull⟩ := transformFull_sparse ctz0 p hcodes (registers_length _ _ _)
      exact ⟨_, heq, .full hfull⟩
    · exact ⟨_, rfl, .sparse hcodes⟩

lemma setFullValue_regForm (h : bytes.map UInt8.toNat = registers ctz0 p S) (hashval : UInt64) :
    ∃ data, setFullValue ctz0 p bytes hashval = some data ∧ RegForm (registers ctz0 p (insert hashval S)) data := by
  unfold setFullValue
  dsimp only
  split
  case isTrue hv => exact ⟨_, rfl, .full (by rwa [registers_insert_zero S hv])⟩
  case isFalse hv =>
    have hvle := hashValue_le ctz0 p hashval
    have hidx := hashIndex_lt p hashval
    have hlen : bytes.length = 2 ^ p.log2Registers := by
      rw [← registers_length ctz0 p S, ← h, List.length_map]
    have hlt : hashIndex p hashval < bytes.length := by omega
    rw [List.getElem?_eq_getElem hlt]
    dsimp only
    have hget : (registers ctz0 p S).getD (hashIndex p hashval) 0 = bytes[hashIndex p hashval].toNat := by
      rw [← h, List.getD_eq_getElem _ _ (by rw [List.length_map]; omega), List.getElem_map]
    rw [registers_insert]
    split
    case isTrue hgt =>
      refine ⟨_, rfl, .full ?_⟩
      rw [List.map_set, h, raise, Nat.bot_eq_zero, hget, max_eq_right hgt.le, UInt8.toNat_ofNat',
        Nat.mod_eq_of_lt (by omega)]
    case isFalse hle =>
      refine ⟨_, rfl, .full ?_⟩
      rw [h, raise_of_le]
      rw [Nat.bot_eq_zero, hget]
      omega

/-- A hash into sparse or full data. -/
lemma setRegisterValue_regForm (h : RegForm (registers ctz0 p S) data) (hashval : UInt64) :
    ∃ data', setRegisterValue ctz0 p data hashval = some data' ∧
      RegForm (registers ctz0 p (insert hashval S)) data' := by
  cases h with
  | sparse h => exact setSparseValue_regForm h hashval
  | full h => exact setFullValue_regForm h hashval

lemma setEmptyValue_exact (ctz0 : UInt8) (p : HllPara) (hashval : UInt64) :
    Exact ctz0 p {hashval} (DirectSound ctz0 p {hashval}) (setEmptyValue ctz0 p hashval) := by
  have hC : DirectSound ctz0 p {hashval} := fun _ _ => lastCovers_singleton _ _
  have hregs : ∀ {data : HllData} {r : Option HllData}, p.log2Explicitsize = 0 →
      r = some data ∧ RegForm (registers ctz0 p (insert hashval ∅)) data →
        Exact ctz0 p {hashval} (DirectSound ctz0 p {hashval}) r := by
    rintro data r he ⟨rfl, hform⟩
    rw [insert_empty_eq] at hform
    exact .of_holds (.regs hform (not_small_of_zero he (Finset.singleton_nonempty _))) hC
  unfold setEmptyValue
  split
  case isTrue h =>
    have hzero : (List.replicate (2 ^ p.log2Registers) (0 : UInt8)).map UInt8.toNat = registers ctz0 p ∅ := by
      rw [registers_empty, List.map_replicate]
      rfl
    obtain ⟨data, hdata⟩ := setFullValue_regForm hzero hashval
    exact hregs h.1 hdata
  case isFalse =>
    split
    case isTrue he =>
      have hzero : Codes (emptyToSparse p) (registers ctz0 p ∅) := by
        rw [registers_empty]
        exact codes_emptyToSparse p
      obtain ⟨data, hdata⟩ := setSparseValue_regForm hzero hashval
      exact hregs he hdata
    case isFalse =>
      have h := setExplicitValue_exact ctz0 p (show List.Pairwise (· < ·) [] from List.Pairwise.nil)
        (small_empty p) hashval
      rwa [List.toFinset_nil, insert_empty_eq] at h

lemma setRegisterValue_exact (h : Holds ctz0 p S data) (hashval : UInt64) :
    Exact ctz0 p (insert hashval S) (Small p S → DirectSound ctz0 p (insert hashval S))
      (setRegisterValue ctz0 p data hashval) := by
  -- of small sets the premise holds
  have hdrop : ∀ {r : Option HllData}, Small p S →
      Exact ctz0 p (insert hashval S) (DirectSound ctz0 p (insert hashval S)) r →
        Exact ctz0 p (insert hashval S) (Small p S → DirectSound ctz0 p (insert hashval S)) r := by
    rintro r hsmall ⟨data', hr, hto, hfrom⟩
    exact ⟨data', hr, fun hC => hto (hC hsmall), fun hdec _ => hfrom hdec⟩
  cases h with
  | uninit hS =>
    subst hS
    exact hdrop (small_empty p) (setEmptyValue_exact ctz0 p hashval)
  | empty hS =>
    subst hS
    exact hdrop (small_empty p) (setEmptyValue_exact ctz0 p hashval)
  | explicit hsort hS _ hsmall =>
    subst hS
    exact hdrop hsmall (setExplicitValue_exact ctz0 p hsort hsmall hashval)
  | regs hform hlarge =>
    obtain ⟨data', heq, hform'⟩ := setRegisterValue_regForm hform hashval
    rw [heq]
    exact .of_holds (.regs hform' fun hsmall => hlarge (hsmall.mono (Finset.subset_insert _ _)))
      fun hsmall => absurd hsmall hlarge

/-- An object of the parameters `p` that holds the hashes `S`. -/
structure HllObject.Ok (ctz0 : UInt8) (p : HllPara) (S : Finset UInt64) (last : UInt64) (hll : HllObject) : Prop where
  para : hll.hllpara = p
  last : hll.lastHash = last
  holds : Holds ctz0 p S hll.hllData

/-- The object is there. It is in order under `C`, and stands for its hashes only then. -/
def ExactObject (ctz0 : UInt8) (p : HllPara) (S : Finset UInt64) (last : UInt64) (C : Prop) (r : Option HllObject) :
    Prop :=
  ∃ hll, r = some hll ∧ (C → hll.Ok ctz0 p S last) ∧ (decode hll.hllData = decodeOf ctz0 p S → C)

/-- Hash 0, taken for a duplicate, would have changed nothing. -/
lemma skip_zero_iff (h : Holds ctz0 p S data) (hnot : 0 ∉ S) :
    (¬ Small p S ∧ hashValue ctz0 p 0 ≤ regOf (hashIndex p) (hashValue ctz0 p) S (hashIndex p 0) →
      Holds ctz0 p (insert 0 S) data) ∧
    (decode data = decodeOf ctz0 p (insert 0 S) →
      ¬ Small p S ∧ hashValue ctz0 p 0 ≤ regOf (hashIndex p) (hashValue ctz0 p) S (hashIndex p 0)) := by
  constructor
  · rintro ⟨hlarge, hv⟩
    have hlarge' : ¬ Small p (insert 0 S) := fun hs => hlarge (hs.mono (Finset.subset_insert _ _))
    have hregs : registers ctz0 p (insert 0 S) = registers ctz0 p S := registersOf_insert_of_le _ hv
    cases h with
    | uninit hS => exact absurd (hS ▸ small_empty p) hlarge
    | empty hS => exact absurd (hS ▸ small_empty p) hlarge
    | explicit _ _ _ hsmall => exact absurd hsmall hlarge
    | regs hform _ => exact .regs (hregs ▸ hform) hlarge'
  · intro hdec
    rw [h.decode] at hdec
    unfold decodeOf at hdec
    by_cases hsmall : Small p S
    · rw [if_pos hsmall] at hdec
      split at hdec
      · have hset := congrArg List.toFinset (Decoded.hashes.inj hdec)
        rw [Finset.sort_toFinset, Finset.sort_toFinset] at hset
        exact absurd (hset ▸ Finset.mem_insert_self 0 S) hnot
      · cases hdec
    · have hsmall' : ¬ Small p (insert 0 S) := fun hs => hsmall (hs.mono (Finset.subset_insert _ _))
      rw [if_neg hsmall, if_neg hsmall'] at hdec
      refine ⟨hsmall, ?_⟩
      have hidx := hashIndex_lt p 0
      have hget := congrArg (·.getD (hashIndex p 0) 0) (Decoded.registers.inj hdec)
      unfold registers at hget
      rw [List.getD_eq_getElem _ _ (by simpa using hidx), List.getD_eq_getElem _ _ (by simpa using hidx),
        registersOf_getElem, registersOf_getElem, regOf_insert, if_pos rfl] at hget
      rw [hget]
      exact le_max_left _ _

lemma hllAdd_exact {last : UInt64} (h : hll.Ok ctz0 p S last) (hlast : last = 0 ∨ last ∈ S) (hashval : UInt64) :
    ExactObject ctz0 p (insert hashval S) hashval (AddSound ctz0 p S last hashval) (hllAdd ctz0 hll hashval) := by
  obtain ⟨hpara, hlh, hholds⟩ := h
  unfold hllAdd
  rw [hpara, hlh]
  split
  case isTrue hskip =>
    obtain ⟨hdup, rfl⟩ := hskip
    by_cases hmem : hashval ∈ S
    · rw [Finset.insert_eq_of_mem hmem]
      refine ⟨hll, rfl, fun _ => ⟨hpara, hlh, hholds⟩, fun _ => ⟨fun _ h0 _ hnot => ?_, fun hsmall => ?_⟩⟩
      · exact absurd (h0 ▸ hmem) hnot
      · rw [Finset.insert_eq_of_mem hmem]
        exact fun hlarge => absurd hsmall hlarge
    · obtain rfl : hashval = 0 := hlast.resolve_right hmem
      obtain ⟨hto, hfrom⟩ := skip_zero_iff hholds hmem
      refine ⟨hll, rfl, fun hC => ⟨hpara, hlh, hto (hC.1 hdup rfl rfl hmem)⟩, fun hdec => ?_⟩
      have hC := hfrom hdec
      exact ⟨fun _ _ _ _ => hC, fun hsmall => absurd hsmall hC.1⟩
  case isFalse hskip =>
    have hC : (Small p S → DirectSound ctz0 p (insert hashval S)) ↔ AddSound ctz0 p S last hashval := by
      refine ⟨fun hC => ⟨fun hdup h0 hl _ => ?_, hC⟩, fun hC => hC.2⟩
      exact absurd ⟨hdup, h0.trans hl.symm⟩ hskip
    obtain ⟨data, hdata, hto, hfrom⟩ := setRegisterValue_exact hholds hashval
    rw [hdata]
    exact ⟨_, rfl, fun h => ⟨rfl, rfl, hto (hC.mpr h)⟩, fun hdec => hC.mp (hfrom hdec)⟩

/-! ## Union -/

lemma mem_combineExplicit {xs ys : List UInt64} {z : UInt64} : z ∈ combineExplicit xs ys ↔ z ∈ xs ∨ z ∈ ys := by
  fun_induction combineExplicit xs ys with
  | case1 ys => simp
  | case2 x xs => simp
  | case3 x xs y ys hlt ih => simp [ih, or_assoc]
  | case4 x xs y ys hlt hgt ih =>
    rw [List.mem_cons, ih, List.mem_cons (l := ys)]
    tauto
  | case5 x xs y ys hlt hgt ih =>
    obtain rfl : x = y := le_antisymm (not_lt.mp hgt) (not_lt.mp hlt)
    simp only [List.mem_cons, ih]
    tauto

lemma combineExplicit_sorted {xs ys : List UInt64} (hxs : xs.Pairwise (· < ·)) (hys : ys.Pairwise (· < ·)) :
    (combineExplicit xs ys).Pairwise (· < ·) := by
  fun_induction combineExplicit xs ys with
  | case1 ys => exact hys
  | case2 x xs => exact hxs
  | case3 x xs y ys hlt ih =>
    rw [List.pairwise_cons] at hxs ⊢
    refine ⟨fun z hz => ?_, ih hxs.2 hys⟩
    rcases mem_combineExplicit.mp hz with hz | hz
    · exact hxs.1 z hz
    · rcases List.mem_cons.mp hz with rfl | hz
      · exact hlt
      · exact hlt.trans ((List.pairwise_cons.mp hys).1 z hz)
  | case4 x xs y ys hlt hgt ih =>
    rw [List.pairwise_cons] at hys ⊢
    refine ⟨fun z hz => ?_, ih hxs hys.2⟩
    rcases mem_combineExplicit.mp hz with hz | hz
    · rcases List.mem_cons.mp hz with rfl | hz
      · exact hgt
      · exact lt_trans hgt ((List.pairwise_cons.mp hxs).1 z hz)
    · exact hys.1 z hz
  | case5 x xs y ys hlt hgt ih =>
    obtain rfl : x = y := le_antisymm (not_lt.mp hgt) (not_lt.mp hlt)
    rw [List.pairwise_cons] at hxs hys ⊢
    refine ⟨fun z hz => ?_, ih hxs.2 hys.2⟩
    rcases mem_combineExplicit.mp hz with hz | hz
    · exact hxs.1 z hz
    · exact hys.1 z hz

lemma toFinset_combineExplicit (xs ys : List UInt64) :
    (combineExplicit xs ys).toFinset = xs.toFinset ∪ ys.toFinset := by
  ext z
  simp [mem_combineExplicit]

lemma map_toNat_combineFull (bytes bytes' : List UInt8) :
    (combineFull bytes bytes').map UInt8.toNat = List.zipWith max (bytes.map UInt8.toNat) (bytes'.map UInt8.toNat) := by
  unfold combineFull
  rw [List.map_zipWith, List.zipWith_map]
  congr 1
  funext b b'
  split
  case isTrue h => exact (max_eq_right (UInt8.lt_iff_toNat_lt.mp h).le).symm
  case isFalse h => exact (max_eq_left (not_lt.mp fun hc => h (UInt8.lt_iff_toNat_lt.mpr hc))).symm

lemma HllPara.same_refl (p : HllPara) : p.same p = true := by simp [HllPara.same]

/-- Every union but of two explicit objects. -/
lemma hllUnion_full {f f' : List UInt8} (hpara : aHll.hllpara = hll.hllpara)
    (h : transformFull ctz0 hll.hllpara hll.hllData = some (.full f))
    (h' : transformFull ctz0 hll.hllpara aHll.hllData = some (.full f')) (hne : hll.hllData ≠ .empty)
    (hne' : aHll.hllData ≠ .empty)
    (hnot : ∀ hs hs', hll.hllData = .explicit hs → aHll.hllData = .explicit hs' → False) :
    (hllUnion ctz0 hll aHll).map Prod.fst =
      some { hll with hllData := .full (combineFull f f'), lastHash := 0 } := by
  obtain ⟨p, data, last⟩ := hll
  obtain ⟨p', data', last'⟩ := aHll
  dsimp only at hpara h h' hne hne' hnot
  subst hpara
  have hsame := HllPara.same_refl p'
  have huninit : ∀ g, transformFull ctz0 p' .uninit ≠ some (.full g) := fun g => by simp [transformFull]
  cases data <;> cases data' <;> first
    | exact absurd rfl hne
    | exact absurd rfl hne'
    | exact absurd h (huninit f)
    | exact absurd h' (huninit f')
    | exact (hnot _ _ rfl rfl).elim
    | simp only [hllUnion, hsame, if_true, h, h', Option.map_some]

lemma exactObject_full {C : Prop} (hpara : hll.hllpara = p) (hlarge : ¬ Small p S)
    (h : bytes.map UInt8.toNat = registers ctz0 p S ↔ C) :
    ExactObject ctz0 p S 0 C (some { hll with hllData := .full bytes, lastHash := 0 }) := by
  obtain ⟨data, heq, hto, hfrom⟩ := Exact.full hlarge h
  obtain rfl := Option.some.inj heq
  exact ⟨_, rfl, fun hC => ⟨hpara, rfl, hto hC⟩, hfrom⟩

lemma RegForm.ne_explicit (h : RegForm regs data) (hs : List UInt64) : data ≠ .explicit hs := by
  rintro rfl
  cases h

lemma RegForm.ne_empty (h : RegForm regs data) : data ≠ .empty := by
  rintro rfl
  cases h

lemma nonempty_of_not_small (h : ¬ Small p S) : S.Nonempty := by
  rw [Finset.nonempty_iff_ne_empty]
  rintro rfl
  exact h (small_empty p)

/-- Union with an object that holds hashes, of one that does. -/
lemma hllUnion_nonempty (hpara : hll.hllpara = p) (hpara' : aHll.hllpara = p) (h : Holds ctz0 p S hll.hllData)
    (h' : Holds ctz0 p S' aHll.hllData) (hne : S.Nonempty) (hne' : S'.Nonempty) :
    ExactObject ctz0 p (S ∪ S') 0 (UnionSound ctz0 p S S') ((hllUnion ctz0 hll aHll).map Prod.fst) := by
  have hp : aHll.hllpara = hll.hllpara := hpara'.trans hpara.symm
  subst hpara
  generalize hd : hll.hllData = data at h
  generalize hd' : aHll.hllData = data' at h'
  have hleft : ¬ Small hll.hllpara S → ¬ Small hll.hllpara (S ∪ S') :=
    fun hlarge hs => hlarge (hs.mono Finset.subset_union_left)
  have hright : ¬ Small hll.hllpara S' → ¬ Small hll.hllpara (S ∪ S') :=
    fun hlarge hs => hlarge (hs.mono Finset.subset_union_right)
  cases h with
  | uninit hS => exact absurd hS hne.ne_empty
  | empty hS => exact absurd hS hne.ne_empty
  | @explicit hs hsort hS _ hsmall =>
    cases h' with
    | uninit hS' => exact absurd hS' hne'.ne_empty
    | empty hS' => exact absurd hS' hne'.ne_empty
    | @explicit hs' hsort' hS' _ hsmall' =>
      have hset : (combineExplicit hs hs').toFinset = S ∪ S' := by rw [toFinset_combineExplicit, hS, hS']
      have hchk := explicitCheck_exact ctz0 hll.hllpara (combineExplicit_sorted hsort hsort')
        (by rw [hset]; exact hne.inl)
      rw [hset] at hchk
      obtain ⟨data, heq, hto, hfrom⟩ := hchk
      have hun : (hllUnion ctz0 hll aHll).map Prod.fst = some { hll with hllData := data, lastHash := 0 } := by
        unfold hllUnion
        rw [hd, hd', hp]
        dsimp only
        rw [if_pos (HllPara.same_refl _), heq]
        rfl
      rw [hun]
      refine ⟨_, rfl, fun hC => ⟨rfl, rfl, hto ((hC hne hne').1 hsmall hsmall')⟩, fun hdec _ _ =>
        ⟨fun _ _ => hfrom hdec, fun _ hl' => absurd hsmall' hl', fun hl => absurd hsmall hl⟩⟩
    | regs hform' hlarge' =>
      obtain ⟨f, hf, hfull⟩ := transformFull_explicit ctz0 hll.hllpara hs
      obtain ⟨f', hf', hfull'⟩ := transformFull_regForm hform'
      rw [hllUnion_full hp (by rw [hd]; exact hf) (by rw [hd']; exact hf') (by rw [hd]; simp)
        (by rw [hd']; exact hform'.ne_empty) fun _ hs' _ he => hform'.ne_explicit hs' (hd'.symm.trans he)]
      refine exactObject_full rfl (hright hlarge') ?_
      rw [map_toNat_combineFull, hfull, hfull', ← hS, lastWrites_eq_iff ctz0 hll.hllpara hsort, hS]
      exact ⟨fun hcov _ _ => ⟨fun _ hs' => absurd hs' hlarge', fun _ _ => hcov, fun hl => absurd hsmall hl⟩,
        fun hC => (hC hne hne').2.1 hsmall hlarge'⟩
  | regs hform hlarge =>
    obtain ⟨f, hf, hfull⟩ := transformFull_regForm hform
    cases h' with
    | uninit hS' => exact absurd hS' hne'.ne_empty
    | empty hS' => exact absurd hS' hne'.ne_empty
    | @explicit hs' hsort' hS' _ hsmall' =>
      obtain ⟨f', hf', hfull'⟩ := transformFull_explicit ctz0 hll.hllpara hs'
      rw [hllUnion_full hp (by rw [hd]; exact hf) (by rw [hd']; exact hf') (by rw [hd]; exact hform.ne_empty)
        (by rw [hd']; simp) fun hs _ he _ => hform.ne_explicit hs (hd.symm.trans he)]
      refine exactObject_full rfl (hleft hlarge) ?_
      rw [map_toNat_combineFull, hfull, hfull', List.zipWith_comm_of_comm max_comm, Finset.union_comm, ← hS',
        lastWrites_eq_iff ctz0 hll.hllpara hsort', hS']
      exact ⟨fun hcov _ _ => ⟨fun hs' => absurd hs' hlarge, fun hs' => absurd hs' hlarge, fun _ _ => hcov⟩,
        fun hC => (hC hne hne').2.2 hlarge hsmall'⟩
    | regs hform' hlarge' =>
      obtain ⟨f', hf', hfull'⟩ := transformFull_regForm hform'
      rw [hllUnion_full hp (by rw [hd]; exact hf) (by rw [hd']; exact hf') (by rw [hd]; exact hform.ne_empty)
        (by rw [hd']; exact hform'.ne_empty) fun hs _ he _ => hform.ne_explicit hs (hd.symm.trans he)]
      refine exactObject_full rfl (hleft hlarge) ?_
      rw [map_toNat_combineFull, hfull, hfull']
      exact iff_of_true (registersOf_union _ _ _).symm fun _ _ =>
        ⟨fun hs => absurd hs hlarge, fun hs => absurd hs hlarge, fun _ hs' => absurd hs' hlarge'⟩

lemma holds_ne_empty (h : Holds ctz0 p S data) : S = ∅ ↔ data = .uninit ∨ data = .empty := by
  cases h with
  | uninit hS => exact iff_of_true hS (.inl rfl)
  | empty hS => exact iff_of_true hS (.inr rfl)
  | explicit _ _ hne _ => exact iff_of_false hne.ne_empty (by simp)
  | regs hform hlarge =>
    refine iff_of_false (nonempty_of_not_small hlarge).ne_empty ?_
    cases hform <;> simp

lemma hllUnion_exact {last last' : UInt64} (h : hll.Ok ctz0 p S last) (h' : aHll.Ok ctz0 p S' last') :
    ExactObject ctz0 p (S ∪ S') (if S' = ∅ then last else if S = ∅ then last' else 0) (UnionSound ctz0 p S S')
      ((hllUnion ctz0 hll aHll).map Prod.fst) := by
  by_cases hS' : S' = ∅
  · have hun : hllUnion ctz0 hll aHll = some (hll, aHll) := by
      unfold hllUnion
      rcases (holds_ne_empty h'.holds).mp hS' with hd | hd <;> rw [hd]
    rw [hun, hS', Finset.union_empty, if_pos rfl]
    exact ⟨hll, rfl, fun _ => h, fun _ _ hne => absurd rfl hne.ne_empty⟩
  · rw [if_neg hS']
    by_cases hS : S = ∅
    · have hun : hllUnion ctz0 hll aHll = some (aHll, aHll) := by
        have hnot := mt (holds_ne_empty h'.holds).mpr hS'
        unfold hllUnion
        rcases (holds_ne_empty h.holds).mp hS with hd | hd <;> rw [hd] <;> cases hd' : aHll.hllData <;> simp_all
      rw [hun, hS, Finset.empty_union, if_pos rfl]
      exact ⟨aHll, rfl, fun _ => h', fun _ hne => absurd rfl hne.ne_empty⟩
    · rw [if_neg hS]
      exact hllUnion_nonempty h.para h'.para h.holds h'.holds (Finset.nonempty_iff_ne_empty.mpr hS)
        (Finset.nonempty_iff_ne_empty.mpr hS')

/-! ## Every way to build an object -/

lemma Build.lastHash_mem (b : Build) : b.lastHash = 0 ∨ b.lastHash ∈ b.hashes := by
  induction b with
  | init => exact .inl rfl
  | empty => exact .inl rfl
  | add b hashval _ => exact .inr (Finset.mem_insert_self _ _)
  | union b b' ih ih' =>
    rw [Build.lastHash, Build.hashes]
    split
    · exact ih.imp_right (Finset.mem_union_left _)
    · split
      · exact ih'.imp_right (Finset.mem_union_right _)
      · exact .inl rfl

lemma Build.Sound.ok {b : Build} (h : b.Sound ctz0 p) :
    ∃ hll, b.eval ctz0 p = some hll ∧ hll.Ok ctz0 p b.hashes b.lastHash := by
  induction b with
  | init => exact ⟨_, rfl, rfl, rfl, .uninit rfl⟩
  | empty => exact ⟨_, rfl, rfl, rfl, .empty rfl⟩
  | add b hashval ih =>
    obtain ⟨hll, heval, hok⟩ := ih h.1
    obtain ⟨hll', hadd, hto, -⟩ := hllAdd_exact hok b.lastHash_mem hashval
    exact ⟨hll', by rw [Build.eval, heval, Option.bind_some, hadd], hto h.2⟩
  | union b b' ih ih' =>
    obtain ⟨hll, heval, hok⟩ := ih h.1
    obtain ⟨aHll, heval', hok'⟩ := ih' h.2.1
    obtain ⟨hll', hun, hto, -⟩ := hllUnion_exact hok hok'
    exact ⟨hll', by rw [Build.eval, heval, Option.bind_some, heval', Option.bind_some, hun], hto h.2.2⟩

lemma Build.Sound.right {ctz0 : UInt8} {p : HllPara} {b : Build} (h : b.Sound ctz0 p) : b.Right ctz0 p := by
  obtain ⟨hll, heval, hok⟩ := h.ok
  exact ⟨hll, heval, hok.holds.decode⟩

/-- Objects of the same hashes stand for the same, however these were added, split and merged, exactly while the
conversions to the full mode lose no value and no first hash 0 is taken for a duplicate. -/
theorem hll_right_iff (ctz0 : UInt8) (p : HllPara) (b : Build) :
    (∀ b' ∈ b.parts, b'.Right ctz0 p) ↔ b.Sound ctz0 p := by
  induction b with
  | init => simpa [Build.parts, Build.Sound] using (show Build.init.Sound ctz0 p from trivial).right
  | empty => simpa [Build.parts, Build.Sound] using (show Build.empty.Sound ctz0 p from trivial).right
  | add b hashval ih =>
    rw [Build.parts, List.forall_mem_cons, ih]
    constructor
    · rintro ⟨⟨hll', heval', hdec⟩, hsound⟩
      obtain ⟨hll, heval, hok⟩ := hsound.ok
      obtain ⟨hll'', hadd, -, hfrom⟩ := hllAdd_exact hok b.lastHash_mem hashval
      rw [Build.eval, heval, Option.bind_some, hadd] at heval'
      obtain rfl := Option.some.inj heval'
      exact ⟨hsound, hfrom hdec⟩
    · exact fun h => ⟨h.right, h.1⟩
  | union b b' ih ih' =>
    rw [Build.parts, List.forall_mem_cons, List.forall_mem_append, ih, ih']
    constructor
    · rintro ⟨⟨hll', heval', hdec⟩, hsound, hsound'⟩
      obtain ⟨hll, heval, hok⟩ := hsound.ok
      obtain ⟨aHll, hevala, hoka⟩ := hsound'.ok
      obtain ⟨hll'', hun, -, hfrom⟩ := hllUnion_exact hok hoka
      rw [Build.eval, heval, Option.bind_some, hevala, Option.bind_some, hun] at heval'
      obtain rfl := Option.some.inj heval'
      exact ⟨hsound, hsound', hfrom hdec⟩
    · exact fun h => ⟨h.right, h.1, h.2.1⟩

/-- One hash fits into the explicit mode, and two go to the full mode directly. -/
def oneHashPara : HllPara := ⟨10, 3, 0, false, by decide, by decide, by decide⟩

/-- The hashes 2 and 3 share register 0 with the values 2 and 1. Converted together they leave 1 there; when another
hash has led to the full mode before 3 comes, the register keeps its 2. -/
theorem hll_order_matters :
    (Build.add (.add (.add .init 2) 3) (2 ^ 63)).hashes = (Build.add (.add (.add .init 2) (2 ^ 63)) 3).hashes ∧
      ((Build.add (.add (.add .init 2) 3) (2 ^ 63)).eval 64 oneHashPara).map (fun hll => decode hll.hllData) ≠
        ((Build.add (.add (.add .init 2) (2 ^ 63)) 3).eval 64 oneHashPara).map fun hll => decode hll.hllData := by
  constructor
  · decide +kernel
  · decide +kernel

end GaussKernel.Cbb
