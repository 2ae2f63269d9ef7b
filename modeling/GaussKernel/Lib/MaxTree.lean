import Mathlib

/-!
# Trees of maxima

A complete binary tree whose nodes are numbered from the root on, 1 first, so that the children of `y` are `2 * y` and
`2 * y + 1`. The nodes from `2 ^ h` on are the leaves, and every other node has the greater value of its children. A
walk that moves right and then up, and then down again with the left child first, finds the first leaf on the right
whose value is high enough.
-/

namespace GaussKernel.Lib.MaxTree

open Function (update update_self update_of_ne)

variable {α : Type*} [LinearOrder α] {v : ℕ → α} {h k d y p z t : ℕ} {a : α}

/-- The node has the greater value of its children. -/
def MaxNode (v : ℕ → α) (y : ℕ) : Prop := v y = max (v (2 * y)) (v (2 * y + 1))

/-- Every node above the leaves is maximal, but for one. -/
def MaximalBut (v : ℕ → α) (h p : ℕ) : Prop := ∀ y, 0 < y → y < 2 ^ h → y ≠ p → MaxNode v y

/-- Every node above the leaves is maximal from some node on. -/
def MaximalFrom (v : ℕ → α) (h m : ℕ) : Prop := ∀ y, 0 < y → m ≤ y → y < 2 ^ h → MaxNode v y

/-! ## Changes -/

lemma MaxNode.update {b : α} (hv : MaxNode v y) (hself : y ≠ p) (hleft : 2 * y ≠ p) (hright : 2 * y + 1 ≠ p) :
    MaxNode (update v p b) y := by
  rw [MaxNode, update_of_ne hself, update_of_ne hleft, update_of_ne hright]
  exact hv

lemma maxNode_update (hp : 0 < p) : MaxNode (update v p (max (v (2 * p)) (v (2 * p + 1)))) p := by
  rw [MaxNode, update_self, update_of_ne (by omega), update_of_ne (by omega)]

/-- A new value of a leaf concerns its parent only. -/
lemma MaximalFrom.leaf {b : α} (hv : MaximalFrom v h 1) (hz : 2 ^ h ≤ z) :
    MaximalBut (update v z b) h (z / 2) := by
  intro y hpos hlt hne
  exact (hv y hpos hpos hlt).update (by omega) (by omega) (by omega)

lemma MaximalBut.stop (hv : MaximalBut v h p) (hp : MaxNode v p) : MaximalFrom v h 1 := by
  intro y hpos _ hlt
  by_cases hy : y = p
  · rwa [hy]
  · exact hv y hpos hlt hy

/-- The wrong node gets the greater value of its children, and its parent is next. -/
lemma MaximalBut.up (hv : MaximalBut v h p) (hp : 0 < p) :
    MaximalBut (update v p (max (v (2 * p)) (v (2 * p + 1)))) h (p / 2) := by
  intro y hpos hlt hne
  by_cases hy : y = p
  · rw [hy]
    exact maxNode_update hp
  · exact (hv y hpos hlt hy).update hy (by omega) (by omega)

/-- Below the root there is no node. -/
lemma MaximalBut.root (hv : MaximalBut v h 0) : MaximalFrom v h 1 :=
  fun y hpos _ hlt => hv y hpos hlt hpos.ne'

lemma MaximalFrom.down (hv : MaximalFrom v h (p + 1)) (hp : 0 < p) :
    MaximalFrom (update v p (max (v (2 * p)) (v (2 * p + 1)))) h p := by
  intro y hpos hle hlt
  by_cases hy : y = p
  · rw [hy]
    exact maxNode_update hp
  · exact (hv y hpos (by omega) hlt).update hy (by omega) (by omega)

/-! ## Leaves -/

lemma div_pow_succ (z d : ℕ) : z / 2 ^ (d + 1) = z / 2 ^ d / 2 := by
  rw [pow_succ, Nat.div_div_eq_div_mul]

/-- A node is not below the leaves under it. -/
lemma le_above (hv : MaximalFrom v h 1) (hz : z < 2 ^ (h + 1)) (hpos : 0 < z / 2 ^ d) : v z ≤ v (z / 2 ^ d) := by
  induction d with
  | zero => rw [pow_zero, Nat.div_one]
  | succ d ih =>
    rw [div_pow_succ] at hpos ⊢
    have hlt : z / 2 ^ d < 2 ^ (h + 1) := (Nat.div_le_self z _).trans_lt hz
    have hparent := hv (z / 2 ^ d / 2) hpos hpos (by omega)
    refine (ih (by omega)).trans ?_
    rw [hparent]
    rcases Nat.mod_two_eq_zero_or_one (z / 2 ^ d) with heven | hodd
    · exact le_max_of_le_left (by rw [show 2 * (z / 2 ^ d / 2) = z / 2 ^ d by omega])
    · exact le_max_of_le_right (by rw [show 2 * (z / 2 ^ d / 2) + 1 = z / 2 ^ d by omega])

/-- The root is not below any leaf. -/
lemma le_root (hv : MaximalFrom v h 1) (hlow : 2 ^ h ≤ z) (hz : z < 2 ^ (h + 1)) : v z ≤ v 1 := by
  have hroot : z / 2 ^ h = 1 := Nat.div_eq_of_lt_le (by omega) (by rw [pow_succ] at hz; omega)
  have hle := le_above hv hz (d := h) (by omega)
  rwa [hroot] at hle

lemma mem_below_iff : z / 2 ^ d = y ↔ y * 2 ^ d ≤ z ∧ z < (y + 1) * 2 ^ d :=
  Nat.div_eq_iff (Nat.two_pow_pos d) |>.trans (by
    rw [Nat.succ_mul]
    have := Nat.two_pow_pos d
    omega)

/-! ## Right and up -/

/-- Move right on the level, from its last node to its first one, and then to the parent. -/
def rightUp (y : ℕ) : ℕ := if (y + 1) &&& y = 0 then (y + 1) / 2 / 2 else (y + 1) / 2

lemma wraps_iff (hlow : 2 ^ k ≤ y) (hhigh : y < 2 ^ (k + 1)) : (y + 1) &&& y = 0 ↔ y + 1 = 2 ^ (k + 1) := by
  have hpow := Nat.and_sub_one_eq_zero_iff_isPowerOfTwo (n := y + 1) (by omega)
  rw [Nat.add_sub_cancel] at hpow
  rw [hpow]
  constructor
  · rintro ⟨j, hj⟩
    have hkj : k < j := (Nat.pow_lt_pow_iff_right (by omega : 1 < 2)).mp (by omega)
    have hjk : j ≤ k + 1 := (Nat.pow_le_pow_iff_right (by omega : 1 < 2)).mp (by omega)
    rw [hj, show j = k + 1 by omega]
  · exact fun h => ⟨k + 1, h⟩

lemma rightUp_level (hlow : 2 ^ (k + 1) ≤ y) (hhigh : y < 2 ^ (k + 2)) :
    2 ^ k ≤ rightUp y ∧ rightUp y < 2 ^ (k + 1) := by
  have hk : 2 ^ (k + 1) = 2 * 2 ^ k := by rw [pow_succ, Nat.mul_comm]
  have hk' : 2 ^ (k + 2) = 2 * 2 ^ (k + 1) := by rw [pow_succ, Nat.mul_comm]
  rw [rightUp]
  split
  case isTrue hwrap =>
    have := (wraps_iff hlow hhigh).mp hwrap
    omega
  case isFalse hno =>
    have hne : y + 1 ≠ 2 ^ (k + 2) := fun h => hno ((wraps_iff hlow hhigh).mpr h)
    omega

/-- From the leaf `t` on, no leaf before those under `y` is good. After the last leaf, the first one is next. -/
def Swept (good : ℕ → Prop) (h t y d : ℕ) : Prop :=
  t ≤ y * 2 ^ d ∧ (∀ z, t ≤ z → z < y * 2 ^ d → ¬good z) ∨
    y * 2 ^ d = 2 ^ h ∧ ∀ z, t ≤ z → z < 2 ^ (h + 1) → ¬good z

lemma swept_start (good : ℕ → Prop) (h t : ℕ) : Swept good h t t 0 := by
  refine .inl ⟨by rw [pow_zero, Nat.mul_one], fun z hle hlt => ?_⟩
  rw [pow_zero, Nat.mul_one] at hlt
  omega

/-- A node that is too low has no good leaf, so the walk misses none. -/
lemma Swept.rightUp {good : ℕ → Prop} (hswept : Swept good h t y d) (hlevel : h = k + 1 + d) (hlow : 2 ^ (k + 1) ≤ y)
    (hhigh : y < 2 ^ (k + 2)) (hnone : ∀ z, z / 2 ^ d = y → ¬good z) : Swept good h t (rightUp y) (d + 1) := by
  have hd := Nat.two_pow_pos d
  have htop : 2 ^ (k + 2) * 2 ^ d = 2 ^ (h + 1) := by rw [← pow_add, hlevel]; ring_nf
  have hfirst : 2 ^ (k + 1) * 2 ^ d = 2 ^ h := by rw [← pow_add, hlevel]
  have hhalf : 2 ^ (k + 2) = 2 * 2 ^ (k + 1) := by rw [pow_succ, Nat.mul_comm]
  have hhalf' : 2 ^ (k + 1) = 2 * 2 ^ k := by rw [pow_succ, Nat.mul_comm]
  have hparent : ∀ x, x * 2 ^ (d + 1) = 2 * x * 2 ^ d := fun x => by rw [pow_succ]; ring
  have hunder : ∀ z, y * 2 ^ d ≤ z → z < (y + 1) * 2 ^ d → ¬good z := fun z hle hlt =>
    hnone z (mem_below_iff.mpr ⟨hle, hlt⟩)
  rcases hswept with ⟨hstart, hbefore⟩ | ⟨hleft, hall⟩
  · have hpast : ∀ z, t ≤ z → z < (y + 1) * 2 ^ d → ¬good z := by
      intro z hle hlt
      rcases lt_or_ge z (y * 2 ^ d) with hin | hin
      · exact hbefore z hle hin
      · exact hunder z hin hlt
    have hgrow : t ≤ (y + 1) * 2 ^ d := hstart.trans (Nat.mul_le_mul_right _ (by omega))
    by_cases hwrap : y + 1 = 2 ^ (k + 2)
    · -- the last node of its level
      refine .inr ⟨?_, fun z hle hlt => hpast z hle ?_⟩
      · rw [MaxTree.rightUp, if_pos ((wraps_iff hlow hhigh).mpr hwrap), hwrap, hparent, ← hfirst]
        congr 1
        omega
      · rwa [hwrap, htop]
    · have hnext : MaxTree.rightUp y = (y + 1) / 2 := if_neg fun h => hwrap ((wraps_iff hlow hhigh).mp h)
      rcases Nat.mod_two_eq_zero_or_one y with heven | hodd
      · have hsame : 2 * ((y + 1) / 2) = y := by omega
        refine .inl ?_
        rw [hnext, hparent, hsame]
        exact ⟨hstart, hbefore⟩
      · have hsame : 2 * ((y + 1) / 2) = y + 1 := by omega
        refine .inl ?_
        rw [hnext, hparent, hsame]
        exact ⟨hgrow, hpast⟩
  · have hy : y = 2 ^ (k + 1) := Nat.eq_of_mul_eq_mul_right hd (hleft.trans hfirst.symm)
    have hk := Nat.two_pow_pos k
    have hne : y + 1 ≠ 2 ^ (k + 2) := by omega
    refine .inr ⟨?_, hall⟩
    rw [MaxTree.rightUp, if_neg fun h => hne ((wraps_iff hlow hhigh).mp h), hparent, ← hfirst]
    congr 1
    omega

/-! ## Down -/

/-- The first good leaf of those under the node -/
def FirstUnder (good : ℕ → Prop) (y d z : ℕ) : Prop :=
  z / 2 ^ d = y ∧ good z ∧ ∀ z', z' / 2 ^ d = y → z' < z → ¬good z'

/-- The first good leaf is under the left child if that one is high enough, and under the right child if not. -/
lemma FirstUnder.left {good : ℕ → Prop} (hz : FirstUnder good (2 * y) d z) : FirstUnder good y (d + 1) z := by
  obtain ⟨hunder, hgood, hfirst⟩ := hz
  refine ⟨by rw [div_pow_succ, hunder]; omega, hgood, fun z' hz' hlt => hfirst z' ?_ hlt⟩
  rw [div_pow_succ] at hz'
  have := Nat.div_le_div_right (c := 2 ^ d) hlt.le
  omega

lemma FirstUnder.right {good : ℕ → Prop} (hz : FirstUnder good (2 * y + 1) d z)
    (hleft : ∀ z', z' / 2 ^ d = 2 * y → ¬good z') : FirstUnder good y (d + 1) z := by
  obtain ⟨hunder, hgood, hfirst⟩ := hz
  refine ⟨by rw [div_pow_succ, hunder]; omega, hgood, fun z' hz' hlt => ?_⟩
  rw [div_pow_succ] at hz'
  rcases (by omega : z' / 2 ^ d = 2 * y ∨ z' / 2 ^ d = 2 * y + 1) with hl | hr
  · exact hleft z' hl
  · exact hfirst z' hr hlt

/-- The first good leaf from `t` on, going round -/
def FirstFrom (good : ℕ → Prop) (h t z : ℕ) : Prop :=
  good z ∧ (t ≤ z ∧ (∀ z', t ≤ z' → z' < z → ¬good z') ∨
    z < t ∧ (∀ z', t ≤ z' → z' < 2 ^ (h + 1) → ¬good z') ∧ ∀ z', 2 ^ h ≤ z' → z' < z → ¬good z')

lemma Swept.first {good : ℕ → Prop} (hswept : Swept good h t y d) (hz : FirstUnder good y d z)
    (hlast : z < 2 ^ (h + 1)) : FirstFrom good h t z := by
  obtain ⟨hunder, hgood, hfirst⟩ := hz
  obtain ⟨hlow, hhigh⟩ := mem_below_iff.mp hunder
  have hrest : ∀ z', y * 2 ^ d ≤ z' → z' < z → ¬good z' := fun z' hle hlt =>
    hfirst z' (mem_below_iff.mpr ⟨hle, hlt.trans hhigh⟩) hlt
  refine ⟨hgood, ?_⟩
  rcases hswept with ⟨hstart, hbefore⟩ | ⟨hwhole, hall⟩
  · refine .inl ⟨hstart.trans hlow, fun z' hle hlt => ?_⟩
    rcases lt_or_ge z' (y * 2 ^ d) with hin | hin
    · exact hbefore z' hle hin
    · exact hrest z' hin hlt
  · refine .inr ⟨?_, hall, fun z' hle hlt => hrest z' (hwhole ▸ hle) hlt⟩
    by_contra hge
    exact hall z (by omega) hlast hgood

end GaussKernel.Lib.MaxTree
