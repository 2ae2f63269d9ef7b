import Mathlib

/-!
# Dense numbering

A table whose entries own numbers that are handed out in order: together they own the numbers from 1 to `n`, each
number once.
-/

namespace GaussKernel.Lib

def Dense (t : List (List Nat)) (n : Nat) : Prop := t.flatten.Perm (List.range' 1 n)

variable {t : List (List Nat)} {n c : Nat} {l : List Nat}

/-- The entries hold the numbers from 1 on. -/
lemma Dense.mem_iff (h : Dense t n) : c ∈ t.flatten ↔ 1 ≤ c ∧ c ≤ n := by
  rw [List.Perm.mem_iff h, List.mem_range'_1]
  omega

/-- No number is held twice. -/
lemma Dense.nodup (h : Dense t n) : t.flatten.Nodup :=
  (List.Perm.nodup_iff h).mpr List.nodup_range'

/-- There are as many numbers as the table counts. -/
lemma Dense.length (h : Dense t n) : t.flatten.length = n := by
  rw [List.Perm.length_eq h, List.length_range']

/-- A number of an entry lies in the range. -/
lemma Dense.mem_bound (h : Dense t n) (hl : l ∈ t) (hc : c ∈ l) :
    1 ≤ c ∧ c ≤ n := h.mem_iff.mp (List.mem_flatten_of_mem hl hc)

/-- No number stands twice in an entry. -/
lemma Dense.entry_nodup (h : Dense t n) (hl : l ∈ t) : l.Nodup :=
  (List.nodup_flatten.mp h.nodup).1 l hl

/-- Two entries own different numbers. -/
lemma Dense.disjoint {i j : Nat} (h : Dense t n) (hij : i ≠ j) (hi : c ∈ t.getD i []) (hj : c ∈ t.getD j []) :
    False := by
  have hpair := (List.nodup_flatten.mp h.nodup).2
  have hlt : ∀ k, c ∈ t.getD k [] → k < t.length := by
    intro k hk
    by_contra hge
    rw [List.getD_eq_default _ _ (not_lt.mp hge)] at hk
    cases hk
  have hii := hlt i hi
  have hjj := hlt j hj
  rw [List.getD_eq_getElem _ _ hii] at hi
  rw [List.getD_eq_getElem _ _ hjj] at hj
  rcases Nat.lt_or_gt_of_ne hij with hlt | hlt
  · exact List.pairwise_iff_getElem.mp hpair i j hii hjj hlt hi hj
  · exact List.pairwise_iff_getElem.mp hpair j i hjj hii hlt hj hi

/-- What an entry is given, the table is given. -/
lemma flatten_set_perm {α : Type*} (t : List (List α)) {i : Nat} (hi : i < t.length) (l : List α) :
    (t.set i (t[i] ++ l)).flatten.Perm (t.flatten ++ l) := by
  induction t generalizing i with
  | nil => cases hi
  | cons x t ih =>
    cases i with
    | zero =>
      simp only [List.set_cons_zero, List.getElem_cons_zero, List.flatten_cons, List.append_assoc]
      exact List.perm_append_comm.append_left x
    | succ i =>
      simp only [List.set_cons_succ, List.getElem_cons_succ, List.flatten_cons, List.append_assoc]
      exact (ih (Nat.lt_of_succ_lt_succ hi)).append_left x

/-- The next numbers go to one entry. -/
lemma Dense.grow {i : Nat} (h : Dense t n) (hi : i < t.length) (k : Nat) :
    Dense (t.set i (t[i] ++ List.range' (n + 1) k)) (n + k) := by
  have hp := (flatten_set_perm t hi (List.range' (n + 1) k)).trans (List.Perm.append_right _ h)
  rw [Nat.add_comm n 1, List.range'_append_1] at hp
  rwa [Nat.add_comm n 1]

/-- The empty table is dense. -/
lemma Dense.nil (k : Nat) : Dense (List.replicate k []) 0 := by
  unfold Dense
  simp

/-- Empty entries may be added. -/
lemma Dense.append_nil (h : Dense t n) (k : Nat) : Dense (t ++ List.replicate k []) n := by
  unfold Dense at *
  simpa using h

/-- Bounded entries bound the count. -/
lemma Dense.le_mul {m : Nat} (h : Dense t n) (hm : ∀ l ∈ t, l.length ≤ m) : n ≤ t.length * m := by
  rw [← h.length, List.length_flatten]
  calc (t.map List.length).sum ≤ (t.map fun _ => m).sum := List.sum_le_sum hm
    _ = t.length * m := by simp

/-- The greatest number of a list of numbers. -/
def maxOf (l : List Nat) : Nat := l.foldl max 0

/-- A fold of `max`, with its start taken out. -/
lemma foldl_max_eq (l : List Nat) (a : Nat) : l.foldl max a = max a (maxOf l) := by
  induction l generalizing a with
  | nil => simp [maxOf]
  | cons x l ih =>
    unfold maxOf
    rw [List.foldl_cons, List.foldl_cons, ih, ih (max 0 x)]
    omega

/-- The maximum with one element more. -/
lemma maxOf_cons (x : Nat) (l : List Nat) : maxOf (x :: l) = max x (maxOf l) := by
  unfold maxOf
  rw [List.foldl_cons, foldl_max_eq, Nat.zero_max]
  rfl

/-- The maximum is the least bound. -/
lemma maxOf_le_iff {m : Nat} : maxOf l ≤ m ↔ ∀ c ∈ l, c ≤ m := by
  induction l with
  | nil => simp [maxOf]
  | cons x l ih => simp [maxOf_cons, ih]

/-- Every element is at most the maximum. -/
lemma le_maxOf (h : c ∈ l) : c ≤ maxOf l := maxOf_le_iff.mp le_rfl c h

/-- The greatest number is the count. -/
lemma Dense.maxOf (h : Dense t n) : maxOf t.flatten = n := by
  apply le_antisymm
  · exact maxOf_le_iff.mpr fun c hc => (h.mem_iff.mp hc).2
  · rcases Nat.eq_zero_or_pos n with rfl | hn
    · exact Nat.zero_le _
    · exact le_maxOf (h.mem_iff.mpr ⟨hn, le_rfl⟩)

/-- The numbers given out anew in order. -/
def renumber : List Nat → Nat → List (List Nat)
  | [], _ => []
  | k :: ks, n => List.range' (n + 1) k :: renumber ks (n + k)

/-- Renumbered entries hold consecutive numbers. -/
lemma renumber_flatten (ks : List Nat) (n : Nat) : (renumber ks n).flatten = List.range' (n + 1) ks.sum := by
  induction ks generalizing n with
  | nil => rfl
  | cons k ks ih =>
    rw [renumber, List.flatten_cons, ih, List.sum_cons, show n + k + 1 = n + 1 + k by omega, List.range'_append_1]

/-- A renumbered table is dense. -/
lemma renumber_dense (ks : List Nat) : Dense (renumber ks 0) ks.sum := by
  unfold Dense
  rw [renumber_flatten]

end GaussKernel.Lib
