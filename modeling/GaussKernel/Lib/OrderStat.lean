import Mathlib.Data.List.Sort
import Mathlib.Order.Bounds.Basic

/-!
# Order statistics of a list

The entry at a place of a sorted list is said by a count: the `n`-th of a descending list is the greatest value that
more than `n` entries reach, and the first `n` of an ascending list are the ones with fewer than `n` before them.

A running minimum that takes the least element for "not yet set" is the minimum only under a condition on where the
least element stands.
-/

namespace GaussKernel.Lib

section Sorted

variable {α : Type*}

/-- The `n`-th largest element reaches `p` when more than `n` elements do. -/
lemma le_getElem_iff_lt_countP [LinearOrder α] {p : α} : ∀ {l : List α} {n : ℕ} (hn : n < l.length),
    l.Pairwise (· ≥ ·) → (p ≤ l[n] ↔ n < l.countP fun x => decide (p ≤ x))
  | [], _, hn, _ => absurd hn (Nat.not_lt_zero _)
  | a :: l, 0, _, hsort => by
    rw [List.getElem_cons_zero, List.countP_pos_iff]
    constructor
    · intro hp
      exact ⟨a, List.mem_cons_self, decide_eq_true hp⟩
    · rintro ⟨x, hx, hp⟩
      rcases List.mem_cons.1 hx with rfl | hx
      · exact of_decide_eq_true hp
      · exact (of_decide_eq_true hp).trans (List.rel_of_pairwise_cons hsort hx)
  | a :: l, n + 1, hn, hsort => by
    have hn : n < l.length := Nat.lt_of_succ_lt_succ hn
    rw [List.getElem_cons_succ, List.countP_cons, le_getElem_iff_lt_countP hn hsort.of_cons]
    by_cases ha : p ≤ a
    · simp [ha]
    · -- nothing behind `a` reaches `p` either
      have hnone : (l.countP fun x => decide (p ≤ x)) = 0 := by
        refine List.countP_eq_zero.2 fun x hx hp => ha ?_
        exact (of_decide_eq_true hp).trans (List.rel_of_pairwise_cons hsort hx)
      simp [ha, hnone]

/-- The first `n` elements are those with fewer than `n` before them. -/
lemma mem_take_iff_countP_lt {r : α → α → Bool} (hirr : ∀ a, r a a = false) (hasymm : ∀ a b, r a b → r b a = false)
    {x : α} : ∀ {l : List α} {n : ℕ}, l.Pairwise (fun a b => r a b) →
    (x ∈ l.take n ↔ x ∈ l ∧ l.countP (fun y => r y x) < n)
  | [], n, _ => by simp
  | a :: l, 0, _ => by simp
  | a :: l, n + 1, hsort => by
    rw [List.take_succ_cons, List.mem_cons, List.mem_cons, List.countP_cons,
      mem_take_iff_countP_lt hirr hasymm hsort.of_cons]
    by_cases hx : x = a
    · subst hx
      have hnone : l.countP (fun y => r y x) = 0 :=
        List.countP_eq_zero.2 fun y hy => by simp [hasymm x y (List.rel_of_pairwise_cons hsort hy)]
      simp [hnone, hirr]
    · constructor
      · rintro (rfl | ⟨hmem, hlt⟩)
        · exact absurd rfl hx
        · exact ⟨Or.inr hmem, by split <;> omega⟩
      · rintro ⟨rfl | hmem, hlt⟩
        · exact absurd rfl hx
        · rw [if_pos (List.rel_of_pairwise_cons hsort hmem)] at hlt
          exact Or.inr ⟨hmem, by omega⟩

/-- One place of an indexed list picks out one summand. -/
lemma flatMap_zipIdx_single {β : Type*} {f : α → ℕ → List β} {i : ℕ} : ∀ {l : List α} {k : ℕ} {a : α},
    l[i]? = some a → (l.zipIdx k).flatMap (fun x => if x.2 = k + i then f x.1 x.2 else []) = f a (k + i) := by
  intro l
  induction l generalizing i with
  | nil => intro k a h; simp at h
  | cons b l ih =>
    intro k a h
    rw [List.zipIdx_cons, List.flatMap_cons]
    cases i with
    | zero =>
      obtain rfl : b = a := by simpa using h
      have hrest : (l.zipIdx (k + 1)).flatMap (fun x => if x.2 = k + 0 then f x.1 x.2 else []) = [] := by
        refine List.flatMap_eq_nil_iff.2 fun x hx => if_neg ?_
        have := (List.mem_zipIdx hx).1
        omega
      rw [hrest, List.append_nil]
      exact if_pos rfl
    | succ i =>
      have h : l[i]? = some a := by simpa using h
      have hih := ih (k := k + 1) h
      rw [show k + 1 + i = k + (i + 1) by omega] at hih
      rw [hih, if_neg (by show ¬ k = k + (i + 1); omega), List.nil_append]

end Sorted

section Least

variable {α : Type*} [LinearOrder α] [OrderBot α]

/-- A running minimum in which the least element stands for "nothing yet". -/
def keepLeast (acc v : α) : α := if acc = ⊥ ∨ v ≤ acc then v else acc

/-- The first value replaces `⊥`. -/
lemma keepLeast_bot_left (v : α) : keepLeast ⊥ v = v := if_pos (Or.inl rfl)

/-- `⊥` replaces every value. -/
lemma keepLeast_bot_right (acc : α) : keepLeast acc ⊥ = ⊥ := if_pos (Or.inr bot_le)

/-- A value other than `⊥` leaves no `⊥`. -/
lemma keepLeast_ne_bot {acc v : α} (hv : v ≠ ⊥) : keepLeast acc v ≠ ⊥ := by
  unfold keepLeast
  split
  · exact hv
  · rename_i h
    exact fun hacc => h (Or.inl hacc)

/-- Behind the first value the smaller one is kept. -/
lemma le_keepLeast_iff {acc v p : α} (hacc : acc ≠ ⊥) : p ≤ keepLeast acc v ↔ p ≤ acc ∧ p ≤ v := by
  unfold keepLeast
  split
  · rename_i h
    have hle := h.resolve_left hacc
    exact ⟨fun hp => ⟨hp.trans hle, hp⟩, And.right⟩
  · rename_i h
    have hlt : acc < v := not_le.1 fun hle => h (Or.inr hle)
    exact ⟨fun hp => ⟨hp, hp.trans hlt.le⟩, And.left⟩

/-- Without `⊥` the fold is the least value. -/
lemma le_foldl_keepLeast_iff {p : α} : ∀ {l : List α} {acc : α}, acc ≠ ⊥ → ⊥ ∉ l →
    (p ≤ l.foldl keepLeast acc ↔ p ≤ acc ∧ ∀ v ∈ l, p ≤ v)
  | [], acc, _, _ => by simp
  | v :: l, acc, hacc, hl => by
    have hv : v ≠ ⊥ := fun h => hl (h ▸ List.mem_cons_self)
    rw [List.foldl_cons, le_foldl_keepLeast_iff (keepLeast_ne_bot hv) fun h => hl (List.mem_cons_of_mem _ h),
      le_keepLeast_iff hacc, List.forall_mem_cons, and_assoc]

/-- The fold is `⊥` when the last value is. -/
lemma foldl_keepLeast_eq_bot_iff {l : List α} (hl : l ≠ []) (acc : α) :
    l.foldl keepLeast acc = ⊥ ↔ l.getLast hl = ⊥ := by
  obtain ⟨init, v, rfl⟩ := (List.eq_nil_or_concat' l).resolve_left hl
  rw [List.foldl_append, List.foldl_cons, List.foldl_nil, List.getLast_append_singleton]
  constructor
  · intro h
    by_contra hv
    exact keepLeast_ne_bot hv h
  · rintro rfl
    exact keepLeast_bot_right _

/-- The running minimum is the greatest element of `S` exactly where its last value stands for the unset ones, and `S`
has every value that lies below all of them. -/
lemma isGreatest_foldl_keepLeast_iff {S : Set α} {l : List α} (hl : l ≠ []) (hlower : IsLowerSet S) (hS : S.Nonempty)
    (hbelow : ∀ p ∈ S, ∀ v ∈ l, p ≤ v) :
    IsGreatest S (l.foldl keepLeast ⊥) ↔
      (⊥ ∈ l → l.getLast hl = ⊥) ∧ ∀ p, (∀ v ∈ l, p ≤ v) → p ∈ S := by
  have hbot : ⊥ ∈ S := hlower bot_le hS.choose_spec
  by_cases hmem : ⊥ ∈ l
  · -- with an unset value in the list only the least element lies below all
    have honly : ∀ p, (∀ v ∈ l, p ≤ v) → p = ⊥ := fun p hp => le_bot_iff.1 (hp ⊥ hmem)
    rw [← foldl_keepLeast_eq_bot_iff hl ⊥]
    constructor
    · intro h
      exact ⟨fun _ => honly _ (hbelow _ h.1), fun p hp => honly p hp ▸ hbot⟩
    · rintro ⟨h, -⟩
      rw [h hmem]
      exact ⟨hbot, fun p hp => (honly p (hbelow p hp)).le⟩
  · obtain ⟨v, l, rfl⟩ := List.exists_cons_of_ne_nil hl
    have hv : v ≠ ⊥ := fun h => hmem (h ▸ List.mem_cons_self)
    have hfold : ∀ p, p ≤ (v :: l).foldl keepLeast ⊥ ↔ ∀ w ∈ v :: l, p ≤ w := by
      intro p
      rw [List.foldl_cons, keepLeast_bot_left, le_foldl_keepLeast_iff hv fun h => hmem (List.mem_cons_of_mem _ h),
        List.forall_mem_cons]
    constructor
    · intro h
      exact ⟨fun hin => absurd hin hmem, fun p hp => hlower ((hfold p).2 hp) h.1⟩
    · rintro ⟨-, h⟩
      exact ⟨h _ ((hfold _).1 le_rfl), fun p hp => (hfold p).2 (hbelow p hp)⟩

end Least

end GaussKernel.Lib
