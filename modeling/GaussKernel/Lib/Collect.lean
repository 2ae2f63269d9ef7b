import Mathlib

/-!
# Collecting into one array

A loop that copies every item to the next free place of an array and lets the accepted items keep theirs: the place of a
rejected item is overwritten by the next one. Several such loops fill one array after the other, each with its own
predicate. The array is a total function with the list of the places written.
-/

namespace GaussKernel.Lib

variable {α β : Type*}

/-- An array and the places written so far. -/
structure Traced (β : Type*) where
  entry : ℕ → β
  written : List ℕ

def Traced.write (a : Traced β) (i : ℕ) (b : β) : Traced β := ⟨Function.update a.entry i b, i :: a.written⟩

/-! ## One loop -/

section Collect

variable (copy keep : β → α → β) (p : α → Bool) (base : ℕ)

/-- Copies the item to the next free place, which it keeps if accepted. -/
def collectStep (s : Traced β × ℕ) (x : α) : Traced β × ℕ :=
  let i := base + s.2
  let b := copy (s.1.entry i) x
  if p x then (s.1.write i (keep b x), s.2 + 1) else (s.1.write i b, s.2)

def collect (a : Traced β) (xs : List α) : Traced β × ℕ := xs.foldl (collectStep copy keep p base) (a, 0)

variable {copy keep p base} {a : Traced β} {xs : List α}

lemma collect_append_singleton (x : α) :
    collect copy keep p base a (xs ++ [x]) = collectStep copy keep p base (collect copy keep p base a xs) x := by
  rw [collect, List.foldl_append]
  rfl

lemma collectStep_snd (s : Traced β × ℕ) (x : α) :
    (collectStep copy keep p base s x).2 = s.2 + if p x then 1 else 0 := by
  unfold collectStep
  dsimp only
  split <;> rfl

lemma collectStep_written (s : Traced β × ℕ) (x : α) :
    (collectStep copy keep p base s x).1.written = (base + s.2) :: s.1.written := by
  unfold collectStep
  dsimp only
  split <;> rfl

lemma collect_snd : (collect copy keep p base a xs).2 = xs.countP p := by
  induction xs using List.reverseRecOn with
  | nil => rfl
  | append_singleton xs x ih =>
    rw [collect_append_singleton, collectStep_snd, ih, List.countP_append, List.countP_singleton]

/-- An item is written behind the accepted ones before it. -/
lemma mem_collect_written {w : ℕ} : w ∈ (collect copy keep p base a xs).1.written ↔
    w ∈ a.written ∨ ∃ i < xs.length, w = base + (xs.take i).countP p := by
  induction xs using List.reverseRecOn with
  | nil => exact (or_iff_left fun ⟨i, hi, _⟩ => absurd hi (Nat.not_lt_zero i)).symm
  | append_singleton xs x ih =>
    rw [collect_append_singleton, collectStep_written, List.mem_cons, ih, collect_snd, List.length_append,
      List.length_singleton]
    constructor
    · rintro (rfl | hw | ⟨i, hi, rfl⟩)
      · exact .inr ⟨xs.length, Nat.lt_succ_self _, by rw [List.take_left']; rfl⟩
      · exact .inl hw
      · exact .inr ⟨i, by omega, by rw [List.take_append_of_le_length (by omega)]⟩
    · rintro (hw | ⟨i, hi, rfl⟩)
      · exact .inr (.inl hw)
      · rcases Nat.lt_succ_iff_lt_or_eq.1 hi with hi | rfl
        · exact .inr (.inr ⟨i, hi, by rw [List.take_append_of_le_length (by omega)]⟩)
        · exact .inl (by rw [List.take_left']; rfl)

lemma collectStep_entry {s : Traced β × ℕ} {x : α} {j : ℕ} (h : j < base + s.2) :
    (collectStep copy keep p base s x).1.entry j = s.1.entry j := by
  unfold collectStep
  dsimp only
  split <;> exact Function.update_of_ne h.ne _ _

/-- The places of the loops before are left alone. -/
lemma collect_entry_before {j : ℕ} (h : j < base) : (collect copy keep p base a xs).1.entry j = a.entry j := by
  induction xs using List.reverseRecOn with
  | nil => rfl
  | append_singleton xs x ih =>
    rw [collect_append_singleton, collectStep_entry (by omega), ih]

/-- The accepted items, in order. -/
lemma collect_entries {f : α → β} (hf : ∀ b x, p x = true → keep (copy b x) x = f x) :
    (List.range (xs.countP p)).map (fun j => (collect copy keep p base a xs).1.entry (base + j)) =
      (xs.filter p).map f := by
  induction xs using List.reverseRecOn with
  | nil => rfl
  | append_singleton xs x ih =>
    rw [collect_append_singleton, List.countP_append, List.countP_singleton, List.filter_append, List.map_append, ← ih]
    have hkeep : ∀ j ∈ List.range (xs.countP p),
        (collectStep copy keep p base (collect copy keep p base a xs) x).1.entry (base + j) =
          (collect copy keep p base a xs).1.entry (base + j) := by
      intro j hj
      apply collectStep_entry
      rw [collect_snd]
      exact Nat.add_lt_add_left (List.mem_range.1 hj) base
    by_cases hx : p x = true
    · have hlast : (collectStep copy keep p base (collect copy keep p base a xs) x).1.entry (base + xs.countP p) =
          f x := by
        unfold collectStep
        dsimp only
        rw [if_pos hx, collect_snd]
        exact (Function.update_self _ _ _).trans (hf _ x hx)
      rw [if_pos hx, List.range_succ, List.map_append, List.map_congr_left hkeep, List.filter_singleton, hx, cond_true,
        List.map_singleton, List.map_singleton, hlast]
    · rw [if_neg hx, Nat.add_zero, List.map_congr_left hkeep, List.filter_singleton,
        Bool.eq_false_of_not_eq_true hx, cond_false, List.map_nil, List.append_nil]

end Collect

/-! ## Loops one after the other -/

section Groups

variable {p : ℕ → α → Bool} {xs : List α}

/-- Accepted by one of the first `g` predicates. -/
def takenBefore (p : ℕ → α → Bool) (g : ℕ) (x : α) : Bool := (List.range g).any fun h => p h x

lemma takenBefore_iff {g : ℕ} {x : α} : takenBefore p g x = true ↔ ∃ h < g, p h x = true := by
  simp [takenBefore]

lemma countP_or_of_disjoint {q r : α → Bool} (h : ∀ x, q x = true → r x = true → False) (xs : List α) :
    xs.countP (fun x => q x || r x) = xs.countP q + xs.countP r := by
  induction xs with
  | nil => rfl
  | cons x xs ih =>
    rw [List.countP_cons, List.countP_cons, List.countP_cons, ih]
    cases hq : q x with
    | false => cases hr : r x <;> simp [Nat.add_assoc]
    | true =>
      cases hr : r x with
      | false => simp; omega
      | true => exact (h x hq hr).elim

/-- The first `g` loops and the next. -/
lemma countP_takenBefore_succ (hdis : ∀ x g h, p g x = true → p h x = true → g = h) (g : ℕ) (xs : List α) :
    xs.countP (takenBefore p (g + 1)) = xs.countP (takenBefore p g) + xs.countP (p g) := by
  rw [← countP_or_of_disjoint]
  · congr 1
    funext x
    simp [takenBefore, List.range_succ]
  · intro x hbefore hg
    obtain ⟨h, hlt, hh⟩ := takenBefore_iff.1 hbefore
    exact hlt.ne (hdis x h g hh hg)

/-- All loops stay inside an array with a place for every item, except where all items are accepted and the last one
not by the last loop: then a loop starts or goes on when the array is full. -/
theorem collect_inside_iff (hdis : ∀ x g h, p g x = true → p h x = true → g = h) (n : ℕ) :
    (∀ g < n, ∀ i < xs.length, xs.countP (takenBefore p g) + (xs.take i).countP (p g) < xs.length) ↔
      ((∀ x ∈ xs, takenBefore p n x = true) → ∀ last ∈ xs.getLast?, p (n - 1) last = true) := by
  constructor
  · intro h hall last hlast
    obtain ⟨front, rfl⟩ := List.getLast?_eq_some_iff.1 hlast
    obtain ⟨g, hg, -⟩ := takenBefore_iff.1 (hall last (by simp))
    obtain ⟨m, rfl⟩ : ∃ m, n = m + 1 := ⟨n - 1, by omega⟩
    rw [Nat.add_sub_cancel]
    by_contra hp
    have hfull := List.countP_eq_length.2 hall
    have hwrite := h m (Nat.lt_succ_self m) front.length (by simp)
    have hfront : (front ++ [last]).countP (p m) = front.countP (p m) := by
      rw [List.countP_append, List.countP_singleton, if_neg hp, Nat.add_zero]
    rw [countP_takenBefore_succ hdis, hfront] at hfull
    rw [List.take_left' rfl] at hwrite
    omega
  · intro h g hg i hi
    by_contra hge
    have htake : (xs.take i).countP (p g) + (xs.drop i).countP (p g) = xs.countP (p g) := by
      rw [← List.countP_append, List.take_append_drop]
    have hsucc := countP_takenBefore_succ hdis g xs
    have hle : xs.countP (takenBefore p (g + 1)) ≤ xs.length := List.countP_le_length
    -- every item is accepted so far, and none from item `i` on by this loop
    have hall : ∀ x ∈ xs, takenBefore p (g + 1) x = true := List.countP_eq_length.1 (by omega)
    have hnone : ∀ x ∈ xs.drop i, ¬ p g x = true := List.countP_eq_zero.1 (by omega)
    have hlast : xs.getLast? = (xs.drop i).getLast? := by rw [List.getLast?_drop, if_neg (by omega)]
    cases hl : xs.getLast? with
    | none => exact absurd hi (by rw [List.getLast?_eq_none_iff.1 hl]; exact Nat.not_lt_zero i)
    | some last =>
      have hmem : last ∈ xs.drop i := List.mem_of_getLast? (hlast ▸ hl)
      have hbefore : takenBefore p n last = true := by
        obtain ⟨k, hk, hp⟩ := takenBefore_iff.1 (hall last (List.mem_of_mem_drop hmem))
        exact takenBefore_iff.2 ⟨k, by omega, hp⟩
      have hp := h (fun x hx => ?_) last hl
      · obtain ⟨k, hk, hpk⟩ := takenBefore_iff.1 (hall last (List.mem_of_mem_drop hmem))
        obtain rfl := hdis last k (n - 1) hpk hp
        obtain rfl : g = n - 1 := by omega
        exact hnone last hmem hp
      · obtain ⟨k, hk, hpk⟩ := takenBefore_iff.1 (hall x hx)
        exact takenBefore_iff.2 ⟨k, by omega, hpk⟩

end Groups

end GaussKernel.Lib
