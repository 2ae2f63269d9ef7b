import Mathlib.Algebra.BigOperators.Group.List.Basic
import Mathlib.Tactic.Abel

/-!
# Shares of a total

Every element of a list has a share in a total. The total does not mind where in the list an element stands, and the
elements without a share need not be counted.
-/

namespace GaussKernel.Lib

variable {α M : Type*}

def total [AddCommMonoid M] (share : α → M) (l : List α) : M := (l.map share).sum

section AddCommMonoid

variable [AddCommMonoid M] {share share' : α → M}

/-- The total of nothing. -/
@[simp] lemma total_nil : total share [] = 0 := rfl

/-- The total with one element more. -/
@[simp] lemma total_cons (a : α) (l : List α) : total share (a :: l) = share a + total share l := List.sum_cons

/-- An element may be taken out of the middle. -/
lemma total_middle (pre : List α) (a : α) (post : List α) :
    total share (pre ++ a :: post) = share a + total share (pre ++ post) :=
  (List.perm_middle.map share).sum_eq.trans List.sum_cons

/-- Of the elements without a share a selection may leave out any. -/
lemma total_filter {l : List α} {q : α → Bool} (hin : ∀ a ∈ l, q a = true → share a = share' a)
    (hout : ∀ a ∈ l, q a = false → share a = 0) : total share l = total share' (l.filter q) := by
  induction l with
  | nil => rfl
  | cons a l ih =>
    have ih := ih (fun b hb => hin b (List.mem_cons_of_mem a hb)) fun b hb => hout b (List.mem_cons_of_mem a hb)
    cases hq : q a with
    | true => rw [List.filter_cons_of_pos hq, total_cons, total_cons, hin a List.mem_cons_self hq, ih]
    | false => rw [List.filter_cons_of_neg (by rw [hq]; decide), total_cons, hout a List.mem_cons_self hq, ih, zero_add]

end AddCommMonoid

/-- The total of a difference. -/
lemma total_sub [AddCommGroup M] {share share' : α → M} (l : List α) :
    total (fun a => share a - share' a) l = total share l - total share' l := by
  induction l with
  | nil => exact (sub_zero 0).symm
  | cons a l ih =>
    rw [total_cons, total_cons, total_cons, ih]
    abel

end GaussKernel.Lib
