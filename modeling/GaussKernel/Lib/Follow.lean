import Mathlib.Data.List.Basic

/-!
# Readers that follow a log

A log only grows at its end, and each of its readers goes along it from where it joined. What a reader got is entries and
gaps: at a gap it was told that it missed some entries, but not which.
-/

namespace GaussKernel.Lib

variable {α : Type*}

inductive Got (α : Type*)
  | entry (a : α)
  | gap

namespace Got

def entry? : Got α → Option α
  | entry a => some a
  | gap => none

/-- From `start`, a reader that got `gots` has come to `pos`. -/
inductive Follows (log : List α) (start : ℕ) : List (Got α) → ℕ → Prop
  | join : Follows log start [] start
  | entry {gots : List (Got α)} {pos : ℕ} {a : α} (h : Follows log start gots pos) (ha : log[pos]? = some a) :
      Follows log start (gots ++ [.entry a]) (pos + 1)
  | gap {gots : List (Got α)} {pos pos' : ℕ} (h : Follows log start gots pos) (hle : pos ≤ pos') :
      Follows log start (gots ++ [.gap]) pos'

namespace Follows

variable {log : List α} {start pos : ℕ} {gots : List (Got α)}

/-- The log may grow meanwhile. -/
lemma append (h : Follows log start gots pos) (log' : List α) : Follows (log ++ log') start gots pos := by
  induction h with
  | join => exact .join
  | entry _ ha ih =>
    apply ih.entry
    rw [List.getElem?_append_left (List.getElem?_eq_some_iff.mp ha).1, ha]
  | gap _ hle ih => exact ih.gap hle

lemma le (h : Follows log start gots pos) : start ≤ pos := by
  induction h with
  | join => exact Nat.le_refl _
  | entry _ _ ih => exact Nat.le_succ_of_le ih
  | gap _ hle ih => exact Nat.le_trans ih hle

/-- A reader that got nothing is where it joined. -/
lemma of_nil (h : Follows log start [] pos) : pos = start := by
  generalize hgots : [] = gots at h
  cases h with
  | join => rfl
  | entry => exact absurd hgots.symm (List.append_ne_nil_of_right_ne_nil _ (List.cons_ne_nil _ _))
  | gap => exact absurd hgots.symm (List.append_ne_nil_of_right_ne_nil _ (List.cons_ne_nil _ _))

lemma read_next {a : α} (hle : start ≤ pos) (ha : log[pos]? = some a) :
    (log.drop start).take (pos + 1 - start) = (log.drop start).take (pos - start) ++ [a] := by
  have hnext : (log.drop start)[pos - start]? = some a := by
    rw [List.getElem?_drop, Nat.add_sub_cancel' hle, ha]
  rw [Nat.succ_sub hle, List.take_add_one, hnext]
  rfl

/-- A reader that got no gap has all entries from where it joined, in their order. -/
lemma entries (h : Follows log start gots pos) (hgap : .gap ∉ gots) :
    gots.filterMap entry? = (log.drop start).take (pos - start) := by
  induction h with
  | join => rw [Nat.sub_self, List.take_zero, List.filterMap_nil]
  | @entry gots pos a h ha ih =>
    rw [List.filterMap_append, ih fun hmem => hgap (List.mem_append_left _ hmem), read_next h.le ha]
    rfl
  | gap => exact absurd (List.mem_append_right _ (List.mem_singleton_self _)) hgap

end Follows

end Got

end GaussKernel.Lib
