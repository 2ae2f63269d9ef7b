import Mathlib

/-!
# Linked lists

Cells that are linked by a partial function, as the nodes of a list in memory are by their `next` pointers.
-/

namespace GaussKernel.Lib

variable {α : Type*} {next next' : α → Option α} {l l' : List α} {s e m : Option α} {a : α}

/-- The cells `l` are those from `s` on to the one whose link is `e`. -/
def Linked (next : α → Option α) : Option α → List α → Option α → Prop
  | s, [], e => s = e
  | s, a :: l, e => s = some a ∧ Linked next (next a) l e

/-- The cells from `s` on, if the end is within `n` cells. -/
def follow (next : α → Option α) : Nat → Option α → Option (List α)
  | _, none => some []
  | 0, some _ => none
  | n + 1, some a => (follow next n (next a)).map (a :: ·)

/-- A chain of one cell. -/
lemma Linked.single (a : α) : Linked next (some a) [a] (next a) := ⟨rfl, rfl⟩

/-- Chains that meet are one chain. -/
lemma Linked.append (h : Linked next s l m) (h' : Linked next m l' e) : Linked next s (l ++ l') e := by
  induction l generalizing s with
  | nil =>
    cases h
    exact h'
  | cons a l ih => exact ⟨h.1, ih h.2⟩

/-- A chain of two parts meets in between. -/
lemma linked_append : Linked next s (l ++ l') e ↔ ∃ m, Linked next s l m ∧ Linked next m l' e := by
  constructor
  · intro h
    induction l generalizing s with
    | nil => exact ⟨s, rfl, h⟩
    | cons a l ih =>
      obtain ⟨m, hl, hl'⟩ := ih h.2
      exact ⟨m, ⟨h.1, hl⟩, hl'⟩
  · rintro ⟨m, hl, hl'⟩
    exact hl.append hl'

/-- The links of other cells do not matter. -/
lemma Linked.congr (h : Linked next s l e) (hn : ∀ a ∈ l, next' a = next a) : Linked next' s l e := by
  induction l generalizing s with
  | nil => exact h
  | cons a l ih =>
    refine ⟨h.1, ?_⟩
    rw [hn a List.mem_cons_self]
    exact ih h.2 fun b hb => hn b (List.mem_cons_of_mem _ hb)

/-- A chain starts with its first cell. -/
lemma Linked.start (h : Linked next s l e) : s = l.head?.or e := by
  cases l with
  | nil => exact h
  | cons a l => exact h.1


/-- Following the links gives the chain. -/
lemma Linked.follow_eq {n : Nat} (h : Linked next s l none) (hn : l.length ≤ n) : follow next n s = some l := by
  induction l generalizing s n with
  | nil =>
    cases h
    cases n <;> rfl
  | cons a l ih =>
    cases n with
    | zero => exact absurd hn (Nat.not_succ_le_zero _)
    | succ n =>
      rw [h.1, follow, ih h.2 (Nat.le_of_succ_le_succ hn)]
      rfl

end GaussKernel.Lib
