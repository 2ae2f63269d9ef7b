import Mathlib.Data.List.Basic

/-!
# Patterns with wildcards

A pattern is a list of letters, of wildcards for one letter and of wildcards for any number of letters. A letter is the
test that it makes of the text.
-/

namespace GaussKernel.Lib

variable {α : Type*}

inductive Wild (α : Type*)
  | many
  | one
  | letter (test : α → Prop)

namespace Wild

/-- The pattern matches the whole text. -/
def Accepts : List (Wild α) → List α → Prop
  | [], t => t = []
  | many :: w, t => ∃ s, s <:+ t ∧ Accepts w s
  | one :: w, t => ∃ c s, t = c :: s ∧ Accepts w s
  | letter test :: w, t => ∃ c s, t = c :: s ∧ test c ∧ Accepts w s

variable {w : List (Wild α)} {s t : List α} {c : α} {test : α → Prop}

lemma accepts_one : Accepts (one :: w) (c :: t) ↔ Accepts w t := by
  constructor
  · intro ⟨c', t', heq, h⟩
    cases heq
    exact h
  · exact fun h => ⟨c, t, rfl, h⟩

lemma accepts_letter : Accepts (letter test :: w) (c :: t) ↔ test c ∧ Accepts w t := by
  constructor
  · intro ⟨c', t', heq, h⟩
    cases heq
    exact h
  · exact fun h => ⟨c, t, rfl, h⟩

/-- A wildcard for any number of letters takes none or one more. -/
lemma accepts_many_cons :
    Accepts (many :: w) (c :: t) ↔ Accepts w (c :: t) ∨ Accepts (many :: w) t := by
  constructor
  · intro ⟨s, hs, h⟩
    cases List.suffix_cons_iff.mp hs with
    | inl heq => exact .inl (heq ▸ h)
    | inr hs => exact .inr ⟨s, hs, h⟩
  · intro h
    cases h with
    | inl h => exact ⟨c :: t, List.suffix_rfl, h⟩
    | inr h =>
      obtain ⟨s, hs, h⟩ := h
      exact ⟨s, hs.trans (List.suffix_cons c t), h⟩

lemma accepts_many_of_suffix (hs : s <:+ t) (h : Accepts (many :: w) s) : Accepts (many :: w) t := by
  obtain ⟨r, hr, h⟩ := h
  exact ⟨r, hr.trans hs, h⟩

lemma accepts_many_nil : Accepts (many :: w) [] ↔ Accepts w [] := by
  constructor
  · intro ⟨s, hs, h⟩
    exact List.suffix_nil.mp hs ▸ h
  · exact fun h => ⟨[], List.suffix_rfl, h⟩

lemma accepts_many (t : List α) : Accepts [many] t := ⟨[], List.nil_suffix, rfl⟩

lemma accepts_many_many : Accepts (many :: many :: w) t ↔ Accepts (many :: w) t := by
  constructor
  · intro ⟨s, hs, h⟩
    exact accepts_many_of_suffix hs h
  · exact fun h => ⟨t, List.suffix_rfl, h⟩

/-- A wildcard for one letter may come first. -/
lemma accepts_many_one : Accepts (many :: one :: w) t ↔ Accepts (one :: many :: w) t := by
  induction t with
  | nil =>
    rw [accepts_many_nil]
    constructor
    all_goals
      intro ⟨c, s, heq, _⟩
      cases heq
  | cons c t ih =>
    rw [accepts_many_cons, accepts_one, accepts_one, ih]
    constructor
    · intro h
      cases h with
      | inl h => exact ⟨t, List.suffix_rfl, h⟩
      | inr h =>
        obtain ⟨c', s, rfl, h⟩ := h
        exact accepts_many_of_suffix (List.suffix_cons c' s) h
    · intro h
      cases t with
      | nil => exact .inl (accepts_many_nil.mp h)
      | cons c' s =>
        cases accepts_many_cons.mp h with
        | inl h => exact .inl h
        | inr h => exact .inr (accepts_one.mpr h)

/-- How long a text has to be -/
def minLength : List (Wild α) → ℕ
  | [] => 0
  | many :: w => minLength w
  | one :: w | letter _ :: w => minLength w + 1

lemma minLength_le (h : Accepts w t) : minLength w ≤ t.length := by
  induction w generalizing t with
  | nil => exact Nat.zero_le _
  | cons x w ih =>
    cases x with
    | many =>
      obtain ⟨s, hs, h⟩ := h
      exact Nat.le_trans (ih h) hs.length_le
    | one =>
      obtain ⟨c, s, rfl, h⟩ := h
      exact Nat.succ_le_succ (ih h)
    | letter test =>
      obtain ⟨c, s, rfl, _, h⟩ := h
      exact Nat.succ_le_succ (ih h)

/-- A shortest text leaves nothing to a wildcard for any number of letters. -/
lemma accepts_many_shortest (ht : t.length = minLength w) : Accepts (many :: w) t ↔ Accepts w t := by
  constructor
  · intro ⟨s, hs, h⟩
    exact hs.eq_of_length_le (ht ▸ minLength_le h) ▸ h
  · exact fun h => ⟨t, List.suffix_rfl, h⟩

end Wild

end GaussKernel.Lib
